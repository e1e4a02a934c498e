import DaoGovernance.Proofs.KeyOrder
import DaoGovernance.Proofs.Store.Key
import Mathlib

/-!
The order of keys.  As bytes they stand in the order of what they are keys of, lots by the length of
their voter first.  So a key tells all that it is a key of, and where it stands.
-/

namespace DaoGovernance

open KeyOrder (before same before_append before_pair)

theorem before_nat (n m : Nat) : before n m = decide (n < m) := rfl

theorem before_byte {n m : Nat} (hn : n < 256) (hm : m < 256) :
    before (UInt8.ofNat n) (UInt8.ofNat m) = before n m := by
  change before (UInt8.ofNat n).toNat (UInt8.ofNat m).toNat = _
  rw [Text.Utf8.toNat_ofNat hn, Text.Utf8.toNat_ofNat hm]

theorem before_littleEndian {width n m : Nat} (hn : n < 256 ^ width) (hm : m < 256 ^ width) :
    before (littleEndian width n).reverse (littleEndian width m).reverse = before n m := by
  induction width generalizing n m with
  | zero =>
    rw [pow_zero] at hn hm
    obtain rfl : n = m := by omega
    simp [KeyOrder.irrefl]
  | succ w ih =>
    rw [pow_succ] at hn hm
    have hq : n / 256 < 256 ^ w := by omega
    have hq' : m / 256 < 256 ^ w := by omega
    have hb : ∀ i j : Nat, before [UInt8.ofNat (i % 256)] [UInt8.ofNat (j % 256)] =
        before (i % 256) (j % 256) := by
      intro i j
      rw [KeyOrder.before_cons, KeyOrder.irrefl, Bool.and_false, Bool.or_false,
        before_byte (Nat.mod_lt _ (by decide)) (Nat.mod_lt _ (by decide))]
    rw [littleEndian, littleEndian, List.reverse_cons, List.reverse_cons, before_append (by simp),
      before_pair, same, ih hq hq', ih hq' hq, hb, Bool.eq_iff_iff]
    simp only [before_nat, Bool.or_eq_true, Bool.and_eq_true, Bool.not_eq_true',
      decide_eq_true_eq, decide_eq_false_iff_not]
    omega

theorem before_iff_lt (as bs : Bytes) : before as bs = true ↔ as < bs := by
  induction as generalizing bs with
  | nil => cases bs <;> simp [before, KeyOrder.beforeList]
  | cons a as ih =>
    cases bs with
    | nil => simp [before, KeyOrder.beforeList]
    | cons b bs =>
      rw [KeyOrder.before_cons, List.cons_lt_cons_iff, Bool.or_eq_true, Bool.and_eq_true,
        KeyOrder.same_iff, ih, UInt8.lt_iff_toNat_lt]
      exact or_congr_left decide_eq_true_iff

theorem before_iff_lt_id (i j : UInt64) : before i j = true ↔ i < j := by
  rw [UInt64.lt_iff_toNat_lt]
  exact decide_eq_true_iff

theorem Address.before_toBytes (a b : Address) :
    before (Text.toBytes a.text) (Text.toBytes b.text) = before a b := by
  rw [toBytes_text, toBytes_text]
  refine KeyOrder.before_map (P := fun c => c.toNat < 0x80) ?_ a.isAscii_of_mem b.isAscii_of_mem
  intro c d hc hd
  exact before_byte (by omega) (by omega)

namespace Key

theorem before_ofId (i j : UInt64) : before (ofId i) (ofId j) = before i j :=
  before_littleEndian i.toNat_lt j.toNat_lt

theorem before_ofVote (i j : UInt64) (a b : Address) :
    before (ofVote i a) (ofVote j b) = before (i, a) (j, b) := by
  rw [ofVote, ofVote, before_append (by simp), before_pair, before_pair, same, same, before_ofId,
    before_ofId, Address.before_toBytes]

/-- Lots on disk stand by the length of their voter, then by the voter and then by the proposal. -/
def lotRank (k : Address × UInt64) : Nat × Bytes × UInt64 :=
  ((Text.toBytes k.1.text).length, Text.toBytes k.1.text, k.2)

theorem before_ofLot (k l : Address × UInt64) :
    before (ofLot k.1 k.2) (ofLot l.1 l.2) = before (lotRank k) (lotRank l) := by
  have hk := k.1.length_toBytes_text
  have hl := l.1.length_toBytes_text
  have hmax : Address.maxLength = 90 := rfl
  simp only [ofLot, ofVoter, lotRank, List.cons_append]
  generalize Text.toBytes k.1.text = as at *
  generalize Text.toBytes l.1.text = bs at *
  rw [KeyOrder.before_cons, before_pair, same, same, before_byte (by omega) (by omega),
    before_byte (by omega) (by omega)]
  by_cases he : as.length = bs.length
  · rw [before_append he, before_pair, before_pair, before_ofId]
  · have hne : (!before as.length bs.length && !before bs.length as.length) = false := by
      simp only [before_nat, Bool.and_eq_false_iff, Bool.not_eq_false', decide_eq_true_eq]
      omega
    rw [hne]
    rfl

theorem ofVote_lt_iff {i j : UInt64} {a b : Address} :
    ofVote i a < ofVote j b ↔
      i < j ∨ i = j ∧ Text.toBytes a.text < Text.toBytes b.text := by
  rw [← before_iff_lt, before_ofVote, before_pair, Bool.or_eq_true, Bool.and_eq_true,
    KeyOrder.same_iff, before_iff_lt_id, ← Address.before_toBytes, before_iff_lt]

theorem ofLot_lt_iff {i j : UInt64} {a b : Address} :
    ofLot a i < ofLot b j ↔
      (Text.toBytes a.text).length < (Text.toBytes b.text).length ∨
        (Text.toBytes a.text).length = (Text.toBytes b.text).length ∧
          (Text.toBytes a.text < Text.toBytes b.text ∨
            Text.toBytes a.text = Text.toBytes b.text ∧ i < j) := by
  rw [← before_iff_lt, before_ofLot (a, i) (b, j), lotRank, lotRank, before_pair, before_pair,
    Bool.or_eq_true, Bool.and_eq_true, Bool.or_eq_true, Bool.and_eq_true, KeyOrder.same_iff,
    KeyOrder.same_iff, before_iff_lt_id, before_iff_lt]
  exact or_congr_left decide_eq_true_iff

/-- Keys are read back and nothing else is read.  Bytewise, votes stand by their proposal and then
by their voter, lots by the length of their voter, then by the voter and then by the proposal.  The
keys that begin as a proposal's does are those of its votes, and those that begin as a voter's does
are those of its lots. -/
theorem keys_tell_all (i j : UInt64) (a b : Address) (bs : Bytes) :
    ((toVote bs = .ok (i, a) ↔ bs = ofVote i a) ∧ (toLot bs = .ok (a, i) ↔ bs = ofLot a i)) ∧
    (ofVote i a < ofVote j b ↔
      i < j ∨ i = j ∧ Text.toBytes a.text < Text.toBytes b.text) ∧
    (ofLot a i < ofLot b j ↔
      (Text.toBytes a.text).length < (Text.toBytes b.text).length ∨
        (Text.toBytes a.text).length = (Text.toBytes b.text).length ∧
          (Text.toBytes a.text < Text.toBytes b.text ∨
            Text.toBytes a.text = Text.toBytes b.text ∧ i < j)) ∧
    (ofId i <+: ofVote j b ↔ j = i) ∧ (ofVoter a <+: ofLot b j ↔ b = a) := by
  refine ⟨⟨⟨fun h => (ofVote_of_toVote h).symm, fun h => h ▸ toVote_ofVote i a⟩,
    fun h => (ofLot_of_toLot h).symm, fun h => h ▸ toLot_ofLot a i⟩, ofVote_lt_iff, ofLot_lt_iff,
    ?_, ?_⟩
  · rw [← List.isPrefixOf_iff_prefix, ofId_isPrefixOf_ofVote]
  · rw [← List.isPrefixOf_iff_prefix, ofVoter_isPrefixOf_ofLot]

/-- The text of one address may begin another's, but its length stands before it. -/
example : (ofVoter ⟨"dns1qqqqqqqq", by decide⟩).isPrefixOf
    (ofLot ⟨"dns1qqqqqqqqq", by decide⟩ 1) = false := by decide

end Key

end DaoGovernance
