import DaoGovernance.Proofs.Codec.Records
import DaoGovernance.Store.Key
import Mathlib

/-!
Keys are read back, and nothing else is read as a key.  The keys that begin with a proposal's are
those of its votes, and the keys that begin with a voter's are those of its lots.
-/

namespace DaoGovernance

namespace Address

theorem isAscii_of_mem (a : Address) : ∀ c ∈ a.text.toList, c.toNat < 0x80 := by
  have human : humanPart.all (·.toNat < 0x80) = true := by decide
  have data : alphabet.all (·.toNat < 0x80) = true := by decide
  have hv := a.valid
  simp only [isValid, isValidText, Bool.and_eq_true, List.isPrefixOf_iff_prefix] at hv
  obtain ⟨⟨⟨⟨rest, hrest⟩, -⟩, -⟩, hall⟩ := hv
  rw [← hrest, List.drop_left] at hall
  intro c hc
  apply of_decide_eq_true
  rw [← hrest] at hc
  rcases List.mem_append.1 hc with hc | hc
  · exact List.all_eq_true.1 human c hc
  · exact List.all_eq_true.1 data c (List.contains_iff_mem.1 (List.all_eq_true.1 hall c hc))

theorem toBytes_text (a : Address) :
    Text.toBytes a.text = a.text.toList.map fun c => .ofNat c.toNat := by
  have hb : ∀ c ∈ a.text.toList, Text.Utf8.encodeChar c = [.ofNat c.toNat] := by
    intro c hc
    rw [Text.Utf8.encodeChar, if_pos (a.isAscii_of_mem c hc)]
  rw [Text.toBytes, Text.Utf8.encode, List.flatMap_congr hb, ← List.map_eq_flatMap]

theorem length_toBytes_text (a : Address) : (Text.toBytes a.text).length ≤ maxLength := by
  rw [toBytes_text, List.length_map]
  exact a.length_text_le

end Address

namespace Key

theorem exists_ok_of_do {α β γ : Type} {x : Except KeyError α} {y : Except KeyError β}
    {f : α → β → γ} {c : γ} (h : (do let a ← x; let b ← y; return f a b) = Except.ok c) :
    ∃ a, x = .ok a ∧ ∃ b, y = .ok b ∧ f a b = c := by
  cases x with
  | error e => cases h
  | ok a =>
    cases y with
    | error e => cases h
    | ok b => exact ⟨a, rfl, b, rfl, Except.ok.inj h⟩

@[simp] theorem length_ofId (id : UInt64) : (ofId id).length = 8 := by simp [ofId]

@[simp] theorem toId_ofId (id : UInt64) : toId (ofId id) = .ok id := by
  rw [toId, if_pos (length_ofId id), ofId, List.reverse_reverse,
    ofLittleEndian_littleEndian id.toNat_lt, UInt64.ofNat_toNat]

theorem ofId_of_toId {bs : Bytes} {id : UInt64} (h : toId bs = .ok id) : ofId id = bs := by
  unfold toId at h
  split at h
  · rename_i hl
    cases h
    rw [← List.length_reverse] at hl
    have hlt := ofLittleEndian_lt bs.reverse
    rw [hl] at hlt
    rw [ofId, UInt64.toNat_ofNat_of_lt' hlt, ← hl, littleEndian_ofLittleEndian,
      List.reverse_reverse]
  · cases h

theorem ofId_injective : Function.Injective ofId := by
  intro i j h
  have := congrArg toId h
  simpa using this

@[simp] theorem toVoter_toBytes (a : Address) : toVoter (Text.toBytes a.text) = .ok a := by
  simp [toVoter]

theorem toBytes_of_toVoter {bs : Bytes} {a : Address} (h : toVoter bs = .ok a) :
    Text.toBytes a.text = bs := by
  unfold toVoter at h
  split at h
  · cases h
  · rename_i s hs
    split at h
    · cases h
    · rename_i ha
      cases h
      rw [Address.text_of_parse ha, Text.toBytes_of_ofBytes hs]

theorem toBytes_text_ne_nil (a : Address) : Text.toBytes a.text ≠ [] := by
  intro h
  have hs := Text.ofBytes_toBytes a.text
  rw [h] at hs
  have hv := a.valid
  rw [← Except.ok.inj hs] at hv
  exact absurd hv (by decide)

@[simp] theorem toVote_ofVote (id : UInt64) (a : Address) : toVote (ofVote id a) = .ok (id, a) := by
  have hp := List.length_pos_iff.2 (toBytes_text_ne_nil a)
  have hl : ¬ (ofVote id a).length ≤ 8 := by
    rw [ofVote, List.length_append, length_ofId]
    omega
  have ht : (ofVote id a).take 8 = ofId id := List.take_left' (length_ofId id)
  have hd : (ofVote id a).drop 8 = Text.toBytes a.text := List.drop_left' (length_ofId id)
  rw [toVote, if_neg hl, ht, hd, toId_ofId, toVoter_toBytes]
  rfl

theorem ofVote_of_toVote {bs : Bytes} {id : UInt64} {a : Address} (h : toVote bs = .ok (id, a)) :
    ofVote id a = bs := by
  unfold toVote at h
  split at h
  · cases h
  · obtain ⟨i, hi, v, hv, h⟩ := exists_ok_of_do h
    cases h
    rw [ofVote, ofId_of_toId hi, toBytes_of_toVoter hv, List.take_append_drop]

theorem ofVote_injective : Function.Injective fun k : UInt64 × Address => ofVote k.1 k.2 := by
  intro k l h
  have := congrArg toVote h
  simpa using this

theorem ofId_isPrefixOf_ofVote {i j : UInt64} {a : Address} :
    (ofId i).isPrefixOf (ofVote j a) = true ↔ j = i := by
  rw [List.isPrefixOf_iff_prefix]
  constructor
  · intro h
    have he := List.prefix_iff_eq_take.1 h
    rw [length_ofId, ofVote, List.take_left' (length_ofId j)] at he
    exact (ofId_injective he).symm
  · rintro rfl
    exact List.prefix_append _ _

/-! ### Lots -/

theorem toNat_ofNat_length (a : Address) :
    (UInt8.ofNat (Text.toBytes a.text).length).toNat = (Text.toBytes a.text).length := by
  have hl : Address.maxLength = 90 := rfl
  have := a.length_toBytes_text
  exact Text.Utf8.toNat_ofNat (by omega)

@[simp] theorem toLot_ofLot (a : Address) (id : UInt64) : toLot (ofLot a id) = .ok (a, id) := by
  have hl := toNat_ofNat_length a
  generalize hbs : Text.toBytes a.text = bs at hl
  have ht : (bs ++ ofId id).take bs.length = bs := List.take_left
  have hd : (bs ++ ofId id).drop bs.length = ofId id := List.drop_left
  rw [ofLot, ofVoter, hbs, List.cons_append, toLot, hl, if_neg (by simp), ht, hd, ← hbs,
    toVoter_toBytes, toId_ofId]
  rfl

theorem ofLot_of_toLot {bs : Bytes} {a : Address} {id : UInt64} (h : toLot bs = .ok (a, id)) :
    ofLot a id = bs := by
  cases bs with
  | nil => cases h
  | cons n bs =>
    rw [toLot] at h
    split at h
    · cases h
    · rename_i hl
      obtain ⟨v, hv, i, hi, h⟩ := exists_ok_of_do h
      cases h
      have hn : (bs.take n.toNat).length = n.toNat := by
        rw [List.length_take]
        omega
      rw [ofLot, ofVoter, toBytes_of_toVoter hv, ofId_of_toId hi, hn, UInt8.ofNat_toNat,
        List.cons_append, List.take_append_drop]

theorem ofLot_injective : Function.Injective fun k : Address × UInt64 => ofLot k.1 k.2 := by
  intro k l h
  have := congrArg toLot h
  simpa using this

theorem ofVoter_isPrefixOf_ofLot {a b : Address} {id : UInt64} :
    (ofVoter a).isPrefixOf (ofLot b id) = true ↔ b = a := by
  rw [List.isPrefixOf_iff_prefix]
  constructor
  · rintro ⟨r, hr⟩
    simp only [ofLot, ofVoter, List.cons_append, List.cons.injEq] at hr
    have hl := congrArg UInt8.toNat hr.1
    rw [toNat_ofNat_length, toNat_ofNat_length] at hl
    have hv := congrArg toVoter (List.append_inj hr.2 hl).1
    simpa using hv.symm
  · rintro rfl
    exact List.prefix_append _ _

end Key

end DaoGovernance
