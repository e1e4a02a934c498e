import DaoGovernance.Proofs.Tally
import Mathlib

/-!
The decision on votes is the one that exact sums and exact ratios lead to.  Votes can be decided on
just when all their powers together are an amount, in whatever order they come.
-/

namespace DaoGovernance

/-! ### Ratios -/

namespace Decimal

/-- The fraction is at most `num / den`.  Over zero only the fraction zero is. -/
def AtMost (d : Decimal) (num den : Nat) : Prop :=
  den = 0 ∧ d.raw.toNat = 0 ∨ 0 < den ∧ d.raw.toNat * den ≤ num * 10 ^ 18

instance (d : Decimal) (num den : Nat) : Decidable (d.AtMost num den) :=
  inferInstanceAs (Decidable (_ ∨ _))

variable {d : Decimal} {num den : Amount}

theorem isZero_iff (hden : den.toNat = 0) : d.isZero = true ↔ d.AtMost num.toNat den.toNat := by
  rw [isZero, decide_eq_true_eq, AtMost, hden, ← BitVec.toNat_inj]
  simp

theorem isMetBy_iff (d : Decimal) (num den : Amount) :
    d.isMetBy num den = true ↔ d.AtMost num.toNat den.toNat := by
  unfold isMetBy
  split
  · rename_i hden
    exact isZero_iff (by rw [hden]; rfl)
  · rename_i hden
    have hpos : 0 < den.toNat := Nat.pos_of_ne_zero fun h => hden (BitVec.eq_of_toNat_eq h)
    rw [Amount.wideLe_iff, Amount.wideProduct_exact, Amount.wideProduct_exact, toNat_unit, AtMost]
    exact ⟨fun h => .inr ⟨hpos, h⟩, fun h => (h.resolve_left fun h => hpos.ne' h.1).2⟩

end Decimal

namespace Tally

variable {t u : Tally} {vs ws : List Vote} {o : VoteOption} {a : Amount} {e : Overflow}
  {quorum threshold : Decimal} {snapshot : Amount}

theorem hasQuorum_iff (total snapshot : Amount) (quorum : Decimal) :
    hasQuorum total snapshot quorum = true ↔ quorum.AtMost total.toNat snapshot.toNat := by
  unfold hasQuorum
  split
  · rename_i hz
    exact Decimal.isZero_iff (by rw [hz]; rfl)
  · exact quorum.isMetBy_iff total snapshot

theorem meetsThreshold_iff (yes counted : Amount) (threshold : Decimal) :
    meetsThreshold yes counted threshold = true ↔ threshold.AtMost yes.toNat counted.toNat := by
  unfold meetsThreshold
  split
  · rename_i hz
    exact Decimal.isZero_iff (by rw [hz]; rfl)
  · exact threshold.isMetBy_iff yes counted

/-! ### Sums that do not fit -/

theorem checkedSum_of_lt {b : Amount} (h : a.toNat + b.toNat < Amount.size) :
    ∃ c, checkedSum a b = .ok c ∧ c.toNat = a.toNat + b.toNat := by
  obtain ⟨c, hc, hn⟩ := Amount.ofNat?_of_lt h
  refine ⟨c, ?_, hn⟩
  rw [checkedSum, Amount.checkedAdd, hc]

theorem checkedSum_of_le {b : Amount} (h : Amount.size ≤ a.toNat + b.toNat) :
    checkedSum a b = .error .tally := by
  rw [checkedSum, Amount.checkedAdd_eq_none_iff.2 h]

def powerOf (t : Tally) : VoteOption → Nat
  | .unspecified => 0
  | .yes => t.yes.toNat
  | .no => t.no.toNat
  | .abstain => t.abstain.toNat

theorem Adds.powerOf {n : VoteOption → Nat} (h : t.Adds u n) (ho : o ≠ .unspecified) :
    u.powerOf o = t.powerOf o + n o := by
  cases o with
  | unspecified => exact absurd rfl ho
  | yes => exact h.yes
  | no => exact h.no
  | abstain => exact h.abstain

theorem le_of_map_checkedSum {b : Amount} {f : Amount → Tally}
    (h : f <$> checkedSum a b = .error e) : e = .tally ∧ Amount.size ≤ a.toNat + b.toNat := by
  by_cases hlt : a.toNat + b.toNat < Amount.size
  · obtain ⟨c, hc, -⟩ := checkedSum_of_lt hlt
    rw [hc] at h
    cases h
  · have hle := not_lt.1 hlt
    rw [checkedSum_of_le hle] at h
    cases h
    exact ⟨rfl, hle⟩

theorem le_of_count (h : t.count o a = .error e) :
    e = .tally ∧ o ≠ .unspecified ∧ Amount.size ≤ t.powerOf o + a.toNat := by
  cases o with
  | unspecified => cases h
  | yes => exact ⟨(le_of_map_checkedSum h).1, by decide, (le_of_map_checkedSum h).2⟩
  | no => exact ⟨(le_of_map_checkedSum h).1, by decide, (le_of_map_checkedSum h).2⟩
  | abstain => exact ⟨(le_of_map_checkedSum h).1, by decide, (le_of_map_checkedSum h).2⟩

theorem le_of_countAll (h : t.countAll vs = .error e) :
    e = .tally ∧ ∃ o ≠ .unspecified, Amount.size ≤ t.powerOf o + powersFor o vs := by
  induction vs generalizing t with
  | nil => cases h
  | cons v vs ih =>
    unfold countAll at h
    split at h
    · rename_i s hs
      obtain ⟨he, o, ho, hle⟩ := ih h
      refine ⟨he, o, ho, ?_⟩
      rwa [(count_adds hs).powerOf ho, Nat.add_assoc, ← powersFor_cons] at hle
    · rename_i hs
      cases h
      obtain ⟨he, ho, hle⟩ := le_of_count hs
      refine ⟨he, v.option, ho, hle.trans ?_⟩
      rw [powersFor_cons, if_pos rfl]
      omega

def castPower (vs : List Vote) : Nat :=
  powersFor .yes vs + powersFor .no vs + powersFor .abstain vs

theorem powersFor_le_castPower (ho : o ≠ .unspecified) (vs : List Vote) :
    powersFor o vs ≤ castPower vs := by
  unfold castPower
  cases o with
  | unspecified => exact absurd rfl ho
  | yes => omega
  | no => omega
  | abstain => omega

theorem castPower_perm (h : vs.Perm ws) : castPower ws = castPower vs := by
  simp only [castPower, powersFor_perm h]

theorem le_of_ofVotes (h : ofVotes vs = .error e) : e = .tally ∧ Amount.size ≤ castPower vs := by
  obtain ⟨he, o, ho, hle⟩ := le_of_countAll h
  have hz : zero.powerOf o = 0 := by cases o <;> rfl
  rw [hz, Nat.zero_add] at hle
  exact ⟨he, hle.trans (powersFor_le_castPower ho vs)⟩

/-! ### The decision -/

def exactDecision (yes no abstain snapshot : Nat) (quorum threshold : Decimal) : Decision :=
  if ¬ quorum.AtMost (yes + no + abstain) snapshot then .rejected .quorumNotMet
  else if ¬ threshold.AtMost yes (yes + no) then .rejected .thresholdNotMet
  else .passed

theorem total_of_lt (h : t.yes.toNat + t.no.toNat + t.abstain.toNat < Amount.size) :
    ∃ n s, t.nonAbstain = .ok n ∧ n.toNat = t.yes.toNat + t.no.toNat ∧
      t.total = .ok s ∧ s.toNat = t.yes.toNat + t.no.toNat + t.abstain.toNat := by
  obtain ⟨n, hn, hnn⟩ := checkedSum_of_lt (a := t.yes) (b := t.no) (by omega)
  obtain ⟨s, hs, hsn⟩ := checkedSum_of_lt (a := n) (b := t.abstain) (by omega)
  refine ⟨n, s, hn, hnn, ?_, by rw [hsn, hnn]⟩
  simp only [total, nonAbstain, hn, hs]

theorem total_of_le (h : Amount.size ≤ t.yes.toNat + t.no.toNat + t.abstain.toNat) :
    t.total = .error .tally := by
  by_cases hlt : t.yes.toNat + t.no.toNat < Amount.size
  · obtain ⟨n, hn, hnn⟩ := checkedSum_of_lt hlt
    simp only [total, nonAbstain, hn]
    exact checkedSum_of_le (by omega)
  · simp only [total, nonAbstain, checkedSum_of_le (not_lt.1 hlt)]

theorem decision_of_lt (snapshot : Amount) (quorum threshold : Decimal)
    (h : t.yes.toNat + t.no.toNat + t.abstain.toNat < Amount.size) :
    t.decision snapshot quorum threshold = .ok (exactDecision t.yes.toNat t.no.toNat
      t.abstain.toNat snapshot.toNat quorum threshold) := by
  obtain ⟨n, s, hn, hnn, hs, hsn⟩ := total_of_lt h
  have hq := hasQuorum_iff s snapshot quorum
  have ht := meetsThreshold_iff t.yes n threshold
  rw [hsn] at hq
  rw [hnn] at ht
  simp only [decision, hs, hn, exactDecision, ← hq, ← ht, Bool.not_eq_true', Bool.not_eq_true]
  split
  · rfl
  · split <;> rfl

theorem decision_of_le (snapshot : Amount) (quorum threshold : Decimal)
    (h : Amount.size ≤ t.yes.toNat + t.no.toNat + t.abstain.toNat) :
    t.decision snapshot quorum threshold = .error .tally := by
  rw [decision, total_of_le h]

def decisionOn (vs : List Vote) (snapshot : Amount) (quorum threshold : Decimal) :
    Except GovernanceError (Tally × Decision) :=
  match ofVotes vs with
  | .error e => .error (.arithmetic e)
  | .ok t =>
    match t.decision snapshot quorum threshold with
    | .error e => .error (.arithmetic e)
    | .ok d => .ok (t, d)

theorem decisionOn_of_le (snapshot : Amount) (quorum threshold : Decimal)
    (h : Amount.size ≤ castPower vs) :
    decisionOn vs snapshot quorum threshold = .error (.arithmetic .tally) := by
  cases ht : ofVotes vs with
  | error e =>
    obtain ⟨rfl, -⟩ := le_of_ofVotes ht
    simp only [decisionOn, ht]
  | ok t =>
    have hc := counts_of_ofVotes ht
    unfold castPower at h
    rw [← hc.yes, ← hc.no, ← hc.abstain] at h
    simp only [decisionOn, ht, decision_of_le snapshot quorum threshold h]

theorem decisionOn_of_lt (snapshot : Amount) (quorum threshold : Decimal)
    (h : castPower vs < Amount.size) :
    ∃ t : Tally, t.Counts vs ∧ decisionOn vs snapshot quorum threshold =
      .ok (t, exactDecision (powersFor .yes vs) (powersFor .no vs) (powersFor .abstain vs)
        snapshot.toNat quorum threshold) := by
  cases ht : ofVotes vs with
  | error e => exact absurd (le_of_ofVotes ht).2 (not_le.2 h)
  | ok t =>
    have hc := counts_of_ofVotes ht
    unfold castPower at h
    rw [← hc.yes, ← hc.no, ← hc.abstain] at h ⊢
    refine ⟨t, hc, ?_⟩
    simp only [decisionOn, ht, decision_of_lt snapshot quorum threshold h]

theorem Counts.eq (h : t.Counts vs) (k : u.Counts vs) : t = u := by
  cases t
  cases u
  simp only [Tally.mk.injEq, ← BitVec.toNat_inj]
  exact ⟨h.yes.trans k.yes.symm, h.no.trans k.no.symm, h.abstain.trans k.abstain.symm⟩

theorem decisionOn_perm (h : vs.Perm ws) (snapshot : Amount) (quorum threshold : Decimal) :
    decisionOn ws snapshot quorum threshold = decisionOn vs snapshot quorum threshold := by
  by_cases hlt : castPower vs < Amount.size
  · obtain ⟨t, ht, hv⟩ := decisionOn_of_lt snapshot quorum threshold hlt
    rw [← castPower_perm h] at hlt
    obtain ⟨u, hu, hw⟩ := decisionOn_of_lt snapshot quorum threshold hlt
    rw [hv, hw, (ht.perm h).eq hu]
    simp only [powersFor_perm h]
  · have hle := not_lt.1 hlt
    rw [decisionOn_of_le _ _ _ hle]
    rw [← castPower_perm h] at hle
    rw [decisionOn_of_le _ _ _ hle]

/-- Votes are decided on by exact sums and ratios unless all their powers together are no amount, and
alike in every order. -/
theorem decides_exactly (vs : List Vote) (snapshot : Amount) (quorum threshold : Decimal) :
    (decisionOn vs snapshot quorum threshold = .error (.arithmetic .tally) ↔
      Amount.size ≤ castPower vs) ∧
    (castPower vs < Amount.size → ∃ t : Tally, t.Counts vs ∧
      decisionOn vs snapshot quorum threshold =
        .ok (t, exactDecision (powersFor .yes vs) (powersFor .no vs) (powersFor .abstain vs)
          snapshot.toNat quorum threshold)) ∧
    ∀ ws, vs.Perm ws →
      decisionOn ws snapshot quorum threshold = decisionOn vs snapshot quorum threshold := by
  refine ⟨⟨fun h => ?_, decisionOn_of_le _ _ _⟩, decisionOn_of_lt _ _ _,
    fun ws h => decisionOn_perm h _ _ _⟩
  by_contra hlt
  obtain ⟨t, -, ht⟩ := decisionOn_of_lt snapshot quorum threshold (not_le.1 hlt)
  rw [ht] at h
  cases h

theorem ties_decide_exactly :
    let v (o : VoteOption) (a : Amount) : Vote := ⟨0, ⟨"dns1pppppppp", by decide⟩, o, a⟩
    let half : Amount := 0x3FFFFFFFFFFFFFFFFFFFFFFFFFFFFFFF
    let vs := [v .yes half, v .no half, v .abstain 1, v .unspecified half]
    castPower vs < Amount.size ∧
      ∃ t : Tally, t.Counts vs ∧
        decisionOn vs.reverse 0xFFFFFFFFFFFFFFFFFFFFFFFFFFFFFFFE (.percent 50) (.percent 50) =
          .ok (t, .passed) := by
  intro v half vs
  have hlt : castPower vs < Amount.size := by decide +kernel
  obtain ⟨-, hexact, hperm⟩ :=
    decides_exactly vs 0xFFFFFFFFFFFFFFFFFFFFFFFFFFFFFFFE (.percent 50) (.percent 50)
  obtain ⟨t, ht, hd⟩ := hexact hlt
  have hpassed : exactDecision (powersFor .yes vs) (powersFor .no vs) (powersFor .abstain vs)
      (0xFFFFFFFFFFFFFFFFFFFFFFFFFFFFFFFE : Amount).toNat (.percent 50) (.percent 50) =
        .passed := by decide +kernel
  refine ⟨hlt, t, ht, ?_⟩
  rw [hperm _ (List.reverse_perm vs).symm, hd, hpassed]

end Tally

end DaoGovernance
