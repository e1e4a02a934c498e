import DaoGovernance.Proofs.Decision
import Mathlib

/-!
Support never hurts.  A tally that passes still does when yes or abstaining power is added to it, and
when less is asked of it.
-/

namespace DaoGovernance

/-! ### Ratios -/

namespace Decimal.AtMost

variable {d e : Decimal} {num num' den : Nat}

theorem mono (h : d.AtMost num den) (hle : num ≤ num') : d.AtMost num' den := by
  rcases h with h | ⟨hden, h⟩
  · exact .inl h
  · exact .inr ⟨hden, h.trans (Nat.mul_le_mul_right _ hle)⟩

theorem anti (h : d.AtMost num den) (hle : e.raw ≤ d.raw) : e.AtMost num den := by
  have hle := BitVec.le_def.1 hle
  rcases h with ⟨hden, hz⟩ | ⟨hden, h⟩
  · exact .inl ⟨hden, Nat.le_zero.1 (hle.trans_eq hz)⟩
  · exact .inr ⟨hden, (Nat.mul_le_mul_right _ hle).trans h⟩

theorem add (h : d.AtMost num den) (hle : num ≤ den) (k : Nat) : d.AtMost (num + k) (den + k) := by
  rcases h with ⟨rfl, hz⟩ | ⟨hden, h⟩
  -- Over zero the fraction is zero, and every other ratio is at least that.
  · rcases Nat.eq_zero_or_pos k with rfl | hk
    · exact .inl ⟨rfl, hz⟩
    · refine .inr ⟨Nat.add_pos_right 0 hk, ?_⟩
      rw [hz, Nat.zero_mul]
      exact Nat.zero_le _
  -- A share is at most one, and so is a fraction that it meets.
  · have hone : d.raw.toNat ≤ 10 ^ 18 := by
      refine Nat.le_of_mul_le_mul_right ?_ hden
      calc d.raw.toNat * den
        _ ≤ num * 10 ^ 18 := h
        _ ≤ den * 10 ^ 18 := Nat.mul_le_mul_right _ hle
        _ = 10 ^ 18 * den := Nat.mul_comm ..
    refine .inr ⟨Nat.add_pos_left hden k, ?_⟩
    calc d.raw.toNat * (den + k)
      _ = d.raw.toNat * den + d.raw.toNat * k := Nat.mul_add ..
      _ ≤ num * 10 ^ 18 + 10 ^ 18 * k := Nat.add_le_add h (Nat.mul_le_mul_right k hone)
      _ = (num + k) * 10 ^ 18 := by ring

end Decimal.AtMost

namespace Tally

variable {t u : Tally} {snapshot : Amount} {quorum threshold quorum' threshold' : Decimal}

/-! ### Exact sums -/

section Exact

variable {yes no abstain whole : Nat}

theorem exactDecision_eq_passed_iff :
    exactDecision yes no abstain whole quorum threshold = .passed ↔
      quorum.AtMost (yes + no + abstain) whole ∧ threshold.AtMost yes (yes + no) := by
  unfold exactDecision
  split_ifs <;> simp_all

theorem exactDecision_of_support {yes' abstain' : Nat} (hy : yes ≤ yes') (ha : abstain ≤ abstain')
    (h : exactDecision yes no abstain whole quorum threshold = .passed) :
    exactDecision yes' no abstain' whole quorum threshold = .passed := by
  obtain ⟨hquorum, hthreshold⟩ := exactDecision_eq_passed_iff.1 h
  obtain ⟨more, rfl⟩ := Nat.exists_eq_add_of_le hy
  refine exactDecision_eq_passed_iff.2 ⟨hquorum.mono (by omega), ?_⟩
  -- What is added to yes is added to both sides of the ratio.
  rw [Nat.add_right_comm]
  exact hthreshold.add (Nat.le_add_right _ _) more

theorem exactDecision_of_le (hq : quorum'.raw ≤ quorum.raw) (ht : threshold'.raw ≤ threshold.raw)
    (h : exactDecision yes no abstain whole quorum threshold = .passed) :
    exactDecision yes no abstain whole quorum' threshold' = .passed := by
  obtain ⟨hquorum, hthreshold⟩ := exactDecision_eq_passed_iff.1 h
  exact exactDecision_eq_passed_iff.2 ⟨hquorum.anti hq, hthreshold.anti ht⟩

end Exact

/-! ### Tallies -/

theorem decision_eq_passed_iff : t.decision snapshot quorum threshold = .ok .passed ↔
    t.yes.toNat + t.no.toNat + t.abstain.toNat < Amount.size ∧
      exactDecision t.yes.toNat t.no.toNat t.abstain.toNat snapshot.toNat quorum threshold =
        .passed := by
  by_cases hlt : t.yes.toNat + t.no.toNat + t.abstain.toNat < Amount.size
  · rw [decision_of_lt _ _ _ hlt, Except.ok.injEq, and_iff_right hlt]
  · rw [decision_of_le _ _ _ (not_lt.1 hlt)]
    exact iff_of_false nofun fun h => hlt h.1

structure SupportedBy (t u : Tally) : Prop where
  yes : t.yes ≤ u.yes
  no : u.no = t.no
  abstain : t.abstain ≤ u.abstain

theorem SupportedBy.passed (h : t.SupportedBy u)
    (hlt : u.yes.toNat + u.no.toNat + u.abstain.toNat < Amount.size)
    (ht : t.decision snapshot quorum threshold = .ok .passed) :
    u.decision snapshot quorum threshold = .ok .passed := by
  have hexact := (decision_eq_passed_iff.1 ht).2
  rw [← h.no] at hexact
  exact decision_eq_passed_iff.2 ⟨hlt, exactDecision_of_support (BitVec.le_def.1 h.yes)
    (BitVec.le_def.1 h.abstain) hexact⟩

theorem passed_of_vote {vs : List Vote} {v : Vote} (hv : v.option = .yes ∨ v.option = .abstain)
    (hlt : castPower (v :: vs) < Amount.size)
    (h : decisionOn vs snapshot quorum threshold = .ok (t, .passed)) :
    ∃ u, decisionOn (v :: vs) snapshot quorum threshold = .ok (u, .passed) := by
  have hno : powersFor .no (v :: vs) = powersFor .no vs := by
    rw [powersFor_cons, if_neg (by rcases hv with hv | hv <;> simp [hv]), Nat.zero_add]
  have hle (o : VoteOption) : powersFor o vs ≤ powersFor o (v :: vs) := by
    rw [powersFor_cons]
    exact Nat.le_add_left _ _
  have hlt' : castPower vs < Amount.size := by
    refine lt_of_le_of_lt ?_ hlt
    exact Nat.add_le_add (Nat.add_le_add (hle _) (hle _)) (hle _)
  obtain ⟨t', -, ht⟩ := decisionOn_of_lt snapshot quorum threshold hlt'
  obtain ⟨u, -, hu⟩ := decisionOn_of_lt snapshot quorum threshold hlt
  rw [h, Except.ok.injEq, Prod.mk.injEq] at ht
  refine ⟨u, hu.trans ?_⟩
  rw [hno, exactDecision_of_support (hle _) (hle _) ht.2.symm]

/-- More yes and more abstaining power do not turn what passes into what is rejected, and neither do a
lower quorum and a lower threshold. -/
theorem support_keeps_passed :
    (∀ (t u : Tally) (snapshot : Amount) (quorum threshold : Decimal), t.SupportedBy u →
      u.yes.toNat + u.no.toNat + u.abstain.toNat < Amount.size →
        t.decision snapshot quorum threshold = .ok .passed →
          u.decision snapshot quorum threshold = .ok .passed) ∧
    ∀ (t : Tally) (snapshot : Amount) (quorum threshold quorum' threshold' : Decimal),
      quorum'.raw ≤ quorum.raw → threshold'.raw ≤ threshold.raw →
        t.decision snapshot quorum threshold = .ok .passed →
          t.decision snapshot quorum' threshold' = .ok .passed := by
  constructor
  · intro t u snapshot quorum threshold h hlt ht
    exact h.passed hlt ht
  · intro t snapshot quorum threshold quorum' threshold' hq hthreshold h
    obtain ⟨hlt, hexact⟩ := decision_eq_passed_iff.1 h
    exact decision_eq_passed_iff.2 ⟨hlt, exactDecision_of_le hq hthreshold hexact⟩

theorem filled_keeps_passed :
    let most : Amount := 0xFFFFFFFFFFFFFFFFFFFFFFFFFFFFFFF0
    let half : Decimal := .percent 50
    (⟨0, 0, 0⟩ : Tally).SupportedBy ⟨most, 0, 15⟩ ∧
      (⟨most, 0, 15⟩ : Tally).decision 0 .zero .zero = .ok .passed ∧
      (⟨7, 7, 0⟩ : Tally).SupportedBy ⟨most, 7, 8⟩ ∧
      (⟨most, 7, 8⟩ : Tally).decision 28 half half = .ok .passed ∧
      (⟨7, 7, 0⟩ : Tally).decision 28 .zero (.percent 49) = .ok .passed := by
  intro most half
  have hnone : (⟨0, 0, 0⟩ : Tally).SupportedBy ⟨most, 0, 15⟩ := ⟨by decide, rfl, by decide⟩
  have htie : (⟨7, 7, 0⟩ : Tally).SupportedBy ⟨most, 7, 8⟩ := ⟨by decide, rfl, by decide⟩
  obtain ⟨hsupport, hless⟩ := support_keeps_passed
  refine ⟨hnone, hsupport _ _ _ _ _ hnone ?_ ?_, htie, hsupport _ _ _ _ _ htie ?_ ?_,
    hless _ _ half half _ _ ?_ ?_ ?_⟩ <;> decide +kernel

end Tally

end DaoGovernance
