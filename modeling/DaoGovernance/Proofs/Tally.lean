import DaoGovernance.Proofs.Decimal
import DaoGovernance.Verdict
import Mathlib

/-!
A tally that was counted has the exact sums of the powers of its votes, and a verdict comes with
such a tally unless the votes could not be counted.
-/

namespace DaoGovernance

def powersFor (o : VoteOption) (vs : List Vote) : Nat :=
  ((vs.filter (·.option = o)).map (·.power.toNat)).sum

theorem powersFor_cons (o : VoteOption) (v : Vote) (vs : List Vote) :
    powersFor o (v :: vs) = (if v.option = o then v.power.toNat else 0) + powersFor o vs := by
  unfold powersFor
  by_cases h : v.option = o <;> simp [h]

theorem powersFor_perm {o : VoteOption} {vs ws : List Vote} (h : vs.Perm ws) :
    powersFor o vs = powersFor o ws := ((h.filter _).map _).sum_eq

namespace Tally

variable {t u w : Tally} {m n : VoteOption → Nat}

structure Adds (t u : Tally) (n : VoteOption → Nat) : Prop where
  yes : u.yes.toNat = t.yes.toNat + n .yes
  no : u.no.toNat = t.no.toNat + n .no
  abstain : u.abstain.toNat = t.abstain.toNat + n .abstain

theorem Adds.trans (h : t.Adds u m) (k : u.Adds w n) : t.Adds w fun o => m o + n o where
  yes := by rw [k.yes, h.yes, Nat.add_assoc]
  no := by rw [k.no, h.no, Nat.add_assoc]
  abstain := by rw [k.abstain, h.abstain, Nat.add_assoc]

theorem exists_of_checkedSum {f : Amount → Tally} {a b : Amount}
    (h : f <$> checkedSum a b = .ok u) : ∃ s, s.toNat = a.toNat + b.toNat ∧ u = f s := by
  unfold checkedSum at h
  split at h
  · rename_i s hs
    cases h
    exact ⟨s, (Amount.checkedAdd_eq_some_iff.1 hs).symm, rfl⟩
  · cases h

theorem count_adds {o : VoteOption} {a : Amount} (h : t.count o a = .ok u) :
    t.Adds u fun p => if o = p then a.toNat else 0 := by
  cases o with
  | unspecified =>
    cases h
    exact ⟨rfl, rfl, rfl⟩
  | yes =>
    obtain ⟨s, hs, rfl⟩ := exists_of_checkedSum h
    exact ⟨hs, rfl, rfl⟩
  | no =>
    obtain ⟨s, hs, rfl⟩ := exists_of_checkedSum h
    exact ⟨rfl, hs, rfl⟩
  | abstain =>
    obtain ⟨s, hs, rfl⟩ := exists_of_checkedSum h
    exact ⟨rfl, rfl, hs⟩

theorem countAll_adds {vs : List Vote} (h : t.countAll vs = .ok u) :
    t.Adds u fun o => powersFor o vs := by
  induction vs generalizing t with
  | nil =>
    cases h
    exact ⟨rfl, rfl, rfl⟩
  | cons v vs ih =>
    unfold countAll at h
    split at h
    · rename_i s hs
      simpa only [powersFor_cons] using (count_adds hs).trans (ih h)
    · cases h

structure Counts (t : Tally) (vs : List Vote) : Prop where
  yes : t.yes.toNat = powersFor .yes vs
  no : t.no.toNat = powersFor .no vs
  abstain : t.abstain.toNat = powersFor .abstain vs

theorem counts_of_ofVotes {vs : List Vote} (h : ofVotes vs = .ok t) : t.Counts vs := by
  obtain ⟨hy, hn, ha⟩ := countAll_adds h
  exact ⟨by simpa [zero] using hy, by simpa [zero] using hn, by simpa [zero] using ha⟩

theorem Counts.perm {vs ws : List Vote} (h : t.Counts vs) (hp : vs.Perm ws) : t.Counts ws where
  yes := h.yes.trans (powersFor_perm hp)
  no := h.no.trans (powersFor_perm hp)
  abstain := h.abstain.trans (powersFor_perm hp)

end Tally

theorem Params.judge_cases (params : Params) (p : Proposal)
    (r : Except GovernanceError (List Vote)) :
    (∃ vs, r = .ok vs ∧ (params.judge p r).1.Counts vs) ∨
    (params.judge p r).1 = p.tally ∧ ∃ e, (params.judge p r).2 = .uncountable e := by
  cases r with
  | error e => exact .inr ⟨rfl, e, rfl⟩
  | ok vs =>
    cases ht : Tally.ofVotes vs with
    | error o =>
      simp only [judge, ht]
      exact .inr ⟨trivial, _, rfl⟩
    | ok t =>
      simp only [judge, ht]
      exact .inl ⟨vs, rfl, Tally.counts_of_ofVotes ht⟩

theorem Params.unpack_of_judge {params : Params} {p : Proposal}
    {r : Except GovernanceError (List Vote)} {content : Content}
    (h : (params.judge p r).2 = .passed content) : p.content.unpack = .ok content := by
  unfold judge at h
  split at h
  · cases h
  · split at h
    · cases h
    · unfold Verdict.ofDecision at h
      split at h
      · cases h
      · split at h
        · cases h
        · cases h
        · cases h
          assumption

end DaoGovernance
