import DaoGovernance.Coins
import Mathlib

/-!
Sums of coins.  A valid set of coins is the only one with its sums.
-/

namespace DaoGovernance

namespace Coins

variable {cs : Coins} {c : Coin} {d : String}

def totalIn (d : String) (cs : List Coin) : Nat :=
  (cs.map fun c => if c.denom = d then c.amount.toNat else 0).sum

theorem le_totalIn {cs : List Coin} (h : c ∈ cs) : c.amount.toNat ≤ totalIn c.denom cs := by
  have hm := List.mem_map_of_mem
    (f := fun e : Coin => if e.denom = c.denom then e.amount.toNat else 0) h
  rw [if_pos rfl] at hm
  exact List.le_sum_of_mem hm

theorem amountOf_le_totalIn (cs : Coins) (d : String) :
    (cs.amountOf d).toNat ≤ totalIn d cs.list := by
  unfold amountOf
  split
  · rename_i c hc
    obtain rfl : c.denom = d := by simpa using List.find?_some hc
    exact le_totalIn (List.mem_of_find?_eq_some hc)
  · exact Nat.zero_le _

theorem totalIn_eq_zero_of_isZero (h : cs.isZero = true) (d : String) :
    totalIn d cs.list = 0 := by
  rw [isZero, List.all_eq_true] at h
  rw [totalIn, List.sum_eq_zero_iff]
  intro n hn
  obtain ⟨c, hc, rfl⟩ := List.mem_map.1 hn
  have := h c hc
  simp only [Coin.isZero, decide_eq_true_eq] at this
  simp [this]

/-! ### Valid sets -/

theorem checkEach_eq_ok {cs : List Coin} :
    checkEach cs = .ok () ↔ ∀ c ∈ cs, Denom.isValid c.denom = true ∧ c.amount ≠ 0 := by
  induction cs with
  | nil => simp [checkEach]
  | cons c cs ih =>
    have hz : c.amount = 0 ↔ c.isZero = true := decide_eq_true_iff.symm
    rw [List.forall_mem_cons, ← ih, checkEach, Coin.validate, Denom.validate, Ne, hz]
    cases Denom.isValid c.denom <;> cases c.isZero <;> simp

abbrev Precedes (c d : Coin) : Prop := KeyOrder.before c.denom d.denom = true

instance : Std.Irrefl Precedes := ⟨fun c => by simp [Precedes, KeyOrder.irrefl]⟩

instance : IsTrans Coin Precedes := ⟨fun _ _ _ => KeyOrder.trans⟩

theorem checkOrder_eq_ok {cs : List Coin} : checkOrder cs = .ok () ↔ cs.Pairwise Precedes := by
  rw [← List.isChain_iff_pairwise]
  induction cs with
  | nil => simp [checkOrder]
  | cons c cs ih =>
    cases cs with
    | nil => simp [checkOrder]
    | cons d cs =>
      rw [List.isChain_cons_cons, ← ih, checkOrder, Precedes]
      split <;> simp [*]

structure Canonical (cs : Coins) : Prop where
  nonzero : ∀ c ∈ cs.list, c.amount ≠ 0
  ordered : cs.list.Pairwise Precedes

theorem validate_eq_ok :
    cs.validate = .ok () ↔ (∀ c ∈ cs.list, Denom.isValid c.denom = true) ∧ cs.Canonical := by
  have hboth : cs.validate = .ok () ↔ checkEach cs.list = .ok () ∧ checkOrder cs.list = .ok () := by
    rw [validate]
    cases checkEach cs.list <;> simp
  rw [hboth, checkEach_eq_ok, checkOrder_eq_ok, forall₂_and, and_assoc]
  exact and_congr_right fun _ => ⟨fun h => ⟨h.1, h.2⟩, fun h => ⟨h.nonzero, h.ordered⟩⟩

theorem canonical_of_validate (h : cs.validate = .ok ()) : cs.Canonical := (validate_eq_ok.1 h).2

theorem totalIn_cons (d : String) (c : Coin) (cs : List Coin) :
    totalIn d (c :: cs) = (if c.denom = d then c.amount.toNat else 0) + totalIn d cs := rfl

theorem totalIn_eq_zero {cs : List Coin} (h : ∀ c ∈ cs, c.denom ≠ d) : totalIn d cs = 0 := by
  induction cs with
  | nil => rfl
  | cons c cs ih =>
    rw [totalIn_cons, if_neg (h c (by simp)), ih fun e he => h e (by simp [he])]

theorem totalIn_of_mem {cs : List Coin} (h : cs.Pairwise Precedes) (hc : c ∈ cs) :
    totalIn c.denom cs = c.amount.toNat := by
  induction cs with
  | nil => cases hc
  | cons e cs ih =>
    obtain ⟨he, hcs⟩ := List.pairwise_cons.1 h
    rw [totalIn_cons]
    rcases List.mem_cons.1 hc with rfl | hc
    · rw [if_pos rfl, totalIn_eq_zero fun f hf => (KeyOrder.ne_of_before (he f hf)).symm,
        Nat.add_zero]
    · rw [if_neg (KeyOrder.ne_of_before (he c hc)), Nat.zero_add, ih hcs hc]

namespace Canonical

theorem toNat_amountOf (h : cs.Canonical) (d : String) :
    (cs.amountOf d).toNat = totalIn d cs.list := by
  unfold amountOf
  split
  · rename_i c hc
    obtain rfl : c.denom = d := by simpa using List.find?_some hc
    exact (totalIn_of_mem h.ordered (List.mem_of_find?_eq_some hc)).symm
  · rename_i hnone
    refine (totalIn_eq_zero fun c hc => ?_).symm
    simpa using List.find?_eq_none.1 hnone c hc

variable {ds : Coins}

theorem mem_of_totalIn_eq (h : cs.Canonical) (k : ds.Canonical)
    (heq : ∀ d, totalIn d cs.list = totalIn d ds.list) (hc : c ∈ cs.list) : c ∈ ds.list := by
  have hsum : totalIn c.denom ds.list = c.amount.toNat := by
    rw [← heq, totalIn_of_mem h.ordered hc]
  obtain ⟨e, he, hd⟩ : ∃ e ∈ ds.list, e.denom = c.denom := by
    by_contra hnone
    rw [totalIn_eq_zero fun e he hd => hnone ⟨e, he, hd⟩] at hsum
    exact h.nonzero c hc (BitVec.eq_of_toNat_eq hsum.symm)
  have ha := totalIn_of_mem k.ordered he
  rw [hd, hsum] at ha
  obtain rfl : c = e := by
    cases c
    cases e
    simp_all [BitVec.toNat_inj]
  exact he

theorem eq_of_totalIn_eq (h : cs.Canonical) (k : ds.Canonical)
    (heq : ∀ d, totalIn d cs.list = totalIn d ds.list) : cs = ds := by
  have hlist : cs.list = ds.list := h.ordered.eq_of_mem_iff k.ordered fun c =>
    ⟨h.mem_of_totalIn_eq k heq, k.mem_of_totalIn_eq h fun d => (heq d).symm⟩
  cases cs
  cases ds
  rw [Coins.mk.injEq]
  exact hlist

end Canonical

end Coins

end DaoGovernance
