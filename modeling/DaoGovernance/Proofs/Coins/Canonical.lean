import DaoGovernance.Proofs.Coins
import Mathlib

/-!
The canonical form of a list of coins.  The list has one just when the coins that are not zero have
valid denoms, no two of them the same, and the form has the sums of the list.  The checks of the
sorted list look at its denoms alone, and these do not depend on the order of the input, so neither
does the form or the error.
-/

namespace DaoGovernance

open KeyOrder (before)

theorem KeyOrder.not_before_trans {κ : Type} [KeyOrder κ] {a b c : κ} (h : before b a = false)
    (k : before c b = false) : before c a = false := by
  rw [Bool.eq_false_iff]
  intro hca
  cases hab : before a b with
  | true =>
    rw [trans hca hab] at k
    cases k
  | false =>
    obtain rfl := trichotomy hab h
    rw [hca] at k
    cases k

namespace Coins

variable {cs ds : List Coin} {c : Coin} {s t : Coins} {d : String}

/-! ### Sorting -/

theorem insertByDenom_perm (c : Coin) (cs : List Coin) : (insertByDenom c cs).Perm (c :: cs) := by
  induction cs with
  | nil => rfl
  | cons d ds ih =>
    rw [insertByDenom]
    split
    · exact (ih.cons d).trans (.swap c d ds)
    · rfl

theorem sortByDenom_perm (cs : List Coin) : (sortByDenom cs).Perm cs := by
  induction cs with
  | nil => rfl
  | cons c cs ih => exact (insertByDenom_perm c _).trans (ih.cons c)

abbrev UpTo (c d : Coin) : Prop := before d.denom c.denom = false

theorem insertByDenom_upTo (h : cs.Pairwise UpTo) (c : Coin) :
    (insertByDenom c cs).Pairwise UpTo := by
  induction cs with
  | nil => exact List.pairwise_singleton _ c
  | cons d ds ih =>
    obtain ⟨hd, hds⟩ := List.pairwise_cons.1 h
    rw [insertByDenom]
    split
    · rename_i hlt
      refine List.pairwise_cons.2 ⟨fun e he => ?_, ih hds⟩
      rcases List.mem_cons.1 ((insertByDenom_perm c ds).mem_iff.1 he) with rfl | he
      · exact KeyOrder.asymm hlt
      · exact hd e he
    · rename_i hge
      have hcd : UpTo c d := Bool.eq_false_iff.2 hge
      refine List.pairwise_cons.2 ⟨fun e he => ?_, h⟩
      rcases List.mem_cons.1 he with rfl | he
      · exact hcd
      · exact KeyOrder.not_before_trans hcd (hd e he)

theorem sortByDenom_upTo (cs : List Coin) : (sortByDenom cs).Pairwise UpTo := by
  induction cs with
  | nil => exact .nil
  | cons c cs ih => exact insertByDenom_upTo ih c

theorem sortByDenom_of_pairwise (h : cs.Pairwise Precedes) : sortByDenom cs = cs := by
  induction cs with
  | nil => rfl
  | cons c cs ih =>
    obtain ⟨hc, hcs⟩ := List.pairwise_cons.1 h
    rw [sortByDenom, ih hcs]
    cases cs with
    | nil => rfl
    | cons d ds => rw [insertByDenom, KeyOrder.asymm (hc d List.mem_cons_self), if_neg (by simp)]

theorem denoms_sortByDenom (h : cs.Perm ds) :
    (sortByDenom cs).map Coin.denom = (sortByDenom ds).map Coin.denom := by
  have hsorted (cs : List Coin) :
      ((sortByDenom cs).map Coin.denom).Pairwise fun d e => before e d = false :=
    List.pairwise_map.2 (sortByDenom_upTo cs)
  refine List.Perm.eq_of_pairwise ?_ (hsorted cs) (hsorted ds) ?_
  · exact fun d e _ _ hed hde => KeyOrder.trichotomy hde hed
  · exact (((sortByDenom_perm cs).trans h).trans (sortByDenom_perm ds).symm).map _

/-! ### Checking -/

theorem checkEach_of_denoms (hc : ∀ c ∈ cs, c.isZero = false) (hd : ∀ d ∈ ds, d.isZero = false)
    (h : cs.map Coin.denom = ds.map Coin.denom) : checkEach cs = checkEach ds := by
  induction cs generalizing ds with
  | nil => rw [List.map_eq_nil_iff.1 h.symm]
  | cons c cs ih =>
    obtain ⟨d, ds, rfl, hdenom, hrest⟩ := List.map_eq_cons_iff.1 h.symm
    obtain ⟨hc, hcs⟩ := List.forall_mem_cons.1 hc
    obtain ⟨hd, hds⟩ := List.forall_mem_cons.1 hd
    rw [checkEach, checkEach, Coin.validate, Coin.validate, hdenom, hc, hd, ih hcs hds hrest.symm]

theorem checkOrder_of_denoms (h : cs.map Coin.denom = ds.map Coin.denom) :
    checkOrder cs = checkOrder ds := by
  induction cs generalizing ds with
  | nil => rw [List.map_eq_nil_iff.1 h.symm]
  | cons c cs ih =>
    obtain ⟨d, ds, rfl, hdenom, hrest⟩ := List.map_eq_cons_iff.1 h.symm
    have ih := ih hrest.symm
    cases cs with
    | nil => rw [List.map_eq_nil_iff.1 hrest]; rfl
    | cons c' cs =>
      obtain ⟨d', ds, rfl, hdenom', -⟩ := List.map_eq_cons_iff.1 hrest
      rw [checkOrder, checkOrder, hdenom, hdenom', ih]

/-! ### The form -/

def nonzero (cs : List Coin) : List Coin := cs.filter fun c => !c.isZero

theorem mem_nonzero : c ∈ nonzero cs ↔ c ∈ cs ∧ c.amount ≠ 0 := by
  simp [nonzero, Coin.isZero]

theorem isZero_of_mem_sort : ∀ c ∈ sortByDenom (nonzero cs), c.isZero = false := by
  intro c hc
  exact decide_eq_false (mem_nonzero.1 ((sortByDenom_perm _).mem_iff.1 hc)).2

theorem new_eq (cs : List Coin) : new cs =
    (validate ⟨sortByDenom (nonzero cs)⟩).map fun _ => ⟨sortByDenom (nonzero cs)⟩ := by
  unfold new
  dsimp only
  rw [← nonzero]
  cases validate ⟨sortByDenom (nonzero cs)⟩ <;> rfl

theorem new_eq_ok : new cs = .ok s ↔ s.list = sortByDenom (nonzero cs) ∧ s.validate = .ok () := by
  rw [new_eq]
  constructor
  · intro h
    cases hv : validate ⟨sortByDenom (nonzero cs)⟩ with
    | error e => simp [hv, Except.map] at h
    | ok u =>
      rw [hv] at h
      cases h
      exact ⟨rfl, hv⟩
  · rintro ⟨hs, hv⟩
    obtain rfl : s = ⟨sortByDenom (nonzero cs)⟩ := by rw [← hs]
    rw [hv]
    rfl

theorem new_of_validate (h : s.validate = .ok ()) : new s.list = .ok s := by
  have hcanonical := canonical_of_validate h
  have hnonzero : nonzero s.list = s.list := by
    refine List.filter_eq_self.2 fun c hc => ?_
    simpa [Coin.isZero] using hcanonical.nonzero c hc
  rw [new_eq_ok, hnonzero, sortByDenom_of_pairwise hcanonical.ordered]
  exact ⟨rfl, h⟩

theorem ascending_sort_iff :
    (sortByDenom cs).Pairwise Precedes ↔ (cs.map Coin.denom).Nodup := by
  rw [← ((sortByDenom_perm cs).map Coin.denom).nodup_iff, List.Nodup, List.pairwise_map]
  constructor
  · exact List.Pairwise.imp KeyOrder.ne_of_before
  · intro h
    refine (h.and (sortByDenom_upTo cs)).imp fun {c d} hcd => ?_
    by_contra hnot
    exact hcd.1 (KeyOrder.trichotomy (Bool.eq_false_iff.2 hnot) hcd.2)

theorem validate_sort_iff : validate ⟨sortByDenom (nonzero cs)⟩ = .ok () ↔
    (∀ c ∈ cs, c.amount ≠ 0 → Denom.isValid c.denom = true) ∧
      ((nonzero cs).map Coin.denom).Nodup := by
  rw [validate_eq_ok, ← ascending_sort_iff]
  refine and_congr ?_ ⟨fun h => h.ordered, fun h => ⟨?_, h⟩⟩
  · simp only [(sortByDenom_perm _).mem_iff, mem_nonzero, and_imp]
  · exact fun c hc => (mem_nonzero.1 ((sortByDenom_perm _).mem_iff.1 hc)).2

theorem totalIn_perm (h : cs.Perm ds) (d : String) : totalIn d cs = totalIn d ds :=
  (h.map _).sum_eq

theorem totalIn_nonzero (d : String) (cs : List Coin) : totalIn d (nonzero cs) = totalIn d cs := by
  induction cs with
  | nil => rfl
  | cons c cs ih =>
    rw [nonzero, List.filter_cons, totalIn_cons, ← ih]
    cases hz : c.isZero with
    | false => exact totalIn_cons d c _
    | true =>
      have ha : c.amount = 0 := of_decide_eq_true hz
      simp [ha, nonzero]

/-- `s` has the coins of `cs` that are not zero, in strictly ascending order of denoms, and the sums
of `cs`. -/
structure FormOf (cs : List Coin) (s : Coins) : Prop where
  perm : s.list.Perm (nonzero cs)
  ascending : s.list.Pairwise Precedes
  valid : s.validate = .ok ()
  amountOf : ∀ d, (s.amountOf d).toNat = totalIn d cs

theorem formOf_of_new (h : new cs = .ok s) : FormOf cs s := by
  obtain ⟨hlist, hvalid⟩ := new_eq_ok.1 h
  have hcanonical := canonical_of_validate hvalid
  have hperm : s.list.Perm (nonzero cs) := hlist ▸ sortByDenom_perm _
  refine ⟨hperm, hcanonical.ordered, hvalid, fun d => ?_⟩
  rw [hcanonical.toNat_amountOf, totalIn_perm hperm, totalIn_nonzero]

theorem new_of_perm (h : ds.Perm cs) : new ds = new cs := by
  have hnonzero : (nonzero ds).Perm (nonzero cs) := h.filter _
  have hdenoms := denoms_sortByDenom hnonzero
  have hcheck : validate ⟨sortByDenom (nonzero ds)⟩ = validate ⟨sortByDenom (nonzero cs)⟩ := by
    rw [validate, validate, checkEach_of_denoms isZero_of_mem_sort isZero_of_mem_sort hdenoms,
      checkOrder_of_denoms hdenoms]
  rw [new_eq, new_eq, hcheck]
  cases hv : validate ⟨sortByDenom (nonzero cs)⟩ with
  | error e => rfl
  | ok u =>
    -- Both lists are strictly ascending and have the same coins.
    have hds := (canonical_of_validate (hcheck.trans hv)).ordered
    have hcs := (canonical_of_validate hv).ordered
    have hperm := ((sortByDenom_perm _).trans hnonzero).trans (sortByDenom_perm _).symm
    have hlist : sortByDenom (nonzero ds) = sortByDenom (nonzero cs) :=
      hds.eq_of_mem_iff hcs fun c => hperm.mem_iff
    rw [hlist]

/-- A list of coins has a canonical form just when the denoms that are not of zero coins are valid and
differ, and all its reorderings have the same form or the same error. -/
theorem new_canonical (cs : List Coin) :
    ((∃ s, new cs = .ok s) ↔
      (∀ c ∈ cs, c.amount ≠ 0 → Denom.isValid c.denom = true) ∧
        ((nonzero cs).map Coin.denom).Nodup) ∧
    (∀ s, new cs = .ok s → FormOf cs s) ∧
    ∀ ds, ds.Perm cs → new ds = new cs := by
  refine ⟨?_, fun s => formOf_of_new, fun ds => new_of_perm⟩
  rw [← validate_sort_iff]
  constructor
  · rintro ⟨s, hs⟩
    obtain ⟨hlist, hvalid⟩ := new_eq_ok.1 hs
    rwa [← hlist]
  · intro hvalid
    exact ⟨_, new_eq_ok.2 ⟨rfl, hvalid⟩⟩

theorem unsorted_canonical :
    new [⟨"udnsc", 5⟩, ⟨"", 0⟩, ⟨"atom", 7⟩] = .ok ⟨[⟨"atom", 7⟩, ⟨"udnsc", 5⟩]⟩ ∧
      FormOf [⟨"udnsc", 5⟩, ⟨"", 0⟩, ⟨"atom", 7⟩] ⟨[⟨"atom", 7⟩, ⟨"udnsc", 5⟩]⟩ ∧
      new [⟨"atom", 7⟩, ⟨"udnsc", 5⟩, ⟨"", 0⟩] = .ok ⟨[⟨"atom", 7⟩, ⟨"udnsc", 5⟩]⟩ := by
  obtain ⟨-, hform, hperm⟩ := new_canonical [⟨"udnsc", 5⟩, ⟨"", 0⟩, ⟨"atom", 7⟩]
  have hnew : new [⟨"udnsc", 5⟩, ⟨"", 0⟩, ⟨"atom", 7⟩] = .ok ⟨[⟨"atom", 7⟩, ⟨"udnsc", 5⟩]⟩ := by
    decide +kernel
  refine ⟨hnew, hform _ hnew, (hperm _ ?_).trans hnew⟩
  decide

end Coins

end DaoGovernance
