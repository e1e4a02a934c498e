import DaoGovernance.Proofs.Decision
import Mathlib

/-!
The wide product when every sum and every product on the way is checked.  None of them is refused,
so two wide products are in the order of the numbers they stand for.
-/

namespace DaoGovernance

namespace Amount

variable {a b w x y z : Amount}

theorem checkedAdd_of_lt (h : a.toNat + b.toNat < size) : a.checkedAdd b = some (a + b) :=
  checkedAdd_eq_some_iff.2 (BitVec.toNat_add_of_lt h).symm

theorem checkedMul_of_halves (ha : a.toNat < radix) (hb : b.toNat < radix) :
    a.checkedMul b = some (a * b) :=
  ofNat?_eq_some_iff.2 (toNat_mul_of_halves ha hb).symm

/-- The long multiplication in halves that stops at a sum or a product that is no amount. -/
def checkedProduct (a b : Amount) : Option (Amount × Amount) := do
  let ll ← (low a).checkedMul (low b)
  let lh ← (low a).checkedMul (high b)
  let hl ← (high a).checkedMul (low b)
  let hh ← (high a).checkedMul (high b)
  let carry ← (high ll).checkedAdd (low lh)
  let mid ← carry.checkedAdd (low hl)
  let upper ← hh.checkedAdd (high lh)
  let upper ← upper.checkedAdd (high hl)
  let upper ← upper.checkedAdd (high mid)
  return (upper, low ll ||| (low mid <<< 64))

theorem checkedAdd_three (h : x.toNat + y.toNat + z.toNat < size) :
    x.checkedAdd y = some (x + y) ∧ (x + y).checkedAdd z = some (x + y + z) := by
  have hlt : x.toNat + y.toNat < size := (Nat.le_add_right _ z.toNat).trans_lt h
  refine ⟨checkedAdd_of_lt hlt, checkedAdd_of_lt ?_⟩
  rwa [BitVec.toNat_add_of_lt hlt]

theorem checkedAdd_four (h : w.toNat + x.toNat + y.toNat + z.toNat < size) :
    w.checkedAdd x = some (w + x) ∧ (w + x).checkedAdd y = some (w + x + y) ∧
      (w + x + y).checkedAdd z = some (w + x + y + z) := by
  have hlt := (Nat.le_add_right _ z.toNat).trans_lt h
  obtain ⟨hwx, hwxy⟩ := checkedAdd_three hlt
  refine ⟨hwx, hwxy, checkedAdd_of_lt ?_⟩
  rwa [toNat_add_three hlt]

theorem checkedProduct_eq (a b : Amount) : checkedProduct a b = some (wideProduct a b) := by
  obtain ⟨hcarry, hmid⟩ := checkedAdd_three (middle_parts_lt a b)
  obtain ⟨hfirst, hsecond, hthird⟩ := checkedAdd_four (high_parts_lt a b)
  unfold middle at hthird
  simp only [checkedProduct, checkedMul_of_halves (low_lt a) (low_lt b),
    checkedMul_of_halves (low_lt a) (high_lt b), checkedMul_of_halves (high_lt a) (low_lt b),
    checkedMul_of_halves (high_lt a) (high_lt b), Option.bind_eq_bind, Option.bind_some, hcarry,
    hmid, hfirst, hsecond, hthird]
  rfl

/-- A wide product is taken without a sum or a product out of range, it is the whole product, and
comparing two of them word by word compares the products.  So a ratio is compared with a fraction
exactly. -/
theorem wideProduct_whole (a b : Amount) :
    checkedProduct a b = some (wideProduct a b) ∧
    (wideProduct a b).1.toNat * 2 ^ 128 + (wideProduct a b).2.toNat = a.toNat * b.toNat ∧
    (wideProduct a b).2.toNat < 2 ^ 128 ∧
    (∀ c d, wideLe (wideProduct a b) (wideProduct c d) = true ↔
      a.toNat * b.toNat ≤ c.toNat * d.toNat) ∧
    ∀ (q : Decimal) (num den : Amount), 0 < den →
      (q.isMetBy num den = true ↔ q.raw.toNat * den.toNat ≤ num.toNat * 10 ^ 18) := by
  refine ⟨checkedProduct_eq a b, wideProduct_exact a b, toNat_lt _, fun c d => ?_,
    fun q num den hden => ?_⟩
  · rw [wideLe_iff, wideProduct_exact, wideProduct_exact]
  · have hpos : 0 < den.toNat := BitVec.lt_def.1 hden
    rw [q.isMetBy_iff, Decimal.AtMost]
    exact ⟨fun h => (h.resolve_left fun hz => hpos.ne' hz.1).2, fun h => .inr ⟨hpos, h⟩⟩

theorem largest_wideProduct :
    let m : Amount := BitVec.allOnes 128
    checkedProduct m m = some (m - 1, 1) ∧ 0 < m ∧ Decimal.one.isMetBy (m - 1) m = false := by
  intro m
  have hm : 0 < m := by decide
  obtain ⟨hchecked, -, -, -, hmet⟩ := wideProduct_whole m m
  refine ⟨hchecked.trans (by decide +kernel), hm, ?_⟩
  rw [← Bool.not_eq_true, hmet .one (m - 1) m hm]
  decide +kernel

end Amount

end DaoGovernance
