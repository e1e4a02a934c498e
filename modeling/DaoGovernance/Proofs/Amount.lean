import DaoGovernance.Amount
import Mathlib

/-!
Words of 128 bits as numbers: what fits is kept as it is, and the long multiplication in halves loses
nothing.
-/

namespace DaoGovernance

namespace Amount

variable {a b c : Amount}

theorem size_eq : size = 2 ^ 128 := rfl

theorem toNat_lt (a : Amount) : a.toNat < size := a.isLt

theorem ofNat?_toNat (a : Amount) : ofNat? a.toNat = some a := by
  rw [ofNat?, if_pos a.toNat_lt, BitVec.ofNat_toNat, BitVec.setWidth_eq]

theorem toNat_ofNat {n : Nat} (h : n < size) : (BitVec.ofNat 128 n).toNat = n := by
  rw [BitVec.toNat_ofNat]
  exact Nat.mod_eq_of_lt h

theorem ofNat?_of_lt {n : Nat} (h : n < size) : ∃ a, ofNat? n = some a ∧ a.toNat = n :=
  ⟨.ofNat 128 n, if_pos h, toNat_ofNat h⟩

theorem ofNat?_eq_some_iff {n : Nat} : ofNat? n = some a ↔ n = a.toNat := by
  constructor
  · intro h
    unfold ofNat? at h
    split at h
    · rename_i hlt
      cases h
      exact (Nat.mod_eq_of_lt hlt).symm
    · cases h
  · rintro rfl
    exact ofNat?_toNat a

theorem checkedAdd_eq_some_iff : a.checkedAdd b = some c ↔ a.toNat + b.toNat = c.toNat :=
  ofNat?_eq_some_iff

theorem checkedAdd_eq_none_iff : a.checkedAdd b = none ↔ size ≤ a.toNat + b.toNat := by
  rw [checkedAdd, ofNat?, ← not_lt]
  split <;> simp_all

/-! ### Halves -/

abbrev radix : Nat := UInt64.size

theorem toNat_low (a : Amount) : (low a).toNat = a.toNat % radix := by
  rw [low, BitVec.toNat_and]
  exact Nat.and_two_pow_sub_one_eq_mod a.toNat 64

theorem toNat_high (a : Amount) : (high a).toNat = a.toNat / radix := by
  rw [high, BitVec.toNat_ushiftRight, Nat.shiftRight_eq_div_pow]

theorem low_lt (a : Amount) : (low a).toNat < radix := by
  rw [toNat_low]
  exact Nat.mod_lt _ (by decide)

theorem high_lt (a : Amount) : (high a).toNat < radix := by
  rw [toNat_high]
  exact Nat.div_lt_of_lt_mul a.isLt

theorem high_add_low (a : Amount) : (high a).toNat * radix + (low a).toNat = a.toNat := by
  rw [toNat_high, toNat_low, Nat.div_add_mod']

theorem toNat_mul_of_halves (ha : a.toNat < radix) (hb : b.toNat < radix) :
    (a * b).toNat = a.toNat * b.toNat := by
  apply BitVec.toNat_mul_of_lt
  calc a.toNat * b.toNat
    _ < radix * radix := Nat.mul_lt_mul'' ha hb
    _ = 2 ^ 128 := by decide

theorem toNat_join (hb : b.toNat < radix) (ha : a.toNat < radix) :
    (b ||| a <<< 64).toNat = a.toNat * radix + b.toNat := by
  have hs : (a <<< 64).toNat = a.toNat <<< 64 := by
    rw [BitVec.toNat_shiftLeft, Nat.mod_eq_of_lt]
    rw [Nat.shiftLeft_eq]
    exact Nat.mul_lt_mul_of_pos_right ha (by decide)
  rw [BitVec.toNat_or, hs, Nat.or_comm, ← Nat.shiftLeft_add_eq_or_of_lt hb, Nat.shiftLeft_eq]

/-! ### Products -/

theorem mul_of_halves (a a' b b' r : Nat) :
    (a * b + a' * b / r + a * b' / r + (a' * b' / r + a' * b % r + a * b' % r) / r) * (r * r) +
      ((a' * b' / r + a' * b % r + a * b' % r) % r * r + a' * b' % r) =
    (a * r + a') * (b * r + b') := by
  generalize hm : a' * b' / r + a' * b % r + a * b' % r = m
  calc _ = a * b * (r * r) + a' * b / r * r * r + a * b' / r * r * r + (m / r * r + m % r) * r +
        a' * b' % r := by ring
    _ = a * b * (r * r) + a' * b / r * r * r + a * b' / r * r * r +
        (a' * b' / r + a' * b % r + a * b' % r) * r + a' * b' % r := by rw [Nat.div_add_mod', hm]
    _ = a * b * (r * r) + (a' * b / r * r + a' * b % r) * r + (a * b' / r * r + a * b' % r) * r +
        (a' * b' / r * r + a' * b' % r) := by ring
    _ = a * b * (r * r) + a' * b * r + a * b' * r + a' * b' := by
      rw [Nat.div_add_mod', Nat.div_add_mod', Nat.div_add_mod']
    _ = (a * r + a') * (b * r + b') := by ring

def middle (a b : Amount) : Amount :=
  high (low a * low b) + low (low a * high b) + low (high a * low b)

theorem toNat_add_three {x y z : Amount} (h : x.toNat + y.toNat + z.toNat < size) :
    (x + y + z).toNat = x.toNat + y.toNat + z.toNat := by
  rw [size_eq] at h
  have hxy : (x + y).toNat = x.toNat + y.toNat := BitVec.toNat_add_of_lt (by omega)
  rw [BitVec.toNat_add_of_lt] <;> omega

theorem toNat_add_four {w x y z : Amount} (h : w.toNat + x.toNat + y.toNat + z.toNat < size) :
    (w + x + y + z).toNat = w.toNat + x.toNat + y.toNat + z.toNat := by
  have hwxy := toNat_add_three ((Nat.le_add_right _ z.toNat).trans_lt h)
  rw [size_eq] at h
  rw [BitVec.toNat_add_of_lt] <;> omega

theorem middle_parts_lt (a b : Amount) :
    (high (low a * low b)).toNat + (low (low a * high b)).toNat +
      (low (high a * low b)).toNat < size := by
  have hll := high_lt (low a * low b)
  have hlh := low_lt (low a * high b)
  have hhl := low_lt (high a * low b)
  calc (high (low a * low b)).toNat + (low (low a * high b)).toNat + (low (high a * low b)).toNat
    _ ≤ radix + radix + radix := by omega
    _ < size := by decide

theorem toNat_middle (a b : Amount) :
    (middle a b).toNat = (low a).toNat * (low b).toNat / radix +
      (low a).toNat * (high b).toNat % radix + (high a).toNat * (low b).toNat % radix := by
  rw [middle, toNat_add_three (middle_parts_lt a b), toNat_high, toNat_low, toNat_low,
    toNat_mul_of_halves (low_lt a) (low_lt b), toNat_mul_of_halves (low_lt a) (high_lt b),
    toNat_mul_of_halves (high_lt a) (low_lt b)]

theorem toNat_wideProduct_low (a b : Amount) :
    (wideProduct a b).2.toNat =
      (middle a b).toNat % radix * radix + (low a).toNat * (low b).toNat % radix := by
  rw [← toNat_low, ← toNat_mul_of_halves (low_lt a) (low_lt b), ← toNat_low]
  exact toNat_join (low_lt _) (low_lt _)

theorem toNat_high_parts (a b : Amount) :
    (high a * high b).toNat + (high (low a * high b)).toNat + (high (high a * low b)).toNat +
        (high (middle a b)).toNat =
      (high a).toNat * (high b).toNat + (low a).toNat * (high b).toNat / radix +
        (high a).toNat * (low b).toNat / radix + (middle a b).toNat / radix := by
  rw [toNat_mul_of_halves (high_lt a) (high_lt b), toNat_high (low a * high b),
    toNat_mul_of_halves (low_lt a) (high_lt b), toNat_high (high a * low b),
    toNat_mul_of_halves (high_lt a) (low_lt b), toNat_high (middle a b)]

theorem high_parts_exact (a b : Amount) :
    ((high a * high b).toNat + (high (low a * high b)).toNat + (high (high a * low b)).toNat +
        (high (middle a b)).toNat) * size + (wideProduct a b).2.toNat = a.toNat * b.toNat := by
  have hexact := mul_of_halves (high a).toNat (low a).toNat (high b).toNat (low b).toNat radix
  rwa [← toNat_middle, ← toNat_wideProduct_low, ← toNat_high_parts, high_add_low,
    high_add_low] at hexact

/-- The product is below the square of the size, so the sum of the parts does not wrap around. -/
theorem high_parts_lt (a b : Amount) :
    (high a * high b).toNat + (high (low a * high b)).toNat + (high (high a * low b)).toNat +
        (high (middle a b)).toNat < size := by
  apply Nat.lt_of_mul_lt_mul_right (a := size)
  apply (Nat.le_add_right _ (wideProduct a b).2.toNat).trans_lt
  calc _ = a.toNat * b.toNat := high_parts_exact a b
    _ < size * size := Nat.mul_lt_mul'' a.toNat_lt b.toNat_lt

theorem wideProduct_exact (a b : Amount) :
    (wideProduct a b).1.toNat * size + (wideProduct a b).2.toNat = a.toNat * b.toNat := by
  have hhigh : (wideProduct a b).1.toNat = (high a * high b).toNat +
      (high (low a * high b)).toNat + (high (high a * low b)).toNat +
        (high (middle a b)).toNat := toNat_add_four (high_parts_lt a b)
  rw [hhigh]
  exact high_parts_exact a b

theorem wideLe_iff (x y : Amount × Amount) :
    wideLe x y = true ↔
      x.1.toNat * size + x.2.toNat ≤ y.1.toNat * size + y.2.toNat := by
  have hx := x.2.toNat_lt
  have hy := y.2.toNat_lt
  simp only [wideLe, Bool.or_eq_true, Bool.and_eq_true, decide_eq_true_eq, BitVec.lt_def,
    BitVec.le_def, ← BitVec.toNat_inj]
  rw [size_eq] at *
  omega

end Amount

end DaoGovernance
