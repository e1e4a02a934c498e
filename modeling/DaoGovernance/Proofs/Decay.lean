import DaoGovernance.Power
import DaoGovernance.Proofs.Amount
import Mathlib

/-!
The power of lots, against the same in numbers without a bound.  What is left of a lot is its share
rounded down, nothing leaves the range of amounts on the way, and the power of several lots is the
sum of what is left of each, or does not fit.
-/

namespace DaoGovernance

theorem Amount.toNat_ofUInt64 (n : UInt64) : (ofUInt64 n).toNat = n.toNat := by
  rw [ofUInt64, BitVec.toNat_setWidth, UInt64.toNat_toBitVec]
  exact Nat.mod_eq_of_lt (n.toNat_lt.trans (by decide))

theorem Height.toNat_since (h earlier : Height) :
    (h.since earlier).toNat = h.number.toNat - earlier.number.toNat := by
  rw [since]
  split
  · rename_i hle
    exact UInt64.toNat_sub_of_le _ _ hle
  · rename_i hle
    rw [UInt64.le_iff_toNat_le, not_le] at hle
    rw [Nat.sub_eq_zero_of_le hle.le]
    rfl

namespace Lot

variable {l : Lot} {ls ms : List Lot} {now later : Height} {decay duration remaining : UInt64}
  {a b : Amount}

/-! ### Shares -/

theorem div_mul_add_mod_mul_div (n r : Nat) {d : Nat} (hd : 0 < d) :
    n / d * r + n % d * r / d = n * r / d := by
  calc n / d * r + n % d * r / d
    _ = (n % d * r + d * (n / d * r)) / d := by rw [Nat.add_mul_div_left _ _ hd, Nat.add_comm]
    _ = (d * (n / d) + n % d) * r / d := by congr 1; ring
    _ = n * r / d := by rw [Nat.div_add_mod]

theorem mul_div_le_of_le (n : Nat) {r d : Nat} (hr : r ≤ d) : n * r / d ≤ n :=
  Nat.div_le_of_le_mul (by rw [Nat.mul_comm d]; exact Nat.mul_le_mul_left n hr)

/-- No product and no sum on the way to a share is out of range. -/
structure ShareFits (a : Amount) (remaining duration : UInt64) : Prop where
  whole : (a / .ofUInt64 duration).toNat * (Amount.ofUInt64 remaining).toNat < Amount.size
  part : (a % .ofUInt64 duration).toNat * (Amount.ofUInt64 remaining).toNat < Amount.size
  sum : (a / .ofUInt64 duration * .ofUInt64 remaining).toNat +
    (a % .ofUInt64 duration * .ofUInt64 remaining / .ofUInt64 duration).toNat < Amount.size

theorem whole_lt (a : Amount) (hr : remaining ≤ duration) :
    (a / .ofUInt64 duration).toNat * (Amount.ofUInt64 remaining).toNat < Amount.size := by
  rw [BitVec.toNat_udiv, Amount.toNat_ofUInt64, Amount.toNat_ofUInt64]
  calc a.toNat / duration.toNat * remaining.toNat
    _ ≤ a.toNat / duration.toNat * duration.toNat := Nat.mul_le_mul_left _ hr
    _ ≤ a.toNat := Nat.div_mul_le_self _ _
    _ < Amount.size := a.toNat_lt

theorem part_lt (a : Amount) (hd : 0 < duration.toNat) :
    (a % .ofUInt64 duration).toNat * (Amount.ofUInt64 remaining).toNat < Amount.size := by
  rw [BitVec.toNat_umod, Amount.toNat_ofUInt64, Amount.toNat_ofUInt64]
  exact Nat.mul_lt_mul'' ((Nat.mod_lt _ hd).trans duration.toNat_lt) remaining.toNat_lt

theorem share_sum (a : Amount) (hd : 0 < duration.toNat) (hr : remaining ≤ duration) :
    (a / .ofUInt64 duration * .ofUInt64 remaining).toNat +
      (a % .ofUInt64 duration * .ofUInt64 remaining / .ofUInt64 duration).toNat =
    a.toNat * remaining.toNat / duration.toNat := by
  rw [BitVec.toNat_udiv, BitVec.toNat_mul_of_lt (whole_lt a hr), BitVec.toNat_mul_of_lt (part_lt a hd),
    BitVec.toNat_udiv, BitVec.toNat_umod, Amount.toNat_ofUInt64, Amount.toNat_ofUInt64,
    div_mul_add_mod_mul_div _ _ hd]

theorem shareFits (a : Amount) (hd : 0 < duration.toNat) (hr : remaining ≤ duration) :
    ShareFits a remaining duration where
  whole := whole_lt a hr
  part := part_lt a hd
  sum := by
    rw [share_sum a hd hr]
    exact (mul_div_le_of_le _ hr).trans_lt a.toNat_lt

theorem toNat_share (a : Amount) (hd : 0 < duration.toNat) (hr : remaining ≤ duration) :
    (share a remaining duration).toNat = a.toNat * remaining.toNat / duration.toNat := by
  rw [← share_sum a hd hr]
  exact BitVec.toNat_add_of_lt (shareFits a hd hr).sum

/-! ### One lot -/

def left (l : Lot) (now : Height) (decay : UInt64) : Nat :=
  if decay = 0 then l.initial.toNat
  else l.initial.toNat *
    (decay.toNat - min decay.toNat (now.number.toNat - l.granted.number.toNat)) / decay.toNat

theorem toNat_powerAt (l : Lot) (now : Height) (decay : UInt64) :
    (l.powerAt now decay).toNat = l.left now decay := by
  unfold powerAt left
  split
  · rfl
  · rename_i hd
    have hd : 0 < decay.toNat := Nat.pos_of_ne_zero fun h => hd (UInt64.toNat_inj.1 h)
    rw [← Height.toNat_since]
    dsimp only
    split
    · rename_i hle
      rw [min_eq_left (UInt64.le_iff_toNat_le.1 hle), Nat.sub_self, Nat.mul_zero, Nat.zero_div]
      rfl
    · rename_i hlt
      have hle := UInt64.le_of_lt (UInt64.not_le.1 hlt)
      have hsub := UInt64.toNat_sub_of_le _ _ hle
      rw [toNat_share _ hd, hsub, min_eq_right (UInt64.le_iff_toNat_le.1 hle)]
      rw [UInt64.le_iff_toNat_le, hsub]
      exact Nat.sub_le _ _

theorem left_anti (l : Lot) (decay : UInt64) (h : now.number ≤ later.number) :
    l.left later decay ≤ l.left now decay := by
  unfold left
  split
  · exact Nat.le_refl _
  · have := UInt64.le_iff_toNat_le.1 h
    apply Nat.div_le_div_right
    apply Nat.mul_le_mul_left
    omega

/-! ### Several lots -/

def leftOf (ls : List Lot) (now : Height) (decay : UInt64) : Nat :=
  (ls.map (·.left now decay)).sum

theorem leftOf_perm (h : ls.Perm ms) : leftOf ls now decay = leftOf ms now decay :=
  (h.map _).sum_eq

theorem leftOf_anti (ls : List Lot) (decay : UInt64) (h : now.number ≤ later.number) :
    leftOf ls later decay ≤ leftOf ls now decay := by
  induction ls with
  | nil => exact Nat.le_refl _
  | cons l ls ih => exact Nat.add_le_add (l.left_anti decay h) ih

theorem powerFrom_eq (ls : List Lot) (now : Height) (decay : UInt64) (a : Amount) :
    powerFrom a now decay ls =
      if a.toNat + leftOf ls now decay < Amount.size then
        .ok (.ofNat 128 (a.toNat + leftOf ls now decay))
      else .error .votingPower := by
  induction ls generalizing a with
  | nil =>
    rw [leftOf, List.map_nil, List.sum_nil, Nat.add_zero, if_pos a.toNat_lt, BitVec.ofNat_toNat,
      BitVec.setWidth_eq, powerFrom]
  | cons l ls ih =>
    have hcons : leftOf (l :: ls) now decay = l.left now decay + leftOf ls now decay := rfl
    rw [powerFrom, hcons, ← Nat.add_assoc, ← toNat_powerAt]
    cases hs : a.checkedAdd (l.powerAt now decay) with
    | some c =>
      rw [Amount.checkedAdd_eq_some_iff.1 hs]
      exact ih c
    | none =>
      have hle := Amount.checkedAdd_eq_none_iff.1 hs
      rw [if_neg (by omega)]

end Lot

theorem lotPower_eq (ls : List Lot) (now : Height) (decay : UInt64) :
    lotPower ls now decay =
      if Lot.leftOf ls now decay < Amount.size then .ok (.ofNat 128 (Lot.leftOf ls now decay))
      else .error (.arithmetic .votingPower) := by
  have hsum := Lot.powerFrom_eq ls now decay 0
  rw [show (0 : Amount).toNat = 0 from rfl, Nat.zero_add] at hsum
  rw [lotPower, Lot.totalPower, hsum]
  by_cases h : Lot.leftOf ls now decay < Amount.size
  · simp only [if_pos h]
  · simp only [if_neg h]

theorem lotPower_anti {ls : List Lot} {now later : Height} {decay : UInt64} {a : Amount}
    (h : now.number ≤ later.number) (ha : lotPower ls now decay = .ok a) :
    ∃ b, lotPower ls later decay = .ok b ∧ b ≤ a := by
  have hle := Lot.leftOf_anti ls decay h
  rw [lotPower_eq] at ha ⊢
  split at ha
  · rename_i hlt
    cases ha
    refine ⟨_, if_pos (hle.trans_lt hlt), ?_⟩
    rw [BitVec.le_def, Amount.toNat_ofNat hlt, Amount.toNat_ofNat (hle.trans_lt hlt)]
    exact hle
  · cases ha

/-- The power of lots under one decay is exact at every height, in every order of the lots, and falls
from height to height. -/
structure Lot.Decays (ls : List Lot) (decay : UInt64) : Prop where
  fits : ∀ l ∈ ls, ∀ now : Height, decay ≠ 0 → now.since l.granted < decay →
    ShareFits l.initial (decay - now.since l.granted) decay
  exact : ∀ l ∈ ls, ∀ now, (l.powerAt now decay).toNat = l.left now decay
  total : ∀ now, lotPower ls now decay =
    if leftOf ls now decay < Amount.size then .ok (.ofNat 128 (leftOf ls now decay))
    else .error (.arithmetic .votingPower)
  order : ∀ now ms, ls.Perm ms → lotPower ms now decay = lotPower ls now decay
  falls : ∀ (now later : Height) a, now.number ≤ later.number → lotPower ls now decay = .ok a →
    ∃ b, lotPower ls later decay = .ok b ∧ b ≤ a

theorem lots_decay (ls : List Lot) (decay : UInt64) : Lot.Decays ls decay where
  fits l _ now hd hlt := by
    have hle := UInt64.le_of_lt hlt
    refine Lot.shareFits _ (Nat.pos_of_ne_zero fun h => hd (UInt64.toNat_inj.1 h)) ?_
    rw [UInt64.le_iff_toNat_le, UInt64.toNat_sub_of_le _ _ hle]
    exact Nat.sub_le _ _
  exact l _ now := l.toNat_powerAt now decay
  total now := lotPower_eq ls now decay
  order now ms h := by rw [lotPower_eq, lotPower_eq, Lot.leftOf_perm h]
  falls now later a h ha := lotPower_anti h ha

theorem largest_lot_decays :
    let l : Lot := ⟨⟨"dns1pppppppp", by decide⟩, 0, .allOnes 128, ⟨5⟩⟩
    lotPower [l] ⟨5⟩ 3 = .ok (.allOnes 128) ∧
      ∃ b, lotPower [l] ⟨6⟩ 3 = .ok b ∧ b ≤ .allOnes 128 ∧ lotPower [l, l] ⟨6⟩ 3 =
        .error (.arithmetic .votingPower) := by
  intro l
  have hfirst : lotPower [l] ⟨5⟩ 3 = .ok (.allOnes 128) := by
    rw [(lots_decay [l] 3).total]
    decide +kernel
  obtain ⟨b, hb, hle⟩ := (lots_decay [l] 3).falls ⟨5⟩ ⟨6⟩ _ (by decide) hfirst
  refine ⟨hfirst, b, hb, hle, ?_⟩
  rw [(lots_decay [l, l] 3).total, if_neg (by decide +kernel)]

end DaoGovernance
