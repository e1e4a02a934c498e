import DaoGovernance.Decimal
import DaoGovernance.Proofs.Amount
import DaoGovernance.Proofs.Text.Digits
import Mathlib

/-!
Reading the text of a fraction gives the fraction back.
-/

namespace DaoGovernance

namespace Decimal

theorem toNat_unit : unit.toNat = 10 ^ places := by decide

def whole (d : Decimal) : List Char := Text.digits (d.raw.toNat / unit.toNat)

def fraction (d : Decimal) : List Char := Text.padded places (d.raw.toNat % unit.toNat)

theorem length_fraction (d : Decimal) : d.fraction.length = places := by
  apply Text.length_padded
  · decide
  · rw [toNat_unit]
    exact Nat.mod_lt _ (by simp)

theorem ofParts_eq_bind (whole frac : List Char) :
    ofParts whole frac = (Amount.ofNat? (Text.value whole)).bind fun w =>
      (Amount.ofNat? (Text.value (frac ++ List.replicate (places - frac.length) '0'))).bind fun f =>
        (w.checkedMul unit).bind fun s => (s.checkedAdd f).bind fun r => some ⟨r⟩ := rfl

def scaled (ws fs : List Char) : Nat :=
  Text.value ws * 10 ^ places + Text.value (fs ++ List.replicate (places - fs.length) '0')

/-- No word on the way is larger than the last one, so only that has to fit. -/
theorem ofParts_eq_some_iff {ws fs : List Char} {d : Decimal} :
    ofParts ws fs = some d ↔ scaled ws fs = d.raw.toNat := by
  simp only [ofParts_eq_bind, Option.bind_eq_some_iff, Amount.checkedMul, Amount.checkedAdd,
    Amount.ofNat?_eq_some_iff, Option.some.injEq, toNat_unit]
  constructor
  · rintro ⟨w, hw, f, hf, s, hs, r, hr, rfl⟩
    rw [scaled, hw, hf, hs, hr]
  · intro h
    have hlt : scaled ws fs < Amount.size := h ▸ d.raw.toNat_lt
    obtain ⟨s, -, hs⟩ := Amount.ofNat?_of_lt ((Nat.le_add_right _ _).trans_lt hlt)
    obtain ⟨f, -, hf⟩ := Amount.ofNat?_of_lt ((Nat.le_add_left _ _).trans_lt hlt)
    obtain ⟨w, -, hw⟩ := Amount.ofNat?_of_lt
      ((Nat.le_mul_of_pos_right (Text.value ws) (by decide)).trans_lt (hs ▸ s.toNat_lt))
    exact ⟨w, hw.symm, f, hf.symm, s, by rw [hw, hs], d.raw, by rw [hs, hf, ← h, scaled], rfl⟩

theorem ofParts_chars (d : Decimal) : ofParts d.whole d.fraction = some d := by
  rw [ofParts_eq_some_iff, scaled, length_fraction, Nat.sub_self, List.replicate_zero,
    List.append_nil, whole, fraction, Text.value_digits, Text.value_padded, toNat_unit,
    Nat.div_add_mod']

theorem parse_text (d : Decimal) : parse d.text = .ok d := by
  have hw : ∀ c ∈ d.whole, c.isDigit = true := fun _ => Text.isDigit_of_mem_digits
  have hp : ∀ c ∈ d.fraction, c.isDigit = true := fun _ => Text.isDigit_of_mem_padded
  have hne : ∀ c ∈ d.whole, (decide (c ≠ '.')) = true := by
    intro c hc
    rw [decide_eq_true_iff]
    rintro rfl
    exact absurd (hw _ hc) (by decide)
  have hs : d.text.toList = d.whole ++ '.' :: d.fraction := by
    rw [text, String.toList_ofList, chars, whole, fraction]
  have h₁ : d.text.toList.takeWhile (· ≠ '.') = d.whole := by
    rw [hs, List.takeWhile_append_of_pos hne]
    simp
  have h₂ : (d.text.toList.dropWhile (· ≠ '.')).drop 1 = d.fraction := by
    rw [hs, List.dropWhile_append_of_pos hne]
    simp
  have h₃ : d.whole.isEmpty = false := by simp [whole, Text.digits_ne_nil]
  have h₄ : d.whole.all Char.isDigit = true := List.all_eq_true.2 hw
  have h₅ : d.fraction.all Char.isDigit = true := List.all_eq_true.2 hp
  simp only [parse, h₁, h₂, h₃, h₄, h₅, length_fraction, ofParts_chars]
  rfl

end Decimal

end DaoGovernance
