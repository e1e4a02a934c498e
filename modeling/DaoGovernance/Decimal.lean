import DaoGovernance.Amount
import DaoGovernance.InvalidValue

/-!
Fractions with eighteen decimal places, kept as whole numbers of the last place.  A ratio of
amounts meets a fraction when it is at least as large; products are compared at full width, so
nothing is rounded.
-/

namespace DaoGovernance

structure Decimal where
  raw : Amount
  deriving DecidableEq, Inhabited

namespace Decimal

def places : Nat := 18

def unit : Amount := 1000000000000000000

def zero : Decimal := ⟨0⟩

def one : Decimal := ⟨unit⟩

def percent (n : UInt64) : Decimal := ⟨Amount.ofUInt64 n * 10000000000000000⟩

def isZero (d : Decimal) : Bool := d.raw = 0

/-- Whether `num / den` is at least `d`.  Over zero only the fraction zero is met. -/
def isMetBy (d : Decimal) (num den : Amount) : Bool :=
  if den = 0 then d.isZero
  else Amount.wideLe (Amount.wideProduct d.raw den) (Amount.wideProduct num unit)

def chars (d : Decimal) : List Char :=
  Text.digits (d.raw.toNat / unit.toNat) ++ '.' :: Text.padded places (d.raw.toNat % unit.toNat)

def text (d : Decimal) : String := .ofList d.chars

def ofParts (whole frac : List Char) : Option Decimal := do
  let w ← Amount.ofNat? (Text.value whole)
  let f ← Amount.ofNat? (Text.value (frac ++ List.replicate (places - frac.length) '0'))
  let scaled ← w.checkedMul unit
  let raw ← scaled.checkedAdd f
  return ⟨raw⟩

def parse (s : String) : Except InvalidValue Decimal :=
  let cs := s.toList
  let whole := cs.takeWhile (· ≠ '.')
  let frac := (cs.dropWhile (· ≠ '.')).drop 1
  if whole.isEmpty && frac.isEmpty then .error (.decimal s)
  else if !whole.all Char.isDigit || !frac.all Char.isDigit || places < frac.length then
    .error (.decimal s)
  else match ofParts whole frac with
    | some d => .ok d
    | none => .error (.decimal s)

end Decimal

end DaoGovernance
