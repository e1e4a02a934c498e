/-!
Natural numbers in decimal notation: writing without leading zeros, and the value that a run of
digits denotes.
-/

namespace DaoGovernance.Text

def digits (n : Nat) : List Char := Nat.toDigits 10 n

def decimal (n : Nat) : String := .ofList (digits n)

def value (cs : List Char) : Nat := Nat.ofDigitChars 10 cs 0

def padded (width n : Nat) : List Char :=
  let ds := digits n
  List.replicate (width - ds.length) '0' ++ ds

example : decimal 0 = "0" ∧ decimal 1203 = "1203" := by decide
example : value "0012".toList = 12 := by decide
example : padded 4 12 = "0012".toList := by decide

end DaoGovernance.Text
