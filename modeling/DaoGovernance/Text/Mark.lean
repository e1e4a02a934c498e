/-!
Characters that quoted texts and nested values are marked with.
-/

namespace DaoGovernance.Text

def quote : Char := '\x22'

def apostrophe : Char := '\x27'

def backslash : Char := '\x5c'

def openBrace : Char := '\x7b'

def closeBrace : Char := '\x7d'

def openBracket : Char := '['

def closeBracket : Char := ']'

def newline : Char := '\n'

def tab : Char := '\t'

def carriageReturn : Char := '\r'

def backspace : Char := '\x08'

def formFeed : Char := '\x0c'

def hexValue? (c : Char) : Option Nat :=
  if c.isDigit then some (c.toNat - 48)
  else if 'a' ≤ c ∧ c ≤ 'f' then some (c.toNat - 87)
  else if 'A' ≤ c ∧ c ≤ 'F' then some (c.toNat - 55)
  else none

def hexNumber? : List Char → Option Nat :=
  List.foldlM (fun n c => (hexValue? c).map (16 * n + ·)) 0

def hexDigit (n : Nat) : Char :=
  if n % 16 < 10 then .ofNat (n % 16 + 48) else .ofNat (n % 16 + 87)

def hexFour (n : Nat) : List Char :=
  [hexDigit (n / 4096), hexDigit (n / 256), hexDigit (n / 16), hexDigit n]

example : hexFour 0x1f = "001f".toList ∧ hexNumber? "00fF".toList = some 255 := by decide

end DaoGovernance.Text
