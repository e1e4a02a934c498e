/-!
The characters with the Unicode property `White_Space`, and texts without them at either end.
-/

namespace DaoGovernance.Text

def isBlank (c : Char) : Bool :=
  let n := c.toNat
  (0x09 ≤ n && n ≤ 0x0D) || n = 0x20 || n = 0x85 || n = 0xA0 || n = 0x1680 ||
    (0x2000 ≤ n && n ≤ 0x200A) || n = 0x2028 || n = 0x2029 || n = 0x202F || n = 0x205F ||
    n = 0x3000

def strip (p : Char → Bool) (cs : List Char) : List Char :=
  ((cs.dropWhile p).reverse.dropWhile p).reverse

def trim (s : String) : String := .ofList (strip isBlank s.toList)

def isBlankText (s : String) : Bool := s.toList.all isBlank

def lower (s : String) : String := .ofList (s.toList.map Char.toLower)

def upper (s : String) : String := .ofList (s.toList.map Char.toUpper)

example : isBlank '\u3000' ∧ isBlank '\u0085' ∧ isBlank '\u200b' = false := by decide

end DaoGovernance.Text
