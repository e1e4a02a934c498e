import DaoGovernance.InvalidValue
import DaoGovernance.KeyOrder

/-!
Account addresses: the letters `dns1` and eight or more characters of the address alphabet, ninety
characters at most.  Only the shape of the text is checked.
-/

namespace DaoGovernance

namespace Address

def humanPart : List Char := ['d', 'n', 's', '1']

def alphabet : List Char := "qpzry9x8gf2tvdw0s3jn54khce6mua7l".toList

def minDataLength : Nat := 8

def maxLength : Nat := 90

def isValidText (cs : List Char) : Bool :=
  humanPart.isPrefixOf cs && cs.length ≤ maxLength &&
    minDataLength ≤ (cs.drop humanPart.length).length &&
    (cs.drop humanPart.length).all alphabet.contains

def isValid (s : String) : Bool := isValidText s.toList

end Address

structure Address where
  text : String
  valid : Address.isValid text = true
  deriving DecidableEq

namespace Address

def parse (s : String) : Except InvalidValue Address :=
  if h : isValid s = true then .ok ⟨s, h⟩ else .error (.address s)

theorem text_inj {a b : Address} (h : a.text = b.text) : a = b := by
  cases a
  cases b
  simp_all

instance : KeyOrder Address := KeyOrder.pullback text text_inj

@[simp] theorem parse_text (a : Address) : parse a.text = .ok a := by
  simp [parse, a.valid]

theorem text_of_parse {s : String} {a : Address} (h : parse s = .ok a) : a.text = s := by
  unfold parse at h
  split at h
  · cases h
    rfl
  · cases h

end Address

end DaoGovernance
