import DaoGovernance.Text.Digits

/-!
Amounts of tokens in base units: words of 128 bits.  Plain sums and products wrap around, checked
ones refuse what does not fit, and `wideProduct` keeps all 256 bits of a product.
-/

namespace DaoGovernance

abbrev Amount := BitVec 128

namespace Amount

def size : Nat := UInt64.size * UInt64.size

def ofNat? (n : Nat) : Option Amount :=
  if n < size then some (BitVec.ofNat 128 n) else none

def ofUInt64 (n : UInt64) : Amount := n.toBitVec.setWidth 128

def checkedAdd (a b : Amount) : Option Amount := ofNat? (a.toNat + b.toNat)

def checkedMul (a b : Amount) : Option Amount := ofNat? (a.toNat * b.toNat)

def saturatingSub (a b : Amount) : Amount := if b ≤ a then a - b else 0

def text (a : Amount) : String := Text.decimal a.toNat

def low (a : Amount) : Amount := a &&& 0xFFFFFFFFFFFFFFFF

def high (a : Amount) : Amount := a >>> 64

/-- The product as its upper and its lower 128 bits, by long multiplication in halves. -/
def wideProduct (a b : Amount) : Amount × Amount :=
  let ll := low a * low b
  let lh := low a * high b
  let hl := high a * low b
  let hh := high a * high b
  let mid := high ll + low lh + low hl
  (hh + high lh + high hl + high mid, low ll ||| (low mid <<< 64))

def wideLe (x y : Amount × Amount) : Bool := x.1 < y.1 || (x.1 = y.1 && x.2 ≤ y.2)

inductive ReadError
  | empty
  | tooLarge
  deriving DecidableEq

def ReadError.message : ReadError → String
  | .empty => "cannot parse integer from empty string"
  | .tooLarge => "number too large to fit in target type"

def ofDigits (cs : List Char) : Except ReadError Amount :=
  if cs.isEmpty then .error .empty
  else match ofNat? (Text.value cs) with
    | some a => .ok a
    | none => .error .tooLarge

end Amount

end DaoGovernance
