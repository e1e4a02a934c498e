import DaoGovernance.Text.Digits

/-!
Block heights.  Every rule about time counts blocks; sums stop at the last height there is.
-/

namespace DaoGovernance

structure Height where
  number : UInt64
  deriving DecidableEq, Inhabited

namespace Height

def genesis : Height := ⟨0⟩

def last : Height := ⟨0xFFFFFFFFFFFFFFFF⟩

def since (h earlier : Height) : UInt64 :=
  if earlier.number ≤ h.number then h.number - earlier.number else 0

def advance (h : Height) (blocks : UInt64) : Height :=
  if h.number.toNat + blocks.toNat < UInt64.size then ⟨h.number + blocks⟩ else last

def next (h : Height) : Height := h.advance 1

def isAfter (h k : Height) : Bool := k.number < h.number

def text (h : Height) : String := "#" ++ Text.decimal h.number.toNat

end Height

end DaoGovernance
