import DaoGovernance.Codec

/-!
Lots of voting power: granted at a height and decaying linearly to zero from there.
-/

namespace DaoGovernance

inductive Overflow
  | votingPower
  | tally
  deriving DecidableEq

def Overflow.message : Overflow → String
  | .votingPower => "voting power overflow"
  | .tally => "tally overflow"

structure Lot where
  voter : Address
  proposal : UInt64
  initial : Amount
  granted : Height
  deriving DecidableEq

namespace Lot

/-- The part of `a` that is left when `remaining` of `duration` blocks are, rounded down.  Quotient
and rest are scaled apart so that no product exceeds an amount. -/
def share (a : Amount) (remaining duration : UInt64) : Amount :=
  let d := Amount.ofUInt64 duration
  let r := Amount.ofUInt64 remaining
  a / d * r + a % d * r / d

def powerAt (l : Lot) (now : Height) (decay : UInt64) : Amount :=
  if decay = 0 then l.initial
  else
    let elapsed := now.since l.granted
    if decay ≤ elapsed then 0 else share l.initial (decay - elapsed) decay

def powerFrom (acc : Amount) (now : Height) (decay : UInt64) : List Lot → Except Overflow Amount
  | [] => .ok acc
  | l :: ls =>
    match acc.checkedAdd (l.powerAt now decay) with
    | some acc => powerFrom acc now decay ls
    | none => .error .votingPower

def totalPower (ls : List Lot) (now : Height) (decay : UInt64) : Except Overflow Amount :=
  powerFrom 0 now decay ls

def codec : Codec Lot :=
  (Codec.address.pair (Codec.uint64.pair (Codec.amount.pair .height))).iso
    (fun (v, i, a, h) => ⟨v, i, a, h⟩) fun l => (l.voter, l.proposal, l.initial, l.granted)

def encode (l : Lot) : Bytes := codec.encode l

def decode (bs : Bytes) : Except DecodeError Lot := codec.read bs

end Lot

end DaoGovernance
