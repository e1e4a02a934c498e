import DaoGovernance.Action

/-!
Voting power.  As long as there is no lot at all, an account's power is its balance of the voting
denom; from the first lot on it is the sum of what is left of the account's own lots.
-/

namespace DaoGovernance

inductive PowerMode
  | balance
  | lots
  deriving DecidableEq

namespace PowerMode

def text : PowerMode → String
  | .balance => "Balance"
  | .lots => "Lots"

def ofStore (s : Store) : PowerMode := if s.hasAnyLot then .lots else .balance

end PowerMode

def lotPower (ls : List Lot) (now : Height) (decay : UInt64) : Except GovernanceError Amount :=
  match Lot.totalPower ls now decay with
  | .ok a => .ok a
  | .error o => .error (.arithmetic o)

def scanLots (voter : Address) : Action (List Lot) := do
  modify fun c => { c with store := c.store.countScan }
  Action.read (Store.lots voter)

def votingPower (voter : Address) (now : Height) : Action Amount := do
  let params ← Action.read Store.params
  let power ← match PowerMode.ofStore (← get).store with
    | .balance => Action.balance voter params.votingDenom
    | .lots => do
      let lots ← scanLots voter
      Action.check (lotPower lots now params.decay)
  Action.note (.powerComputed voter now power)
  return power

end DaoGovernance
