import DaoGovernance.Outcome

/-!
Settling deposits: the deposit of an executed proposal goes back, any other is burned.  Settling
never fails; what the ledger refuses is noted.
-/

namespace DaoGovernance

inductive Settlement
  | refunded
  | burned
  | nothingHeld
  | failed (error : BankError)
  deriving DecidableEq

namespace Keeper

def refund (k : Keeper) (id : UInt64) (proposer : Address) (deposit : Coins) :
    Action Settlement := do
  match ← Action.tryMove fun l => l.toAccount k.moduleAccount proposer deposit with
  | .ok () =>
    Action.note (.depositRefunded id proposer deposit)
    return .refunded
  | .error e =>
    Action.note (.refundFailed id proposer deposit e)
    return .failed e

def burnDeposit (k : Keeper) (id : UInt64) (status : ProposalStatus) (deposit : Coins) :
    Action Settlement := do
  match ← Action.tryMove fun l => l.burn k.moduleAccount deposit with
  | .ok () =>
    Action.note (.depositBurned id status deposit)
    return .burned
  | .error e =>
    Action.note (.burnFailed id deposit e)
    return .failed e

def settle (k : Keeper) (p : Proposal) (o : Outcome) (deposit : Coins) : Action Settlement :=
  if deposit.isZero then return .nothingHeld
  else if o = .executed then k.refund p.id p.proposer deposit
  else k.burnDeposit p.id o.status deposit

end Keeper

end DaoGovernance
