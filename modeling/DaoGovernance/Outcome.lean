import DaoGovernance.Keeper

/-!
Carrying out what a proposal asks for once it has passed.
-/

namespace DaoGovernance

inductive Outcome
  | rejected
  | failed
  | executed
  deriving DecidableEq

def Outcome.status : Outcome → ProposalStatus
  | .rejected => .rejected
  | .failed => .failed
  | .executed => .executed

def permitLabel (id : UInt64) (label : String) : Action Unit := do
  let label := Label.normalize label
  Action.note (.permittingLabel id label)
  Action.permit label

/-- Grants voting power.  The payout has happened, so a lot that can not be stored is only
noted. -/
def grantLot (l : Lot) : Action Unit := do
  match ← Action.attempt (Action.write (Store.setLot l)) with
  | .ok () => Action.note (.lotGranted l)
  | .error e => Action.note (.lotNotStored l e)

namespace Keeper

def payOut (k : Keeper) (id : UInt64) (recipient : Address) (amount : Coins) : Action Unit := do
  match ← Action.tryMove fun l => l.toAccount k.moduleAccount recipient amount with
  | .ok () => pure ()
  | .error payout =>
    match ← Action.tryMove fun l => l.burn k.moduleAccount amount with
    | .ok () => pure ()
    | .error burn => Action.note (.mintedCoinsStuck id amount payout burn)
    throw (.bank payout)

def grantTokens (k : Keeper) (params : Params) (id : UInt64) (recipient : String)
    (amount : Coins) : Action Unit := do
  let recipient ← Action.check (AddressRole.recipient.parse recipient)
  Action.note (.grantingTokens id recipient amount)
  Action.move fun l => l.mint k.moduleAccount amount
  k.payOut id recipient amount
  let granted := amount.amountOf params.votingDenom
  if granted ≠ 0 then grantLot ⟨recipient, id, granted, ← Action.height⟩

def execute (k : Keeper) (params : Params) (id : UInt64) : Content → Action Unit
  | .addLabel l => permitLabel id l
  | .requestTokens r a _ => k.grantTokens params id r a

end Keeper

end DaoGovernance
