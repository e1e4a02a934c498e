import DaoGovernance.Action

/-!
The keeper of governance: the account that may change params, and the name of the module account
that holds deposits and grants.
-/

namespace DaoGovernance

structure Keeper where
  authority : Address
  moduleAccount : String
  deriving DecidableEq

namespace Keeper

def defaultAccount : String := "dao"

def build (authority moduleAccount : String) : Except ConfigFault Keeper :=
  match Address.parse authority with
  | .ok a => .ok ⟨a, moduleAccount⟩
  | .error _ => .error (.authority authority)

def updateParams (k : Keeper) (authority : String) (p : Params) : Action Unit := do
  if authority ≠ k.authority.text then throw (.unauthorized k.authority authority)
  Action.write (Store.setParams p)
  Action.note (.paramsUpdated p)

end Keeper

end DaoGovernance
