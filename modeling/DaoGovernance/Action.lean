import DaoGovernance.Chain

/-!
Actions change the chain and may fail.  What an action changed before it failed stays changed.
-/

namespace DaoGovernance

abbrev Action := EStateM GovernanceError Chain

namespace Action

variable {α : Type}

def check : Except GovernanceError α → Action α
  | .ok a => pure a
  | .error e => throw e

def attempt (a : Action α) : Action (Except GovernanceError α) := fun c =>
  match a c with
  | .ok a c => .ok (.ok a) c
  | .error e c => .ok (.error e) c

def note (n : Notice) : Action Unit := modify fun c => { c with log := c.log ++ [n] }

def noteAll (ns : List Notice) : Action Unit := modify fun c => { c with log := c.log ++ ns }

def emit (e : Event) : Action Unit := modify fun c => { c with block := c.block.emit e }

def height : Action Height := return (← get).block.height

def read (f : Store → Except GovernanceError α) : Action α := do check (f (← get).store)

def write (f : Store → Except GovernanceError Store) : Action Unit := do
  let c ← get
  set { c with store := ← check (f c.store) }

def takeId : Action UInt64 := do
  let c ← get
  let (id, store) ← check (Store.stored c.store.takeId)
  set { c with store }
  return id

def tryMove (f : Ledger → Except BankError Ledger) : Action (Except BankError Unit) := do
  let c ← get
  match f c.ledger with
  | .ok ledger =>
    set { c with ledger }
    return .ok ()
  | .error e => return .error e

def bank : Except BankError α → Action α
  | .ok a => pure a
  | .error e => throw (.bank e)

def registry : Except RegistryError α → Action α
  | .ok a => pure a
  | .error e => throw (.registry e)

def move (f : Ledger → Except BankError Ledger) : Action Unit := do bank (← tryMove f)

def supply (denom : String) : Action Amount := do bank ((← get).supply denom)

def balance (a : Address) (denom : String) : Action Amount := do bank ((← get).balance a denom)

def isPermitted (label : String) : Action Bool := do registry ((← get).isPermitted label)

def permit (label : String) : Action Unit := do
  modify fun c => { c with store := c.storeAtPermit }
  let c ← get
  set { c with registry := ← registry (c.registry.permit label) }

end Action

end DaoGovernance
