import DaoGovernance.Event
import DaoGovernance.Notice
import DaoGovernance.Store.Records

/-!
The chain as governance sees it: its own store, the ledger and the registry it is wired to, the
block in progress and the log.
-/

namespace DaoGovernance

structure Faults where
  supply : Bool
  balance : Bool
  permitQuery : Bool
  /-- A permit first switches the writing of proposals off. -/
  permitStopsWrites : Bool

def Faults.none : Faults := ⟨false, false, false, false⟩

structure Chain where
  store : Store
  ledger : Ledger
  registry : Registry
  faults : Faults
  block : Block
  log : List Notice

namespace Chain

def fresh (s : Store) : Chain where
  store := s
  ledger := .empty
  registry := .empty
  faults := .none
  block := .genesis
  log := []

def supply (c : Chain) (denom : String) : Except BankError Amount :=
  if c.faults.supply then .error (.unknownModule "supply") else .ok (c.ledger.supply denom)

def balance (c : Chain) (a : Address) (denom : String) : Except BankError Amount :=
  if c.faults.balance then .error (.backend "balance")
  else .ok (c.ledger.balance (.account a) denom)

def isPermitted (c : Chain) (label : String) : Except RegistryError Bool :=
  if c.faults.permitQuery then .error (.backend "query") else .ok (c.registry.isPermitted label)

def storeAtPermit (c : Chain) : Store :=
  if c.faults.permitStopsWrites then c.store.switch fun s => { s with failProposalWrites := true }
  else c.store

end Chain

end DaoGovernance
