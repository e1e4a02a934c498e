import DaoGovernance.Config.Basic
import DaoGovernance.Genesis.Json

/-!
Wiring a keeper to its store.  In memory a keeper needs a valid authority only.  On tables the
configuration is checked, the tables are opened, and a store without params is loaded with the
configured state or the default one.
-/

namespace DaoGovernance

inductive GenesisFile
  | none
  | missing
  | text (s : String)

def GenesisFile.read : GenesisFile → Except GovernanceError Genesis
  | .none => .ok .default
  | .missing => .error (.config .missingFile)
  | .text s => Genesis.ofJson s

namespace Host

def schemaNotices : Option UInt32 → List Notice
  | .some found => [.schemaInitialised found TableStore.currentSchema]
  | .none => []

def onTables {α : Type} : Except TableError α → Action α
  | .ok a => pure a
  | .error e => throw (.store e.toStoreError)

def setTables (t : TableStore) : Action Unit := modify fun c => { c with store := .tables t }

/-- Opens the tables.  They stay open even if their schema is refused. -/
def openTables (mapSize : UInt64) : Action Unit := do
  match (← get).store with
  | .memory _ => pure ()
  | .tables t => do
    let t ← onTables (t.attach mapSize)
    setTables t
    let (t, found) ← onTables t.upgrade
    setTables t
    Action.noteAll (schemaNotices found)
    Action.note (.tablesOpened mapSize)

def loadFresh (file : GenesisFile) : Action Unit := do
  if (← get).store.getParams.isNone then
    let genesis ← Action.check file.read
    genesis.load

def wire (authority moduleAccount : String) : Except GovernanceError Keeper :=
  match Keeper.build authority moduleAccount with
  | .ok k => .ok k
  | .error f => .error (.config f)

def openKeeper (c : Config) (file : GenesisFile) : Action Keeper := do
  Action.check c.validate
  openTables c.mapSize
  let k ← Action.check (wire c.authority c.moduleAccount)
  loadFresh file
  Action.note (.keeperReady k.moduleAccount)
  return k

end Host

end DaoGovernance
