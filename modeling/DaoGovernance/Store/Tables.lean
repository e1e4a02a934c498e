import DaoGovernance.SortedMap
import DaoGovernance.Store.Error
import DaoGovernance.Store.Key

/-!
The store on disk: five tables of bytes by bytes, each in the order of its keys.  Once opened, the
tables stay open with the map size they were opened with; a keeper that comes to them later must ask
for the same size.  Every time, the version of their schema is checked.
-/

namespace DaoGovernance

abbrev Table := SortedMap Bytes Bytes

inductive TableName
  | proposals
  | votes
  | lots
  | params
  | info
  deriving DecidableEq

structure TableStore where
  proposals : Table
  votes : Table
  lots : Table
  params : Table
  info : Table
  /-- The map size that the tables are open with, none before they are opened. -/
  openSize : Option UInt64

namespace TableStore

def empty : TableStore := ⟨.empty, .empty, .empty, .empty, .empty, none⟩

def sequenceKey : Bytes := Text.toBytes "proposal_seq"

def paramsKey : Bytes := Text.toBytes "params"

def schemaKey : Bytes := Text.toBytes "schema_version"

def currentSchema : UInt32 := 1

def pageSize : UInt64 := 4096

/-- The longest key that a table takes; the empty key it does not take. -/
def maxKeyLength : Nat := 511

def badKeySize : TableError :=
  .engine "MDB_BAD_VALSIZE: Unsupported size of key/DB name/data, or wrong DUPFIXED size"

/-- Writes to a table past every format. -/
def putRaw (t : TableStore) (name : TableName) (k v : Bytes) : Except TableError TableStore :=
  if k.isEmpty || maxKeyLength < k.length then .error badKeySize
  else .ok <| match name with
    | .proposals => { t with proposals := t.proposals.insert k v }
    | .votes => { t with votes := t.votes.insert k v }
    | .lots => { t with lots := t.lots.insert k v }
    | .params => { t with params := t.params.insert k v }
    | .info => { t with info := t.info.insert k v }

def schema (t : TableStore) : Except TableError UInt32 :=
  match t.info.get? schemaKey with
  | none => .ok 0
  | some bs =>
    if bs.length = 4 then .ok (.ofNat (ofLittleEndian bs))
    else .error (.serialization "schema_version has unexpected byte length")

def badMapSize (size : UInt64) : TableError :=
  .engine ("map size (" ++ Text.decimal size.toNat ++
    ") must be a multiple of the system page size (" ++ Text.decimal pageSize.toNat ++ ")")

def otherOptions : TableError :=
  .engine "an environment is already opened with different options"

def attach (t : TableStore) (mapSize : UInt64) : Except TableError TableStore :=
  match t.openSize with
  | some size => if size = mapSize then .ok t else .error otherOptions
  | none =>
    if mapSize % pageSize ≠ 0 then .error (badMapSize mapSize)
    else .ok { t with openSize := some mapSize }

/-- Brings an older schema to the current one.  Also tells the version that was found if it was an
older one. -/
def upgrade (t : TableStore) : Except TableError (TableStore × Option UInt32) :=
  match t.schema with
  | .error e => .error e
  | .ok version =>
    if currentSchema < version then .error (.schemaVersion version currentSchema)
    else if version < currentSchema then
      let bs := littleEndian 4 currentSchema.toNat
      .ok ({ t with info := t.info.insert schemaKey bs }, some version)
    else .ok (t, none)

def keyed {α : Type} : Except KeyError α → Except StoreError α
  | .ok a => .ok a
  | .error e => .error (.serialization e.message)

def scan {α β : Type} (toKey : Bytes → Except KeyError α) (f : α → Bytes → β) :
    List (Bytes × Bytes) → Except StoreError (List β)
  | [] => .ok []
  | (k, v) :: es =>
    match keyed (toKey k) with
    | .error e => .error e
    | .ok a =>
      match scan toKey f es with
      | .error e => .error e
      | .ok bs => .ok (f a v :: bs)

def under (start : Bytes) (t : Table) : List (Bytes × Bytes) :=
  t.entries.filter fun e => start.isPrefixOf e.1

def nextId (t : TableStore) : Except StoreError UInt64 :=
  match t.info.get? sequenceKey with
  | some bs => keyed (Key.toId bs)
  | none => .ok 0

def setNextId (t : TableStore) (id : UInt64) : TableStore :=
  { t with info := t.info.insert sequenceKey (Key.ofId id) }

def takeId (t : TableStore) : Except StoreError (UInt64 × TableStore) :=
  match t.nextId with
  | .error e => .error e
  | .ok id =>
    if id = 0xFFFFFFFFFFFFFFFF then .error .idsExhausted else .ok (id, t.setNextId (id + 1))

def putProposal (t : TableStore) (id : UInt64) (data : Bytes) : TableStore :=
  { t with proposals := t.proposals.insert (Key.ofId id) data }

def getProposal (t : TableStore) (id : UInt64) : Option Bytes := t.proposals.get? (Key.ofId id)

def allProposals (t : TableStore) : Except StoreError (List (UInt64 × Bytes)) :=
  scan Key.toId (·, ·) t.proposals.entries

def putVote (t : TableStore) (id : UInt64) (voter : Address) (data : Bytes) : TableStore :=
  { t with votes := t.votes.insert (Key.ofVote id voter) data }

def getVote (t : TableStore) (id : UInt64) (voter : Address) : Option Bytes :=
  t.votes.get? (Key.ofVote id voter)

def allVotes (t : TableStore) : Except StoreError (List (UInt64 × Address × Bytes)) :=
  scan Key.toVote (fun (i, a) v => (i, a, v)) t.votes.entries

def votesOn (t : TableStore) (id : UInt64) : Except StoreError (List (Address × Bytes)) :=
  scan Key.toVote (fun (_, a) v => (a, v)) (under (Key.ofId id) t.votes)

def putLot (t : TableStore) (voter : Address) (id : UInt64) (data : Bytes) : TableStore :=
  { t with lots := t.lots.insert (Key.ofLot voter id) data }

def allLots (t : TableStore) : Except StoreError (List (Address × UInt64 × Bytes)) :=
  scan Key.toLot (fun (a, i) v => (a, i, v)) t.lots.entries

def lotsOf (t : TableStore) (voter : Address) : Except StoreError (List (UInt64 × Bytes)) :=
  scan Key.toLot (fun (_, i) v => (i, v)) (under (Key.ofVoter voter) t.lots)

def putParams (t : TableStore) (data : Bytes) : TableStore :=
  { t with params := t.params.insert paramsKey data }

def getParams (t : TableStore) : Option Bytes := t.params.get? paramsKey

end TableStore

end DaoGovernance
