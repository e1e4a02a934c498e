import DaoGovernance.Store.Memory
import DaoGovernance.Store.Tables

/-!
A store of governance records: proposals by id, votes by proposal and voter, lots by voter and
proposal, one record of params and the next proposal id.  A failing write leaves the store as
it was.
-/

namespace DaoGovernance

inductive Store
  | memory (s : MemoryStore)
  | tables (t : TableStore)

namespace Store

def emptyMemory : Store := .memory .empty

def emptyTables : Store := .tables .empty

def takeId : Store → Except StoreError (UInt64 × Store)
  | .memory s => (fun (i, s) => (i, .memory s)) <$> s.takeId
  | .tables t => (fun (i, t) => (i, .tables t)) <$> t.takeId

def nextId : Store → Except StoreError UInt64
  | .memory s => .ok s.nextId
  | .tables t => t.nextId

def setNextId (id : UInt64) : Store → Store
  | .memory s => .memory { s with nextId := id }
  | .tables t => .tables (t.setNextId id)

def putProposal (id : UInt64) (data : Bytes) : Store → Except StoreError Store
  | .memory s => .memory <$> s.putProposal id data
  | .tables t => .ok (.tables (t.putProposal id data))

def getProposal (id : UInt64) : Store → Option Bytes
  | .memory s => s.proposals.get? id
  | .tables t => t.getProposal id

def allProposals : Store → Except StoreError (List (UInt64 × Bytes))
  | .memory s => .ok s.proposals.entries
  | .tables t => t.allProposals

def putVote (id : UInt64) (voter : Address) (data : Bytes) : Store → Store
  | .memory s => .memory (s.putVote id voter data)
  | .tables t => .tables (t.putVote id voter data)

def getVote (id : UInt64) (voter : Address) : Store → Option Bytes
  | .memory s => s.votes.get? (id, voter)
  | .tables t => t.getVote id voter

def votesOn (id : UInt64) : Store → Except StoreError (List (Address × Bytes))
  | .memory s => s.votesOn id
  | .tables t => t.votesOn id

def allVotes : Store → Except StoreError (List (UInt64 × Address × Bytes))
  | .memory s => .ok s.allVotes
  | .tables t => t.allVotes

def putLot (voter : Address) (id : UInt64) (data : Bytes) : Store → Except StoreError Store
  | .memory s => .memory <$> s.putLot voter id data
  | .tables t => .ok (.tables (t.putLot voter id data))

def lotsOf (voter : Address) : Store → Except StoreError (List (UInt64 × Bytes))
  | .memory s => .ok (s.lotsOf voter)
  | .tables t => t.lotsOf voter

def countScan : Store → Store
  | .memory s => .memory { s with lotScans := s.lotScans + 1 }
  | .tables t => .tables t

def hasAnyLot : Store → Bool
  | .memory s => !s.lots.isEmpty
  | .tables t => !t.lots.isEmpty

/-- All lots: in memory by the text of the voter, in tables by its length first. -/
def allLots : Store → Except StoreError (List (Address × UInt64 × Bytes))
  | .memory s => .ok s.allLots
  | .tables t => t.allLots

def putParams (data : Bytes) : Store → Store
  | .memory s => .memory { s with params := some data }
  | .tables t => .tables (t.putParams data)

def getParams : Store → Option Bytes
  | .memory s => s.params
  | .tables t => t.getParams

/-- A switch of the store in memory; the tables have none. -/
def switch (f : MemoryStore → MemoryStore) : Store → Store
  | .memory s => .memory (f s)
  | .tables t => .tables t

end Store

end DaoGovernance
