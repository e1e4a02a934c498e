import DaoGovernance.Address
import DaoGovernance.SortedMap
import DaoGovernance.Store.Error
import DaoGovernance.Text.Utf8

/-!
The store in memory: records in maps by their keys, with switches that make some of its
operations fail and a count of the lot scans it served.
-/

namespace DaoGovernance

structure MemoryStore where
  proposals : SortedMap UInt64 Bytes
  votes : SortedMap (UInt64 × Address) Bytes
  lots : SortedMap (Address × UInt64) Bytes
  params : Option Bytes
  nextId : UInt64
  failingScans : List UInt64
  failLotWrites : Bool
  failProposalWrites : Bool
  lotScans : Nat

namespace MemoryStore

def empty : MemoryStore where
  proposals := .empty
  votes := .empty
  lots := .empty
  params := none
  nextId := 0
  failingScans := []
  failLotWrites := false
  failProposalWrites := false
  lotScans := 0

def takeId (s : MemoryStore) : Except StoreError (UInt64 × MemoryStore) :=
  if s.nextId = 0xFFFFFFFFFFFFFFFF then .error .idsExhausted
  else .ok (s.nextId, { s with nextId := s.nextId + 1 })

def overwriteProposal (s : MemoryStore) (id : UInt64) (data : Bytes) : MemoryStore :=
  { s with proposals := s.proposals.insert id data }

def putProposal (s : MemoryStore) (id : UInt64) (data : Bytes) : Except StoreError MemoryStore :=
  if s.failProposalWrites then .error (.backend "injected proposal write failure")
  else .ok (s.overwriteProposal id data)

def putVote (s : MemoryStore) (id : UInt64) (voter : Address) (data : Bytes) : MemoryStore :=
  { s with votes := s.votes.insert (id, voter) data }

def allVotes (s : MemoryStore) : List (UInt64 × Address × Bytes) :=
  s.votes.entries.map fun e => (e.1.1, e.1.2, e.2)

def votesOn (s : MemoryStore) (id : UInt64) : Except StoreError (List (Address × Bytes)) :=
  if s.failingScans.contains id then
    .error (.backend ("injected vote scan failure for proposal " ++ Text.decimal id.toNat))
  else .ok ((s.votes.entries.filter fun e => e.1.1 = id).map fun e => (e.1.2, e.2))

def putLot (s : MemoryStore) (voter : Address) (id : UInt64) (data : Bytes) :
    Except StoreError MemoryStore :=
  if s.failLotWrites then .error (.backend "injected lot write failure")
  else .ok { s with lots := s.lots.insert (voter, id) data }

def allLots (s : MemoryStore) : List (Address × UInt64 × Bytes) :=
  s.lots.entries.map fun e => (e.1.1, e.1.2, e.2)

def lotsOf (s : MemoryStore) (voter : Address) : List (UInt64 × Bytes) :=
  (s.lots.entries.filter fun e => e.1.1 = voter).map fun e => (e.1.2, e.2)

end MemoryStore

end DaoGovernance
