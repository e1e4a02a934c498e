import DaoGovernance.Settlement
import DaoGovernance.Verdict

/-!
The end of a block: every open proposal whose voting has ended is judged, carried out and settled,
in ascending order of ids.  The verdict is stored before anything moves; if that fails the pass
ends and a later one takes the proposal up again.  After that nothing stops the pass.
-/

namespace DaoGovernance

structure Finalized where
  id : UInt64
  outcome : Outcome
  settlement : Settlement
  deriving DecidableEq

def Verdict.notice (id : UInt64) : Verdict → Notice
  | .uncountable e => .tallyFailed id e
  | .undecodable e => .undecodableContent id (.unpack e)
  | .rejected r => .proposalRejected id r
  | .passed _ => .proposalPassed id

def passNotice : Store.ProposalRecord → Option Notice
  | (_, .ok _) => none
  | (id, .error e) => some (.unreadableProposal id (.record e))

def dueAt (h : Height) : Store.ProposalRecord → Option Proposal
  | (_, .ok p) => if p.isOpen && p.isClosedAt h then some p else none
  | (_, .error _) => none

def storeVerdict (p : Proposal) : Action Unit := do
  match ← Action.attempt (Action.write (Store.setProposal p)) with
  | .ok () => pure ()
  | .error e =>
    Action.note (.decisionNotStored p.id e)
    throw e

def storeOutcome (p : Proposal) : Action Unit := do
  match ← Action.attempt (Action.write (Store.setProposal p)) with
  | .ok () => pure ()
  | .error e => Action.note (.outcomeNotStored p.id p.status e)

namespace Keeper

def tryExecute (k : Keeper) (params : Params) (id : UInt64) (c : Content) : Action Outcome := do
  match ← Action.attempt (k.execute params id c) with
  | .ok () =>
    Action.note (.proposalExecuted id)
    return .executed
  | .error e =>
    Action.note (.executionFailed id e)
    return .failed

def carryOut (k : Keeper) (params : Params) (p : Proposal) : Verdict → Action Outcome
  | .uncountable _ | .undecodable _ => return .failed
  | .rejected _ => return .rejected
  | .passed c => do
    let o ← k.tryExecute params p.id c
    storeOutcome { p with status := o.status }
    return o

def finalize (k : Keeper) (params : Params) (p : Proposal) : Action Finalized := do
  Action.note (.finalizing p.id p.votingEnd (← Action.height))
  let (tally, verdict) := params.judge p ((← get).store.votes p.id)
  Action.note (verdict.notice p.id)
  let judged := { p with tally, status := verdict.status }
  storeVerdict judged
  let o ← k.carryOut params judged verdict
  let settlement ← k.settle p o (params.heldFor p)
  Action.emit (.proposalFinished p.id o.status)
  Action.note (.proposalFinished { judged with status := o.status })
  return ⟨p.id, o, settlement⟩

def finalizeAll (k : Keeper) (params : Params) : List Proposal → Action (List Finalized)
  | [] => return []
  | p :: ps => do
    let f ← k.finalize params p
    return f :: (← k.finalizeAll params ps)

def endBlock (k : Keeper) : Action (List Finalized) := do
  let params ← Action.read Store.params
  let records ← Action.read Store.proposalRecords
  Action.noteAll (records.filterMap passNotice)
  let h ← Action.height
  k.finalizeAll params (records.filterMap (dueAt h))

end Keeper

end DaoGovernance
