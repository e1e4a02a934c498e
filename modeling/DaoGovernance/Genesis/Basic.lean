import DaoGovernance.Action

/-!
The whole state of governance as one value: taken from a store, and loaded into one.
-/

namespace DaoGovernance

structure Genesis where
  params : Params
  proposals : List Proposal
  votes : List Vote
  lots : List Lot
  nextId : UInt64
  deriving DecidableEq

namespace Genesis

def default : Genesis := ⟨.default, [], [], [], 0⟩

def checkIds (next : UInt64) : List Proposal → Except GovernanceError Unit
  | [] => .ok ()
  | p :: ps =>
    if next ≤ p.id then .error (.request (.idNotBelowNext p.id next)) else checkIds next ps

def checkVotes (ps : List Proposal) : List Vote → Except GovernanceError Unit
  | [] => .ok ()
  | v :: vs =>
    if ps.any (·.id = v.proposal) then checkVotes ps vs
    else .error (.request (.unknownProposal v.voter v.proposal))

def validate (g : Genesis) : Except GovernanceError Unit :=
  match checkIds g.nextId g.proposals with
  | .ok () => checkVotes g.proposals g.votes
  | .error e => .error e

def usableParams (g : Genesis) : Action Params :=
  match g.params.validate with
  | .ok () => pure g.params
  | .error e => do
    Action.note (.invalidGenesisParams e)
    return .default

def writeProposals : List Proposal → Action Unit
  | [] => pure ()
  | p :: ps => do
    Action.write (Store.setProposal p)
    writeProposals ps

def writeVotes : List Vote → Action Unit
  | [] => pure ()
  | v :: vs => do
    Action.write fun s => .ok (s.setVote v)
    writeVotes vs

def writeLots : List Lot → Action Unit
  | [] => pure ()
  | l :: ls => do
    Action.write (Store.setLot l)
    writeLots ls

def load (g : Genesis) : Action Unit := do
  Action.check g.validate
  let params ← g.usableParams
  Action.write (Store.setParams params)
  writeProposals g.proposals
  writeVotes g.votes
  writeLots g.lots
  Action.write fun s => .ok (s.setNextId g.nextId)
  Action.note (.genesisLoaded g.proposals.length g.votes.length g.lots.length g.nextId)

end Genesis

def Store.toGenesis (s : Store) : Except GovernanceError Genesis := do
  let params ← s.paramsOrDefault
  let proposals ← s.proposals
  let votes ← s.everyVote
  let lots ← s.everyLot
  let nextId ← Store.stored s.nextId
  return ⟨params, proposals, votes, lots, nextId⟩

end DaoGovernance
