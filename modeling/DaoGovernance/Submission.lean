import DaoGovernance.Keeper

/-!
Submitting a proposal: its content is checked and brought to canonical form, no open proposal has
the same, and the proposer's deposit goes to the module account before the proposal is stored.
-/

namespace DaoGovernance

structure Submission where
  proposer : String
  title : String
  description : String
  content : Option Envelope
  /-- Has to be zero where no deposit is required, and is ignored where one is. -/
  initialDeposit : Coins

namespace Submission

def readContent (s : Submission) : Except GovernanceError Content :=
  match s.content with
  | none => .error (.content .missing)
  | some e =>
    match e.unpack with
    | .error u => .error (.content (.undecodable u))
    | .ok c =>
      match c.validate with
      | .error e => .error e
      | .ok () => .ok c.canonical

def toProposal (s : Submission) (proposer : Address) (content : Envelope) (period : UInt64)
    (snapshot : Amount) (id : UInt64) (now : Height) : Proposal where
  id := id
  proposer := proposer
  title := s.title
  description := s.description
  content := content
  status := .votingPeriod
  submitted := now
  votingStart := now
  votingEnd := now.advance period
  tally := .zero
  snapshot := snapshot

end Submission

def isOpenDuplicate (e : Envelope) : Store.ProposalRecord → Bool
  | (_, .ok p) => p.isOpen && p.content = e
  | (_, .error _) => false

def duplicateCheckNotice : Store.ProposalRecord → Option Notice
  | (_, .ok _) => none
  | (id, .error e) => some (.unreadableInDuplicateCheck id (.record e))

/-- Fails if an open proposal has the same content; unreadable proposals are passed over. -/
def refuseDuplicate (e : Envelope) : Action Unit := do
  let records ← Action.read Store.proposalRecords
  let passed := records.takeWhile fun r => !isOpenDuplicate e r
  Action.noteAll (passed.filterMap duplicateCheckNotice)
  match records.find? (isOpenDuplicate e) with
  | none => pure ()
  | some (id, _) =>
    Action.note (.duplicateProposal id)
    throw (.duplicate id)

def refusePermitted : Content → Action Unit
  | .addLabel l => do
    let label := Label.normalize l
    if ← Action.isPermitted label then throw (.content (.alreadyPermitted label))
  | .requestTokens .. => pure ()

namespace Keeper

def escrow (k : Keeper) (proposer : Address) (deposit initial : Coins) : Action Unit := do
  if deposit.isZero then
    if !initial.isZero then throw (.request .needlessDeposit)
  else
    Action.move fun l => l.toModule proposer k.moduleAccount deposit
    Action.note (.depositEscrowed proposer deposit)

def submit (k : Keeper) (s : Submission) : Action UInt64 := do
  let proposer ← Action.check (AddressRole.proposer.parse s.proposer)
  let content ← Action.check s.readContent
  refuseDuplicate content.pack
  refusePermitted content
  let params ← Action.read Store.params
  let snapshot ← Action.supply params.votingDenom
  k.escrow proposer (params.depositFor content) s.initialDeposit
  let id ← Action.takeId
  let p := s.toProposal proposer content.pack params.votingPeriod snapshot id (← Action.height)
  Action.write (Store.setProposal p)
  Action.emit (.proposalSubmitted id content.kind proposer)
  Action.note (.proposalSubmitted content.kind p)
  return id

end Keeper

end DaoGovernance
