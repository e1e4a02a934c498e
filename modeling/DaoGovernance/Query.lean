import DaoGovernance.Store.Records

/-!
Questions about the records of a store, some of them answered a page at a time.
-/

namespace DaoGovernance

/-- A stretch of a list.  The limit zero stands for the default limit. -/
structure PageRequest where
  offset : UInt64
  limit : UInt64
  deriving Inhabited

namespace PageRequest

def first : PageRequest := ⟨0, 0⟩

def defaultLimit : UInt64 := 100

def length (r : PageRequest) : Nat := (if r.limit = 0 then defaultLimit else r.limit).toNat

end PageRequest

structure Page (α : Type) where
  items : List α
  total : Nat

def Page.ofList {α : Type} (as : List α) (r : PageRequest) : Page α :=
  ⟨(as.drop r.offset.toNat).take r.length, as.length⟩

/-- The empty proposer and the unspecified status stand for any. -/
structure ProposalFilter where
  proposer : String
  status : ProposalStatus

namespace ProposalFilter

def all : ProposalFilter := ⟨"", .unspecified⟩

def accepts (f : ProposalFilter) (p : Proposal) : Bool :=
  (f.proposer.isEmpty || f.proposer = p.proposer.text) &&
    (f.status = .unspecified || f.status = p.status)

end ProposalFilter

namespace Store

def proposalPage (f : ProposalFilter) (r : PageRequest) (s : Store) :
    Except GovernanceError (Page Proposal) :=
  match s.proposals with
  | .ok ps => .ok (.ofList (ps.filter f.accepts) r)
  | .error e => .error e

def votePage (id : UInt64) (r : PageRequest) (s : Store) : Except GovernanceError (Page Vote) :=
  match s.votes id with
  | .ok vs => .ok (.ofList vs r)
  | .error e => .error e

def voteOf (id : UInt64) (voter : String) (s : Store) : Except GovernanceError Vote :=
  if voter.isEmpty then .error (.request .emptyVoter)
  else match AddressRole.voter.parse voter with
    | .error e => .error e
    | .ok a =>
      match s.vote? id a with
      | .ok (some v) => .ok v
      | .ok none => .error (.voteNotFound id a)
      | .error e => .error e

def tally (id : UInt64) (s : Store) : Except GovernanceError Tally :=
  match s.proposal id with
  | .ok p => .ok p.tally
  | .error e => .error e

end Store

end DaoGovernance
