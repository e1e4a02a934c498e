import DaoGovernance.GovernanceError
import DaoGovernance.Store.Basic

/-!
Records of governance in a store: typed reads and writes over the bytes.
-/

namespace DaoGovernance.Store

def stored {α : Type} : Except StoreError α → Except GovernanceError α
  | .ok a => .ok a
  | .error e => .error (.store e)

def decodeAll {α : Type} (decode : Bytes → Except DecodeError α) :
    List Bytes → Except GovernanceError (List α)
  | [] => .ok []
  | bs :: bss =>
    match decode bs with
    | .error e => .error (.record e)
    | .ok a =>
      match decodeAll decode bss with
      | .error e => .error e
      | .ok as => .ok (a :: as)

def decodeSome {α : Type} (decode : Bytes → Except DecodeError α) :
    Option Bytes → Except GovernanceError (Option α)
  | none => .ok none
  | some bs =>
    match decode bs with
    | .ok a => .ok (some a)
    | .error e => .error (.record e)

def params? (s : Store) : Except GovernanceError (Option Params) :=
  decodeSome Params.decode s.getParams

def params (s : Store) : Except GovernanceError Params :=
  match s.params? with
  | .ok (some p) => .ok p
  | .ok none => .error (.params .uninitialised)
  | .error e => .error e

def paramsOrDefault (s : Store) : Except GovernanceError Params :=
  match s.params? with
  | .ok p => .ok (p.getD .default)
  | .error e => .error e

def setParams (p : Params) (s : Store) : Except GovernanceError Store :=
  match p.validate with
  | .error e => .error (.ofInvalidValue e)
  | .ok () => .ok (s.putParams p.encode)

def proposal? (id : UInt64) (s : Store) : Except GovernanceError (Option Proposal) :=
  decodeSome Proposal.decode (s.getProposal id)

def proposal (id : UInt64) (s : Store) : Except GovernanceError Proposal :=
  match s.proposal? id with
  | .ok (some p) => .ok p
  | .ok none => .error (.proposalNotFound id)
  | .error e => .error e

abbrev ProposalRecord := UInt64 × Except DecodeError Proposal

def proposalRecord (e : UInt64 × Bytes) : ProposalRecord := (e.1, Proposal.decode e.2)

/-- All proposals in ascending order of their ids, unreadable ones in their place. -/
def proposalRecords (s : Store) : Except GovernanceError (List ProposalRecord) :=
  match s.allProposals with
  | .ok es => .ok (es.map proposalRecord)
  | .error e => .error (.store e)

def proposals (s : Store) : Except GovernanceError (List Proposal) :=
  match s.allProposals with
  | .ok es => decodeAll Proposal.decode (es.map (·.2))
  | .error e => .error (.store e)

def setProposal (p : Proposal) (s : Store) : Except GovernanceError Store :=
  stored (s.putProposal p.id p.encode)

def vote? (id : UInt64) (voter : Address) (s : Store) : Except GovernanceError (Option Vote) :=
  decodeSome Vote.decode (s.getVote id voter)

def votes (id : UInt64) (s : Store) : Except GovernanceError (List Vote) :=
  match s.votesOn id with
  | .ok es => decodeAll Vote.decode (es.map (·.2))
  | .error e => .error (.store e)

def everyVote (s : Store) : Except GovernanceError (List Vote) :=
  match s.allVotes with
  | .ok es => decodeAll Vote.decode (es.map (·.2.2))
  | .error e => .error (.store e)

def setVote (v : Vote) (s : Store) : Store := s.putVote v.proposal v.voter v.encode

def lots (voter : Address) (s : Store) : Except GovernanceError (List Lot) :=
  match s.lotsOf voter with
  | .ok es => decodeAll Lot.decode (es.map (·.2))
  | .error e => .error (.store e)

def everyLot (s : Store) : Except GovernanceError (List Lot) :=
  match s.allLots with
  | .ok es => decodeAll Lot.decode (es.map (·.2.2))
  | .error e => .error (.store e)

def setLot (l : Lot) (s : Store) : Except GovernanceError Store :=
  stored (s.putLot l.voter l.proposal l.encode)

end DaoGovernance.Store
