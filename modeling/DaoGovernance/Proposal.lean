import DaoGovernance.Content
import DaoGovernance.Params
import DaoGovernance.Tally

/-!
Proposals and the stations of their life.
-/

namespace DaoGovernance

inductive ProposalStatus
  | unspecified
  | votingPeriod
  | passed
  | rejected
  | failed
  | executed
  deriving DecidableEq, Inhabited

namespace ProposalStatus

def all : List ProposalStatus :=
  [unspecified, votingPeriod, passed, rejected, failed, executed]

def shortName : ProposalStatus → String
  | .unspecified => "UNSPECIFIED"
  | .votingPeriod => "VOTING_PERIOD"
  | .passed => "PASSED"
  | .rejected => "REJECTED"
  | .failed => "FAILED"
  | .executed => "EXECUTED"

def text (s : ProposalStatus) : String := "PROPOSAL_STATUS_" ++ s.shortName

def ofShortName? (s : String) : Option ProposalStatus := all.find? fun t => t.shortName = s

def isTerminal : ProposalStatus → Bool
  | .rejected | .failed | .executed => true
  | _ => false

def codec : Codec ProposalStatus := .choice all

end ProposalStatus

structure Proposal where
  id : UInt64
  proposer : Address
  title : String
  description : String
  content : Envelope
  status : ProposalStatus
  submitted : Height
  votingStart : Height
  /-- The last block in which votes are taken. -/
  votingEnd : Height
  tally : Tally
  /-- Supply of the voting denom at submission. -/
  snapshot : Amount
  deriving DecidableEq

namespace Proposal

def isOpen (p : Proposal) : Bool := p.status = .votingPeriod

def isClosedAt (p : Proposal) (h : Height) : Bool := h.isAfter p.votingEnd

def tallyCodec : Codec Tally :=
  (Codec.amount.pair (Codec.amount.pair .amount)).iso (fun (y, n, a) => ⟨y, n, a⟩)
    fun t => (t.yes, t.no, t.abstain)

def codec : Codec Proposal :=
  (Codec.uint64.pair (Codec.address.pair (Codec.text.pair (Codec.text.pair (Envelope.codec.pair
    (ProposalStatus.codec.pair (Codec.height.pair (Codec.height.pair (Codec.height.pair
      (tallyCodec.pair .amount)))))))))).iso
    (fun (i, p, t, d, c, s, h, b, e, y, n) => ⟨i, p, t, d, c, s, h, b, e, y, n⟩)
    fun p => (p.id, p.proposer, p.title, p.description, p.content, p.status, p.submitted,
      p.votingStart, p.votingEnd, p.tally, p.snapshot)

def encode (p : Proposal) : Bytes := codec.encode p

def decode (bs : Bytes) : Except DecodeError Proposal := codec.read bs

end Proposal

def Params.depositFor (p : Params) (c : Content) : Coins :=
  if c.isAddLabel then p.labelDeposit else p.submissionDeposit

end DaoGovernance
