import DaoGovernance.GovernanceError

/-!
The verdict on a proposal whose voting has ended, from its record, the votes on it and the params
alone.
-/

namespace DaoGovernance

inductive Verdict
  | uncountable (error : GovernanceError)
  | undecodable (error : UnpackError)
  | rejected (reason : RejectReason)
  | passed (content : Content)
  deriving DecidableEq

namespace Verdict

def status : Verdict → ProposalStatus
  | .uncountable _ | .undecodable _ => .failed
  | .rejected _ => .rejected
  | .passed _ => .passed

def ofDecision (content : Except UnpackError Content) : Except Overflow Decision → Verdict
  | .error o => .uncountable (.arithmetic o)
  | .ok d =>
    match content, d with
    | .error e, _ => .undecodable e
    | .ok _, .rejected r => .rejected r
    | .ok c, .passed => .passed c

end Verdict

/-- The deposit that is settled, the general one if the content does not decode. -/
def Params.heldFor (params : Params) (p : Proposal) : Coins :=
  match p.content.unpack with
  | .ok c => params.depositFor c
  | .error _ => params.submissionDeposit

/-- The sums to be written on the proposal, and the verdict.  If the votes can not be summed, the
sums stay as they were. -/
def Params.judge (params : Params) (p : Proposal) :
    Except GovernanceError (List Vote) → Tally × Verdict
  | .error e => (p.tally, .uncountable e)
  | .ok vs =>
    match Tally.ofVotes vs with
    | .error o => (p.tally, .uncountable (.arithmetic o))
    | .ok t => (t, .ofDecision p.content.unpack (t.decision p.snapshot params.quorum
        params.threshold))

end DaoGovernance
