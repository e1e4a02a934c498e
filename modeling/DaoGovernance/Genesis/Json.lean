import DaoGovernance.Genesis.Basic
import DaoGovernance.Json.Pretty
import DaoGovernance.Json.Reader
import DaoGovernance.Json.Shape

/-!
The state of governance as JSON text.
-/

namespace DaoGovernance

open Json (Shape Fields)

namespace Json.Shape

def address : Shape Address := text.refine (fun s => (Address.parse s).toOption) Address.text

def decimal : Shape Decimal := text.refine (fun s => (Decimal.parse s).toOption) Decimal.text

def height : Shape Height := uint64.iso Height.mk Height.number

def bytes : Shape Bytes := list uint8

def coin : Shape Coin :=
  ((Fields.required "denom" text).pair (.required "amount" amount)).iso
    (fun (d, a) => ⟨d, a⟩) (fun c => (c.denom, c.amount)) |>.shape

def coins : Shape Coins := (list coin).iso Coins.mk Coins.list

end Json.Shape

def VoteOption.jsonName : VoteOption → String
  | .unspecified => "Unspecified"
  | .yes => "Yes"
  | .no => "No"
  | .abstain => "Abstain"

def VoteOption.shape : Shape VoteOption := .choice all jsonName

def ProposalStatus.jsonName : ProposalStatus → String
  | .unspecified => "Unspecified"
  | .votingPeriod => "VotingPeriod"
  | .passed => "Passed"
  | .rejected => "Rejected"
  | .failed => "Failed"
  | .executed => "Executed"

def ProposalStatus.shape : Shape ProposalStatus := .choice all jsonName

def Params.fields : Fields Params :=
  ((Fields.required "voting_period_blocks" .uint64).pair
    ((Fields.required "proposal_submission_deposit" .coins).pair
    ((Fields.required "add_tld_proposal_cost" .coins).pair
    ((Fields.required "min_yes_threshold_percent" .decimal).pair
    ((Fields.required "quorum_percent" .decimal).pair
    ((Fields.required "voting_power_decay_duration_blocks" .uint64).pair
    ((Fields.required "voting_token_denom" .text).pair
    (.required "validator_reward_voting_tokens_amount" .coin)))))))).iso
    (fun (v, s, l, t, q, d, n, r) => ⟨v, s, l, t, q, d, n, r⟩)
    fun p => (p.votingPeriod, p.submissionDeposit, p.labelDeposit, p.threshold, p.quorum, p.decay,
      p.votingDenom, p.reward)

def Envelope.fields : Fields Envelope :=
  ((Fields.required "type_url" .text).pair (.required "value" .bytes)).iso
    (fun (u, v) => ⟨u, v⟩) fun e => (e.typeUrl, e.value)

def Tally.fields : Fields Tally :=
  ((Fields.required "yes_votes" .amount).pair
    ((Fields.required "no_votes" .amount).pair (.required "abstain_votes" .amount))).iso
    (fun (y, n, a) => ⟨y, n, a⟩) fun t => (t.yes, t.no, t.abstain)

def Proposal.fields : Fields Proposal :=
  ((Fields.required "id" .uint64).pair
    ((Fields.required "proposer" .address).pair
    ((Fields.required "title" .text).pair
    ((Fields.required "description" .text).pair
    ((Fields.required "content" Envelope.fields.shape).pair
    ((Fields.required "status" ProposalStatus.shape).pair
    ((Fields.required "submit_block" .height).pair
    ((Fields.required "voting_start_block" .height).pair
    ((Fields.required "voting_end_block" .height).pair
    (Tally.fields.pair
    (.required "total_voting_power_at_snapshot" .amount))))))))))).iso
    (fun (i, p, t, d, c, s, h, b, e, y, n) => ⟨i, p, t, d, c, s, h, b, e, y, n⟩)
    fun p => (p.id, p.proposer, p.title, p.description, p.content, p.status, p.submitted,
      p.votingStart, p.votingEnd, p.tally, p.snapshot)

def Vote.fields : Fields Vote :=
  ((Fields.required "proposal_id" .uint64).pair
    ((Fields.required "voter" .address).pair
    ((Fields.required "option" VoteOption.shape).pair (.required "voting_power" .amount)))).iso
    (fun (i, v, o, p) => ⟨i, v, o, p⟩) fun v => (v.proposal, v.voter, v.option, v.power)

def Lot.fields : Fields Lot :=
  ((Fields.required "voter" .address).pair
    ((Fields.required "proposal_id" .uint64).pair
    ((Fields.required "initial_amount" .amount).pair (.required "grant_height" .height)))).iso
    (fun (v, i, a, h) => ⟨v, i, a, h⟩) fun l => (l.voter, l.proposal, l.initial, l.granted)

namespace Genesis

def fields : Fields Genesis :=
  ((Fields.required "params" Params.fields.shape).pair
    ((Fields.optional "proposals" (.list Proposal.fields.shape) []).pair
    ((Fields.optional "votes" (.list Vote.fields.shape) []).pair
    ((Fields.optional "lots" (.list Lot.fields.shape) []).pair
    (.optional "next_proposal_id" .uint64 0))))).iso
    (fun (p, ps, vs, ls, n) => ⟨p, ps, vs, ls, n⟩)
    fun g => (g.params, g.proposals, g.votes, g.lots, g.nextId)

def toJson (g : Genesis) : String := (fields.shape.write g).pretty

def ofJson (s : String) : Except GovernanceError Genesis :=
  match Json.parse s with
  | none => .error .malformedGenesis
  | some v =>
    match fields.shape.read v with
    | some g => .ok g
    | none => .error .malformedGenesis

end Genesis

end DaoGovernance
