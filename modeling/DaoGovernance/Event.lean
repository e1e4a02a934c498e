import DaoGovernance.Ballot
import DaoGovernance.Proposal

/-!
Events that the chain reads: what happened in a block, as a type and attributes in a fixed order.
-/

namespace DaoGovernance

inductive Event
  | proposalSubmitted (id : UInt64) (kind : String) (proposer : Address)
  | voteCast (vote : Vote)
  | proposalFinished (id : UInt64) (status : ProposalStatus)
  deriving DecidableEq

namespace Event

def kind : Event → String
  | .proposalSubmitted .. => "submit_proposal"
  | .voteCast .. => "proposal_vote"
  | .proposalFinished .. => "proposal_finished"

def idAttribute (id : UInt64) : String × String := ("proposal_id", Text.decimal id.toNat)

def attributes : Event → List (String × String)
  | .proposalSubmitted i k p => [idAttribute i, ("proposal_type", k), ("proposer", p.text)]
  | .voteCast v => [idAttribute v.proposal, ("voter", v.voter.text), ("option", v.option.text),
      ("voting_power", v.power.text)]
  | .proposalFinished i s => [idAttribute i, ("proposal_status", s.text)]

end Event

structure Block where
  height : Height
  events : List Event

namespace Block

def genesis : Block := ⟨.genesis, []⟩

def moveTo (_ : Block) (h : Height) : Block := ⟨h, []⟩

def emit (b : Block) (e : Event) : Block := { b with events := b.events ++ [e] }

end Block

end DaoGovernance
