import DaoGovernance.Power

/-!
Casting a vote.  It is stored with the power its voter has in this block; the sums on the proposal
stay as they are until the proposal is finalized.
-/

namespace DaoGovernance

def refuseInactive (p : Proposal) (id : UInt64) : Action Unit := do
  if !p.isOpen then
    Action.note (.inactiveProposal id p.status)
    throw (.inactive id p.status)
  if p.isClosedAt (← Action.height) then throw (.votingEnded id p.votingEnd)

def refuseSecondVote (id : UInt64) (voter : Address) : Action Unit := do
  if (← Action.read (Store.vote? id voter)).isSome then throw (.alreadyVoted id voter)

def positivePower (voter : Address) : Action Amount := do
  let power ← votingPower voter (← Action.height)
  if power = 0 then throw (.noPower voter)
  return power

def castVote (id : UInt64) (voter : String) (option : VoteOption) : Action Unit := do
  let voter ← Action.check (AddressRole.voter.parse voter)
  let p ← Action.read (Store.proposal id)
  refuseInactive p id
  refuseSecondVote id voter
  if option = .unspecified then throw (.request .noOption)
  let v : Vote := ⟨id, voter, option, ← positivePower voter⟩
  Action.write fun s => .ok (s.setVote v)
  Action.emit (.voteCast v)
  Action.note (.voteCast v)

end DaoGovernance
