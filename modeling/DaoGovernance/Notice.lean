import DaoGovernance.GovernanceError

/-!
Notices for the log: a level, a sentence and named fields.  A critical notice tells of a failure
that did not stop what was going on and needs an operator.
-/

namespace DaoGovernance

inductive Level
  | debug
  | info
  | warn
  | error
  deriving DecidableEq

def Level.text : Level → String
  | .debug => "DEBUG"
  | .info => "INFO"
  | .warn => "WARN"
  | .error => "ERROR"

inductive Notice
  | duplicateProposal (id : UInt64)
  | depositEscrowed (proposer : Address) (deposit : Coins)
  | proposalSubmitted (kind : String) (proposal : Proposal)
  | unreadableInDuplicateCheck (id : UInt64) (error : GovernanceError)
  | inactiveProposal (id : UInt64) (status : ProposalStatus)
  | voteCast (vote : Vote)
  | powerComputed (voter : Address) (height : Height) (power : Amount)
  | unreadableProposal (id : UInt64) (error : GovernanceError)
  | finalizing (id : UInt64) (last now : Height)
  | tallyFailed (id : UInt64) (error : GovernanceError)
  | undecodableContent (id : UInt64) (error : GovernanceError)
  | proposalRejected (id : UInt64) (reason : RejectReason)
  | proposalPassed (id : UInt64)
  | decisionNotStored (id : UInt64) (error : GovernanceError)
  | proposalExecuted (id : UInt64)
  | executionFailed (id : UInt64) (error : GovernanceError)
  | outcomeNotStored (id : UInt64) (status : ProposalStatus) (error : GovernanceError)
  | proposalFinished (proposal : Proposal)
  | permittingLabel (id : UInt64) (label : String)
  | grantingTokens (id : UInt64) (recipient : Address) (amount : Coins)
  | mintedCoinsStuck (id : UInt64) (amount : Coins) (payout burn : BankError)
  | lotGranted (lot : Lot)
  | lotNotStored (lot : Lot) (error : GovernanceError)
  | depositRefunded (id : UInt64) (proposer : Address) (deposit : Coins)
  | refundFailed (id : UInt64) (proposer : Address) (deposit : Coins) (error : BankError)
  | depositBurned (id : UInt64) (status : ProposalStatus) (deposit : Coins)
  | burnFailed (id : UInt64) (deposit : Coins) (error : BankError)
  | paramsUpdated (params : Params)
  | invalidGenesisParams (error : InvalidValue)
  | genesisLoaded (proposals votes lots : Nat) (next : UInt64)
  | schemaInitialised (found current : UInt32)
  | tablesOpened (mapSize : UInt64)
  | keeperReady (moduleAccount : String)

namespace Notice

def level : Notice → Level
  | .depositEscrowed .. | .powerComputed .. | .finalizing .. | .tablesOpened .. => .debug
  | .duplicateProposal .. | .inactiveProposal .. | .invalidGenesisParams .. => .warn
  | .unreadableInDuplicateCheck .. | .unreadableProposal .. | .tallyFailed ..
  | .undecodableContent .. | .decisionNotStored .. | .executionFailed .. | .outcomeNotStored ..
  | .mintedCoinsStuck .. | .lotNotStored .. | .refundFailed .. | .burnFailed .. => .error
  | _ => .info

def isCritical : Notice → Bool
  | .unreadableProposal .. | .outcomeNotStored .. | .mintedCoinsStuck .. | .lotNotStored ..
  | .refundFailed .. | .burnFailed .. => true
  | _ => false

def message : Notice → String
  | .duplicateProposal .. => "identical proposal already in voting period"
  | .depositEscrowed .. => "deposit escrowed"
  | .proposalSubmitted .. => "proposal submitted"
  | .unreadableInDuplicateCheck .. => "unreadable proposal skipped in duplicate check"
  | .inactiveProposal .. => "vote on inactive proposal"
  | .voteCast .. => "vote cast"
  | .powerComputed .. => "computed voting power"
  | .unreadableProposal .. => "unreadable proposal record skipped"
  | .finalizing .. => "finalizing proposal"
  | .tallyFailed .. => "tally failed"
  | .undecodableContent .. => "cannot unpack proposal content"
  | .proposalRejected .. => "proposal rejected"
  | .proposalPassed .. => "proposal passed"
  | .decisionNotStored .. => "failed to persist proposal decision"
  | .proposalExecuted .. => "proposal executed"
  | .executionFailed .. => "proposal execution failed"
  | .outcomeNotStored .. => "failed to persist execution outcome"
  | .proposalFinished .. => "proposal finished"
  | .permittingLabel .. => "executing add-tld proposal"
  | .grantingTokens .. => "executing request-tokens proposal"
  | .mintedCoinsStuck .. => "failed to burn minted coins after failed payout"
  | .lotGranted .. => "voting power lot granted"
  | .lotNotStored .. => "failed to record voting power lot"
  | .depositRefunded .. => "deposit refunded"
  | .refundFailed .. => "failed to refund deposit for executed proposal"
  | .depositBurned .. => "deposit burned"
  | .burnFailed .. => "failed to burn deposit for rejected or failed proposal"
  | .paramsUpdated .. => "params updated"
  | .invalidGenesisParams .. => "genesis params invalid, using defaults"
  | .genesisLoaded .. => "genesis loaded"
  | .schemaInitialised .. => "initialising schema"
  | .tablesOpened .. => "opened LMDB environment"
  | .keeperReady .. => "governance keeper ready"

def word (name : String) (n : UInt64) : String × String := (name, Text.decimal n.toNat)

def idField (id : UInt64) : String × String := word "proposal_id" id

def heightField (name : String) (h : Height) : String × String := word name h.number

def errorField (e : GovernanceError) : String × String := ("error", e.message)

def lotFields (l : Lot) : List (String × String) :=
  [idField l.proposal, ("voter", l.voter.text), ("initial_amount", l.initial.text)]

def detail : Notice → List (String × String)
  | .duplicateProposal i => [word "existing" i]
  | .depositEscrowed p d => [("proposer", p.text), ("amount", d.text)]
  | .proposalSubmitted k p => [idField p.id, ("proposer", p.proposer.text), ("kind", k),
      heightField "voting_end" p.votingEnd, ("snapshot", p.snapshot.text)]
  | .inactiveProposal i s => [idField i, ("status", s.text)]
  | .voteCast v => [idField v.proposal, ("voter", v.voter.text), ("option", v.option.text),
      ("voting_power", v.power.text)]
  | .powerComputed v h p => [("voter", v.text), heightField "height" h, ("power", p.text)]
  | .finalizing i l n => [idField i, heightField "voting_end" l, heightField "height" n]
  | .unreadableInDuplicateCheck i e | .unreadableProposal i e | .tallyFailed i e
  | .undecodableContent i e | .decisionNotStored i e | .executionFailed i e =>
    [idField i, errorField e]
  | .proposalRejected i r => [idField i, ("reason", r.text)]
  | .proposalPassed i | .proposalExecuted i => [idField i]
  | .outcomeNotStored i s e => [idField i, ("status", s.text), errorField e]
  | .proposalFinished p => [idField p.id, ("status", p.status.text), ("yes", p.tally.yes.text),
      ("no", p.tally.no.text), ("abstain", p.tally.abstain.text), ("snapshot", p.snapshot.text)]
  | .permittingLabel i l => [idField i, ("tld", l)]
  | .grantingTokens i r a => [idField i, ("recipient", r.text), ("amount", a.text)]
  | .mintedCoinsStuck i a p b => [idField i, ("amount", a.text), ("send_error", p.message),
      ("burn_error", b.message)]
  | .lotGranted l => lotFields l ++ [heightField "height" l.granted]
  | .lotNotStored l e => lotFields l ++ [errorField e]
  | .depositRefunded i p d => [idField i, ("proposer", p.text), ("amount", d.text)]
  | .refundFailed i p d e => [idField i, ("proposer", p.text), ("amount", d.text),
      ("error", e.message)]
  | .depositBurned i s d => [idField i, ("status", s.text), ("amount", d.text)]
  | .burnFailed i d e => [idField i, ("amount", d.text), ("error", e.message)]
  | .paramsUpdated p => [word "voting_period_blocks" p.votingPeriod, word "decay_blocks" p.decay]
  | .invalidGenesisParams e => [("error", e.message)]
  | .genesisLoaded p v l n => [("proposals", Text.decimal p), ("votes", Text.decimal v),
      ("lots", Text.decimal l), word "next_proposal_id" n]
  | .schemaInitialised f c => [("from", Text.decimal f.toNat), ("to", Text.decimal c.toNat)]
  | .tablesOpened n => [word "map_size" n]
  | .keeperReady m => [("module_account", m)]

def fields (n : Notice) : List (String × String) :=
  if n.isCritical then ("critical", "true") :: n.detail else n.detail

end Notice

end DaoGovernance
