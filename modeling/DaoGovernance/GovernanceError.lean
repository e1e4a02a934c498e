import DaoGovernance.Ledger
import DaoGovernance.Proposal
import DaoGovernance.Registry
import DaoGovernance.Store.Error

/-!
What an operation of governance can fail with.  Errors are causes; `message` gives their wording.
-/

namespace DaoGovernance

inductive AddressRole
  | account
  | proposer
  | voter
  | recipient
  deriving DecidableEq

def AddressRole.lead : AddressRole → String
  | .account => ""
  | .proposer => "invalid proposer address: "
  | .voter => "invalid voter address: "
  | .recipient => "invalid recipient address in proposal content: invalid account address: "

inductive ContentFault
  | missing
  | undecodable (error : UnpackError)
  | label (fault : Label.Fault)
  | alreadyPermitted (label : String)
  | amount (error : InvalidValue)
  | amountNotPositive
  | noActivity
  deriving DecidableEq

def ContentFault.message : ContentFault → String
  | .missing => "proposal content is nil"
  | .undecodable e =>
    "failed to unpack proposal content: cannot unpack proposal content: " ++ e.message
  | .label f => f.message
  | .alreadyPermitted l => Label.quoted l ++ " is already permitted or registered"
  | .amount e => "invalid amount requested in proposal content: " ++ e.message
  | .amountNotPositive => "requested amount in proposal content must be positive"
  | .noActivity => "activity description in proposal content cannot be empty"

inductive RequestFault
  | value (error : InvalidValue)
  | unknownOption (text : String)
  | noOption
  | emptyVoter
  | needlessDeposit
  | idNotBelowNext (id next : UInt64)
  | unknownProposal (voter : Address) (id : UInt64)
  deriving DecidableEq

def RequestFault.message : RequestFault → String
  | .value e => e.message
  | .unknownOption s => "unknown vote option: " ++ s
  | .noOption => "vote option must be yes, no or abstain"
  | .emptyVoter => "voter address cannot be empty"
  | .needlessDeposit =>
    "parameter deposit/cost is zero, initial_deposit in message must also be zero"
  | .idNotBelowNext i n => "proposal " ++ Text.decimal i.toNat ++ " is not below next proposal id " ++
      Text.decimal n.toNat
  | .unknownProposal v i => "vote by " ++ v.text ++ " references unknown proposal " ++
      Text.decimal i.toNat

inductive ParamsFault
  | uninitialised
  | invalid (reason : String)
  deriving DecidableEq

def ParamsFault.message : ParamsFault → String
  | .uninitialised => "module params not initialised"
  | .invalid r => r

inductive ConfigFault
  | authority (text : String)
  | noModuleAccount
  | noMapSize
  | malformed
  | missingFile
  | unwritable
  deriving DecidableEq

def ConfigFault.message : ConfigFault → String
  | .authority s => "invalid authority address: " ++ s
  | .noModuleAccount => "module account name cannot be empty"
  | .noMapSize => "lmdb_map_size must be positive"
  | .malformed => "malformed configuration"
  | .missingFile => "no such file"
  | .unwritable => "number out of range"

inductive GovernanceError
  | address (role : AddressRole) (text : String)
  | content (fault : ContentFault)
  | request (fault : RequestFault)
  | proposalNotFound (id : UInt64)
  | inactive (id : UInt64) (status : ProposalStatus)
  | votingEnded (id : UInt64) (last : Height)
  | alreadyVoted (id : UInt64) (voter : Address)
  | voteNotFound (id : UInt64) (voter : Address)
  | noPower (voter : Address)
  | duplicate (id : UInt64)
  | unauthorized (expected : Address) (got : String)
  | bank (error : BankError)
  | registry (error : RegistryError)
  | arithmetic (overflow : Overflow)
  | unpack (error : UnpackError)
  | store (error : StoreError)
  | record (error : DecodeError)
  | malformedGenesis
  | params (fault : ParamsFault)
  | config (fault : ConfigFault)
  deriving DecidableEq

namespace GovernanceError

def proposalText (id : UInt64) : String := "proposal " ++ Text.decimal id.toNat

def message : GovernanceError → String
  | .address r s => "invalid address: " ++ r.lead ++ s
  | .content f => "invalid proposal content: " ++ f.message
  | .request f => "invalid request: " ++ f.message
  | .proposalNotFound i => proposalText i ++ " not found"
  | .inactive i s => proposalText i ++ " not in voting period (current status: " ++ s.text ++ ")"
  | .votingEnded i h => proposalText i ++ ": voting period ended at block " ++
      Text.decimal h.number.toNat
  | .alreadyVoted i v => "voter " ++ v.text ++ " already voted on " ++ proposalText i
  | .voteNotFound i v => "vote by " ++ v.text ++ " on " ++ proposalText i ++ " not found"
  | .noPower v => "voter " ++ v.text ++ " has no voting power"
  | .duplicate i => "an identical proposal is already in its voting period (" ++ proposalText i ++
      ")"
  | .unauthorized e g => "unauthorized: expected " ++ e.text ++ ", got " ++ g
  | .bank e => "bank: " ++ e.message
  | .registry e => "registry: " ++ e.message
  | .arithmetic o => "arithmetic error: " ++ o.message
  | .unpack e => "cannot unpack proposal content: " ++ e.message
  | .store e => "store error: " ++ e.message
  | .record e => "serialization error: " ++ e.message
  | .malformedGenesis => "serialization error: malformed genesis"
  | .params f => "invalid params: " ++ f.message
  | .config f => "config error: " ++ f.message

def ofInvalidValue : InvalidValue → GovernanceError
  | .address s => .address .account s
  | .params r => .params (.invalid r)
  | e => .request (.value e)

end GovernanceError

def AddressRole.parse (r : AddressRole) (s : String) : Except GovernanceError Address :=
  match Address.parse s with
  | .ok a => .ok a
  | .error _ => .error (.address r s)

def VoteOption.parse (s : String) : Except GovernanceError VoteOption :=
  match VoteOption.parse? s with
  | some o => .ok o
  | none => .error (.request (.unknownOption s))

namespace Content

def validateLabel (label : String) : Except GovernanceError Unit :=
  match Label.check (Label.normalize label) with
  | .ok () => .ok ()
  | .error f => .error (.content (.label f))

def validateTokens (recipient : String) (amount : Coins) (activity : String) :
    Except GovernanceError Unit :=
  match AddressRole.recipient.parse recipient with
  | .error e => .error e
  | .ok _ =>
    match amount.validate with
    | .error e => .error (.content (.amount e))
    | .ok () =>
      if !amount.isAllPositive then .error (.content .amountNotPositive)
      else if Text.isBlankText activity then .error (.content .noActivity)
      else .ok ()

def validate : Content → Except GovernanceError Unit
  | .addLabel l => validateLabel l
  | .requestTokens r a d => validateTokens r a d

end Content

end DaoGovernance
