import DaoGovernance.Codec

/-!
Votes and their options.  A vote carries the power its voter had when it was cast.
-/

namespace DaoGovernance

inductive VoteOption
  | unspecified
  | yes
  | no
  | abstain
  deriving DecidableEq, Inhabited

namespace VoteOption

def all : List VoteOption := [unspecified, yes, no, abstain]

def shortName : VoteOption → String
  | .unspecified => "UNSPECIFIED"
  | .yes => "YES"
  | .no => "NO"
  | .abstain => "ABSTAIN"

def namePart : String := "VOTE_OPTION_"

def text (o : VoteOption) : String := namePart ++ o.shortName

def dropLead (lead cs : List Char) : List Char :=
  if lead.isPrefixOf cs then cs.drop lead.length else cs

def parse? (s : String) : Option VoteOption :=
  let name := dropLead namePart.toList (Text.upper (Text.trim s)).toList
  all.find? fun o => o.shortName.toList = name

def codec : Codec VoteOption := .choice all

end VoteOption

structure Vote where
  proposal : UInt64
  voter : Address
  option : VoteOption
  power : Amount
  deriving DecidableEq

namespace Vote

def codec : Codec Vote :=
  (Codec.uint64.pair (Codec.address.pair (VoteOption.codec.pair .amount))).iso
    (fun (i, v, o, p) => ⟨i, v, o, p⟩) fun v => (v.proposal, v.voter, v.option, v.power)

def encode (v : Vote) : Bytes := codec.encode v

def decode (bs : Bytes) : Except DecodeError Vote := codec.read bs

end Vote

end DaoGovernance
