import DaoGovernance.Codec
import DaoGovernance.Label

/-!
What a proposal does when it passes: permit a new top-level label, or mint tokens for an account.
Content travels and rests in an envelope of a type name and encoded bytes.
-/

namespace DaoGovernance

inductive Content
  | addLabel (label : String)
  | requestTokens (recipient : String) (amount : Coins) (activity : String)
  deriving DecidableEq

structure Envelope where
  typeUrl : String
  value : Bytes
  deriving DecidableEq

inductive UnpackError
  | unknownType (url : String)
  | undecodable (url : String) (error : DecodeError)
  deriving DecidableEq

def UnpackError.message : UnpackError → String
  | .unknownType url => "unknown proposal content type: " ++ url
  | .undecodable url e => url ++ ": " ++ e.message

namespace Content

def addLabelUrl : String := "/dns.dao.v1.AddTldProposalContent"

def requestTokensUrl : String := "/dns.dao.v1.RequestTokensProposalContent"

def kind : Content → String
  | .addLabel .. => "AddTld"
  | .requestTokens .. => "RequestTokens"

def typeUrl : Content → String
  | .addLabel .. => addLabelUrl
  | .requestTokens .. => requestTokensUrl

def isAddLabel : Content → Bool
  | .addLabel .. => true
  | .requestTokens .. => false

def canonical : Content → Content
  | .addLabel l => .addLabel (Label.normalize l)
  | c => c

def tokensCodec : Codec (String × Coins × String) := Codec.text.pair (Codec.coins.pair .text)

def payload : Content → Bytes
  | .addLabel l => Codec.text.encode l
  | .requestTokens r a d => tokensCodec.encode (r, a, d)

def pack (c : Content) : Envelope := ⟨c.typeUrl, c.payload⟩

end Content

namespace Envelope

def undecodable {α : Type} (url : String) : Except DecodeError α → Except UnpackError α
  | .ok a => .ok a
  | .error e => .error (.undecodable url e)

/-- An unknown type is an error and never skipped. -/
def unpack (e : Envelope) : Except UnpackError Content :=
  if e.typeUrl = Content.addLabelUrl then
    Content.addLabel <$> undecodable e.typeUrl (Codec.text.read e.value)
  else if e.typeUrl = Content.requestTokensUrl then
    (fun (r, a, d) => Content.requestTokens r a d) <$>
      undecodable e.typeUrl (Content.tokensCodec.read e.value)
  else .error (.unknownType e.typeUrl)

def codec : Codec Envelope :=
  (Codec.text.pair .bytes).iso (fun (u, v) => ⟨u, v⟩) fun e => (e.typeUrl, e.value)

def encode (e : Envelope) : Bytes := codec.encode e

def decode (bs : Bytes) : Except DecodeError Envelope := codec.read bs

end Envelope

end DaoGovernance
