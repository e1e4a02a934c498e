import DaoGovernance.Codec

/-!
The parameters of governance, their defaults and what makes them valid.
-/

namespace DaoGovernance

structure Params where
  votingPeriod : UInt64
  submissionDeposit : Coins
  labelDeposit : Coins
  threshold : Decimal
  /-- Least share of votes in the supply at submission. -/
  quorum : Decimal
  /-- Blocks over which a lot decays to zero; never if zero. -/
  decay : UInt64
  votingDenom : String
  /-- Reward of validators per block, which governance only carries. -/
  reward : Coin
  deriving DecidableEq

namespace Params

def default : Params where
  votingPeriod := 500
  submissionDeposit := ⟨[⟨"stake", 10000000⟩]⟩
  labelDeposit := ⟨[⟨"stake", 100000000⟩]⟩
  threshold := .percent 50
  quorum := .zero
  decay := 2592000
  votingDenom := "udnsc"
  reward := ⟨"udnsc", 1000000⟩

instance : Inhabited Params := ⟨default⟩

def about (what : String) : Except InvalidValue Unit → Except InvalidValue Unit
  | .ok () => .ok ()
  | .error e => .error (.params (what ++ ": " ++ e.message))

def validateFraction (name : String) (d : Decimal) : Except InvalidValue Unit :=
  if Decimal.one.raw < d.raw then
    .error (.params (name ++ " cannot be greater than 1: " ++ d.text))
  else .ok ()

def validateReward (denom : String) (c : Coin) : Except InvalidValue Unit := do
  about "invalid validator reward amount" c.validate
  if !c.isZero && c.denom ≠ denom then
    .error (.params ("validator reward denom (" ++ c.denom ++
      ") must match voting token denom (" ++ denom ++ ")"))
  else .ok ()

def validate (p : Params) : Except InvalidValue Unit := do
  if p.votingPeriod = 0 then .error (.params "voting period blocks cannot be zero")
  about "invalid proposal submission deposit" p.submissionDeposit.validate
  about "invalid add-tld proposal cost" p.labelDeposit.validate
  validateFraction "min yes threshold percent" p.threshold
  validateFraction "quorum percent" p.quorum
  about "invalid voting token denom" (Denom.validate p.votingDenom)
  validateReward p.votingDenom p.reward

def codec : Codec Params :=
  (Codec.uint64.pair (Codec.coins.pair (Codec.coins.pair (Codec.fraction.pair (Codec.fraction.pair
    (Codec.uint64.pair (Codec.text.pair .coin))))))).iso
    (fun (v, s, l, t, q, d, n, r) => ⟨v, s, l, t, q, d, n, r⟩)
    fun p => (p.votingPeriod, p.submissionDeposit, p.labelDeposit, p.threshold, p.quorum, p.decay,
      p.votingDenom, p.reward)

def encode (p : Params) : Bytes := codec.encode p

def decode (bs : Bytes) : Except DecodeError Params := codec.read bs

example : default.validate = .ok () := rfl

end Params

end DaoGovernance
