import DaoGovernance.Ballot
import DaoGovernance.Lot

/-!
Sums of voting power per option, and the decision they lead to: the quorum first, the threshold
only if it is met.
-/

namespace DaoGovernance

structure Tally where
  yes : Amount
  no : Amount
  abstain : Amount
  deriving DecidableEq, Inhabited

inductive RejectReason
  | quorumNotMet
  | thresholdNotMet
  deriving DecidableEq

def RejectReason.text : RejectReason → String
  | .quorumNotMet => "QuorumNotMet"
  | .thresholdNotMet => "ThresholdNotMet"

inductive Decision
  | passed
  | rejected (reason : RejectReason)
  deriving DecidableEq

namespace Tally

def zero : Tally := ⟨0, 0, 0⟩

def checkedSum (a b : Amount) : Except Overflow Amount :=
  match a.checkedAdd b with
  | some c => .ok c
  | none => .error .tally

def count (t : Tally) (o : VoteOption) (power : Amount) : Except Overflow Tally :=
  match o with
  | .yes => (fun yes => { t with yes }) <$> checkedSum t.yes power
  | .no => (fun no => { t with no }) <$> checkedSum t.no power
  | .abstain => (fun abstain => { t with abstain }) <$> checkedSum t.abstain power
  | .unspecified => .ok t

def countAll (t : Tally) : List Vote → Except Overflow Tally
  | [] => .ok t
  | v :: vs =>
    match t.count v.option v.power with
    | .ok t => countAll t vs
    | .error e => .error e

def ofVotes (vs : List Vote) : Except Overflow Tally := zero.countAll vs

def nonAbstain (t : Tally) : Except Overflow Amount := checkedSum t.yes t.no

def total (t : Tally) : Except Overflow Amount :=
  match t.nonAbstain with
  | .ok n => checkedSum n t.abstain
  | .error e => .error e

def hasQuorum (total snapshot : Amount) (quorum : Decimal) : Bool :=
  if snapshot = 0 then quorum.isZero else quorum.isMetBy total snapshot

def meetsThreshold (yes nonAbstain : Amount) (threshold : Decimal) : Bool :=
  if nonAbstain = 0 then threshold.isZero else threshold.isMetBy yes nonAbstain

def decision (t : Tally) (snapshot : Amount) (quorum threshold : Decimal) :
    Except Overflow Decision :=
  match t.total with
  | .error e => .error e
  | .ok total =>
    if !hasQuorum total snapshot quorum then .ok (.rejected .quorumNotMet)
    else match t.nonAbstain with
      | .error e => .error e
      | .ok n =>
        if !meetsThreshold t.yes n threshold then .ok (.rejected .thresholdNotMet)
        else .ok .passed

end Tally

end DaoGovernance
