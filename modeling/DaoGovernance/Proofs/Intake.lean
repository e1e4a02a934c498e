import DaoGovernance.Proofs.PowerMode
import DaoGovernance.Proofs.Voting
import Mathlib

/-!
Which votes are taken.  There are seven conditions, checked in a fixed order: a vote is taken exactly
if it meets them all, and one that is refused is told the first that it does not meet.  A vote that
is taken adds its record and its event, a refused one nothing.
-/

namespace DaoGovernance

open DaoGovernance.Action

/-! ### All but the count of scans -/

namespace Store

def uncounted (s : Store) : Store := s.switch fun m => { m with lotScans := 0 }

@[simp] theorem uncounted_countScan (s : Store) : s.countScan.uncounted = s.uncounted := by
  cases s <;> rfl

theorem uncounted_setVote (v : Vote) (s : Store) :
    (s.setVote v).uncounted = s.uncounted.setVote v := by
  cases s <;> rfl

@[simp] theorem view_uncounted (s : Store) : s.uncounted.view = s.view := by
  cases s <;> rfl

@[simp] theorem lotAt_uncounted (s : Store) : s.uncounted.lotAt = s.lotAt := by
  cases s <;> rfl

@[simp] theorem lots_countScan (a : Address) (s : Store) : lots a s.countScan = lots a s := by
  cases s <;> rfl

theorem decodeSome_eq_none {α : Type} {decode : Bytes → Except DecodeError α} {r : Option Bytes} :
    decodeSome decode r = .ok none ↔ r = none := by
  cases r with
  | none => simp [decodeSome]
  | some bs => cases h : decode bs <;> simp [decodeSome, h]

theorem decodeSome_eq_error {α : Type} {decode : Bytes → Except DecodeError α} {r : Option Bytes}
    {e : GovernanceError} :
    decodeSome decode r = .error e ↔ ∃ bs f, r = some bs ∧ decode bs = .error f ∧ e = .record f := by
  cases r with
  | none => simp [decodeSome]
  | some bs => cases h : decode bs <;> simp [decodeSome, h, eq_comm]

theorem proposal_eq_error {id : UInt64} {s : Store} {e : GovernanceError} :
    s.proposal id = .error e ↔ s.getProposal id = none ∧ e = .proposalNotFound id ∨
      ∃ bs f, s.getProposal id = some bs ∧ Proposal.decode bs = .error f ∧ e = .record f := by
  have hnone : s.proposal? id = .ok none ↔ s.getProposal id = none := decodeSome_eq_none
  rw [← decodeSome_eq_error, ← hnone]
  change s.proposal id = _ ↔ _ ∨ s.proposal? id = _
  unfold proposal
  rcases s.proposal? id with f | (- | p) <;> simp [eq_comm]

theorem vote?_setVote (v : Vote) (s : Store) :
    vote? v.proposal v.voter (s.setVote v) = .ok (some v) := by
  have hget : (s.setVote v).getVote v.proposal v.voter = some v.encode := by
    simp only [getVote_eq, setVote, view_putVote, Function.update_self]
  simp only [vote?, hget, decodeSome, Vote.decode_encode]

end Store

structure Chain.Rests (c d : Chain) : Prop where
  store : d.store.uncounted = c.store.uncounted
  ledger : d.ledger = c.ledger
  registry : d.registry = c.registry
  faults : d.faults = c.faults
  block : d.block = c.block

instance : Std.Refl Chain.Rests := ⟨fun _ => ⟨rfl, rfl, rfl, rfl, rfl⟩⟩

instance : IsTrans Chain Chain.Rests where
  trans _ _ _ h k := ⟨k.store.trans h.store, k.ledger.trans h.ledger,
    k.registry.trans h.registry, k.faults.trans h.faults, k.block.trans h.block⟩

instance : IgnoresLog Chain.Rests := ⟨fun _ _ => ⟨rfl, rfl, rfl, rfl, rfl⟩⟩

theorem countScan_rests (c : Chain) : c.Rests { c with store := c.store.countScan } :=
  ⟨c.store.uncounted_countScan, rfl, rfl, rfl, rfl⟩

/-! ### Power -/

/-- The power of an account in this block, or why it has none to tell: its balance of the voting
denom as long as there is no lot at all, then what is left of its own lots. -/
def Chain.power (c : Chain) (a : Address) : Except GovernanceError Amount :=
  match c.store.params with
  | .error e => .error e
  | .ok params =>
    if c.store.hasAnyLot then
      match c.store.lots a with
      | .error e => .error e
      | .ok ls => lotPower ls c.block.height params.decay
    else
      match c.balance a params.votingDenom with
      | .error e => .error (.bank e)
      | .ok n => .ok n

section Power

variable {c d : Chain} {a : Address}

theorem balance_apply (denom : String) :
    Action.balance a denom c = bank (c.balance a denom) c := rfl

theorem scanLots_apply :
    scanLots a c = check (c.store.lots a) { c with store := c.store.countScan } := by
  rw [scanLots, bind_of_ok (modify_apply _)]
  exact congrArg (fun r => check r _) (Store.lots_countScan a c.store)

theorem votingPower_tells (a : Address) (c : Chain) :
    Ends (votingPower a c.block.height) c (fun n _ => c.power a = .ok n)
      fun e _ => c.power a = .error e := by
  unfold votingPower Chain.power
  cases hp : c.store.params with
  | error e => exact .of_fail (read_eq_error.2 ⟨hp, rfl⟩) rfl
  | ok params =>
    refine .of_step (read_eq_ok.2 ⟨hp, rfl⟩) (.of_step get_apply ?_)
    cases hlots : c.store.hasAnyLot with
    | false =>
      simp only [PowerMode.ofStore, hlots, Bool.false_eq_true, if_false]
      cases hb : c.balance a params.votingDenom with
      | error e => exact .of_fail ((balance_apply _).trans (by rw [hb]; rfl)) rfl
      | ok n => exact .of_step ((balance_apply _).trans (by rw [hb]; rfl)) rfl
    | true =>
      simp only [PowerMode.ofStore, hlots, if_true]
      cases hl : c.store.lots a with
      | error e => exact .of_fail (scanLots_apply.trans (by rw [hl]; rfl)) rfl
      | ok ls =>
        refine .of_step (scanLots_apply.trans (by rw [hl]; rfl)) ?_
        cases hn : lotPower ls c.block.height params.decay with
        | error e => exact .of_fail (check_eq_error.2 ⟨rfl, rfl⟩) hn
        | ok n => exact .of_step (check_eq_ok.2 ⟨rfl, rfl⟩) hn

theorem votingPower_ends (a : Address) (c : Chain) :
    Ends (votingPower a c.block.height) c (fun n d => c.power a = .ok n ∧ c.Rests d)
      fun e d => c.power a = .error e ∧ c.Rests d := by
  have hrests := votingPower_within countScan_rests a c.block.height
  apply Ends.intro
  · intro n d h
    exact ⟨(votingPower_tells a c).of_ok h, hrests.of_ok h⟩
  · intro e d h
    exact ⟨(votingPower_tells a c).of_error h, hrests.of_error h⟩

end Power

/-! ### Conditions -/

structure Ballot where
  proposal : UInt64
  voter : String
  option : VoteOption

inductive Condition
  | voter
  | stored
  | isOpen
  | inTime
  | first
  | chosen
  | powerful

/-- The conditions in the order in which they are checked. -/
def Condition.all : List Condition := [voter, stored, isOpen, inTime, first, chosen, powerful]

namespace Ballot

variable (b : Ballot) (c : Chain)

def cast : Action Unit := castVote b.proposal b.voter b.option

def Meets : Condition → Prop
  | .voter => ∃ a, Address.parse b.voter = .ok a
  | .stored => ∃ p, c.store.proposal b.proposal = .ok p
  | .isOpen => ∃ p, c.store.proposal b.proposal = .ok p ∧ p.status = .votingPeriod
  | .inTime => ∃ p, c.store.proposal b.proposal = .ok p ∧
      c.block.height.number ≤ p.votingEnd.number
  | .first => ∃ a, Address.parse b.voter = .ok a ∧ c.store.getVote b.proposal a = none
  | .chosen => b.option ≠ .unspecified
  | .powerful => ∃ a n, Address.parse b.voter = .ok a ∧ c.power a = .ok n ∧ 0 < n

inductive Misses : Condition → GovernanceError → Prop
  | voter {e : InvalidValue} (h : Address.parse b.voter = .error e) :
      Misses .voter (.address .voter b.voter)
  | absent (h : c.store.getProposal b.proposal = none) :
      Misses .stored (.proposalNotFound b.proposal)
  | unreadable {bs : Bytes} {e : DecodeError} (h : c.store.getProposal b.proposal = some bs)
      (he : Proposal.decode bs = .error e) : Misses .stored (.record e)
  | closed {p : Proposal} (h : c.store.proposal b.proposal = .ok p) (hp : p.status ≠ .votingPeriod) :
      Misses .isOpen (.inactive b.proposal p.status)
  | late {p : Proposal} (h : c.store.proposal b.proposal = .ok p)
      (hp : p.votingEnd.number < c.block.height.number) :
      Misses .inTime (.votingEnded b.proposal p.votingEnd)
  | again {a : Address} {v : Vote} (ha : Address.parse b.voter = .ok a)
      (h : c.store.vote? b.proposal a = .ok (some v)) : Misses .first (.alreadyVoted b.proposal a)
  | unreadableVote {a : Address} {bs : Bytes} {e : DecodeError} (ha : Address.parse b.voter = .ok a)
      (h : c.store.getVote b.proposal a = some bs) (he : Vote.decode bs = .error e) :
      Misses .first (.record e)
  | unspecified (h : b.option = .unspecified) : Misses .chosen (.request .noOption)
  | powerless {a : Address} (ha : Address.parse b.voter = .ok a) (h : c.power a = .ok 0) :
      Misses .powerful (.noPower a)
  | untold {a : Address} {e : GovernanceError} (ha : Address.parse b.voter = .ok a)
      (h : c.power a = .error e) : Misses .powerful e

def Refused (e : GovernanceError) : Prop :=
  ∃ before k after, Condition.all = before ++ k :: after ∧ (∀ j ∈ before, b.Meets c j) ∧
    b.Misses c k e

variable {b c} {k : Condition} {e : GovernanceError}

theorem Misses.not_meets (h : b.Misses c k e) : ¬ b.Meets c k := by
  cases h with
  | voter h =>
    rintro ⟨a, ha⟩
    cases h.symm.trans ha
  | absent h =>
    rintro ⟨p, hp⟩
    cases (Store.proposal_eq_error.2 (.inl ⟨h, rfl⟩)).symm.trans hp
  | unreadable h he =>
    rintro ⟨p, hp⟩
    cases (Store.proposal_eq_error.2 (.inr ⟨_, _, h, he, rfl⟩)).symm.trans hp
  | closed h hp =>
    rintro ⟨q, hq, ho⟩
    cases h.symm.trans hq
    exact hp ho
  | late h hp =>
    rintro ⟨q, hq, ht⟩
    cases h.symm.trans hq
    exact absurd ht (UInt64.not_le.2 hp)
  | again ha h =>
    rintro ⟨a', ha', hn⟩
    cases ha.symm.trans ha'
    cases h.symm.trans (Store.decodeSome_eq_none.2 hn)
  | unreadableVote ha h he =>
    rintro ⟨a', ha', hn⟩
    cases ha.symm.trans ha'
    cases h.symm.trans hn
  | unspecified h => exact fun hn => hn h
  | powerless ha h =>
    rintro ⟨a', n, ha', hn, hpos⟩
    cases ha.symm.trans ha'
    cases h.symm.trans hn
    exact absurd hpos (BitVec.lt_irrefl _)
  | untold ha h =>
    rintro ⟨a', n, ha', hn, -⟩
    cases ha.symm.trans ha'
    cases h.symm.trans hn

theorem Refused.exists_not_meets (h : b.Refused c e) : ∃ k, ¬ b.Meets c k := by
  obtain ⟨-, k, -, -, -, hk⟩ := h
  exact ⟨k, hk.not_meets⟩

/-! ### The single checks -/

section Checks

variable {a : Address} {p : Proposal}

theorem voter_ends (b : Ballot) (c : Chain) :
    Ends (Action.check (AddressRole.voter.parse b.voter)) c
      (fun a d => Address.parse b.voter = .ok a ∧ d = c)
      fun e d => b.Misses c .voter e ∧ c.Rests d := by
  unfold AddressRole.parse
  cases ha : Address.parse b.voter with
  | error e => exact ⟨.voter ha, refl c⟩
  | ok a => exact ⟨rfl, rfl⟩

theorem stored_ends (b : Ballot) (c : Chain) :
    Ends (Action.read (Store.proposal b.proposal)) c
      (fun p d => c.store.proposal b.proposal = .ok p ∧ d = c)
      fun e d => b.Misses c .stored e ∧ c.Rests d := by
  refine .intro (fun p d => read_eq_ok.1) fun e d h => ?_
  obtain ⟨he, rfl⟩ := read_eq_error.1 h
  refine ⟨?_, refl d⟩
  rcases Store.proposal_eq_error.1 he with ⟨hget, rfl⟩ | ⟨bs, f, hget, hf, rfl⟩
  · exact .absent hget
  · exact .unreadable hget hf

theorem inactive_ends (hp : c.store.proposal b.proposal = .ok p) :
    Ends (refuseInactive p b.proposal) c
      (fun _ d => p.status = .votingPeriod ∧ c.block.height.number ≤ p.votingEnd.number ∧ d = c)
      fun e d => (b.Misses c .isOpen e ∨ p.status = .votingPeriod ∧ b.Misses c .inTime e) ∧
        c.Rests d := by
  unfold refuseInactive
  by_cases ho : p.status = .votingPeriod
  · have hopen : p.isOpen = true := decide_eq_true ho
    simp only [hopen, Bool.not_true, Bool.false_eq_true, if_false]
    refine .of_step height_apply ?_
    split
    · rename_i hlate
      exact ⟨.inr ⟨ho, .late hp (of_decide_eq_true hlate)⟩, refl c⟩
    · rename_i htime
      exact ⟨ho, UInt64.not_lt.1 fun hlate => htime (decide_eq_true hlate), rfl⟩
  · have hclosed : p.isOpen = false := decide_eq_false ho
    simp only [hclosed, Bool.not_false, if_true]
    exact .of_step (note_apply _) ⟨.inl (.closed hp ho), IgnoresLog.log c _⟩

theorem first_ends (ha : Address.parse b.voter = .ok a) :
    Ends (refuseSecondVote b.proposal a) c
      (fun _ d => c.store.getVote b.proposal a = none ∧ d = c)
      fun e d => b.Misses c .first e ∧ c.Rests d := by
  unfold refuseSecondVote
  cases hv : c.store.vote? b.proposal a with
  | error e =>
    obtain ⟨bs, f, hget, hf, rfl⟩ := Store.decodeSome_eq_error.1 hv
    exact .of_fail (read_eq_error.2 ⟨hv, rfl⟩) ⟨.unreadableVote ha hget hf, refl c⟩
  | ok v =>
    refine .of_step (read_eq_ok.2 ⟨hv, rfl⟩) ?_
    cases v with
    | none => exact ⟨Store.decodeSome_eq_none.1 hv, rfl⟩
    | some v => exact ⟨.again ha hv, refl c⟩

theorem powerful_ends (ha : Address.parse b.voter = .ok a) :
    Ends (positivePower a) c (fun n d => c.power a = .ok n ∧ 0 < n ∧ c.Rests d)
      fun e d => b.Misses c .powerful e ∧ c.Rests d := by
  refine .of_step height_apply (.bind (Q := fun n d => c.power a = .ok n ∧ c.Rests d) ?_ ?_)
  · exact (votingPower_ends a c).mono (fun _ _ h => h) fun _ _ h => ⟨.untold ha h.1, h.2⟩
  · rintro n d - ⟨hn, hd⟩
    dsimp only
    split
    · rename_i hzero
      subst hzero
      exact ⟨.powerless ha hn, hd⟩
    · rename_i hzero
      exact ⟨hn, (BitVec.pos_iff_ne_zero n).2 hzero, hd⟩

end Checks

end Ballot

/-! ### Taking a vote -/

/-- The vote `v` was taken at `c`, which left `d`: nothing but its record and its event is new. -/
structure Chain.Takes (c : Chain) (v : Vote) (d : Chain) : Prop where
  isNew : c.store.getVote v.proposal v.voter = none
  stored : d.store.vote? v.proposal v.voter = .ok (some v)
  store : d.store.uncounted = (c.store.setVote v).uncounted
  view : d.store.view = { c.store.view with
    votes := Function.update c.store.view.votes (v.proposal, v.voter) (some v.encode) }
  lots : d.store.lotAt = c.store.lotAt
  ledger : d.ledger = c.ledger
  registry : d.registry = c.registry
  faults : d.faults = c.faults
  block : d.block = c.block.emit (.voteCast v)

theorem Chain.Rests.takes {c d : Chain} {v : Vote} (h : c.Rests d)
    (hnew : c.store.getVote v.proposal v.voter = none) (log : List Notice) :
    c.Takes v { d with store := d.store.setVote v, block := d.block.emit (.voteCast v), log } where
  isNew := hnew
  stored := Store.vote?_setVote v d.store
  store := by rw [Store.uncounted_setVote, h.store, ← Store.uncounted_setVote]
  view := by
    have hview := congrArg Store.view h.store
    rw [Store.view_uncounted, Store.view_uncounted] at hview
    rw [← hview]
    exact Store.view_putVote _ _ _
  lots := by
    have hlots := congrArg Store.lotAt h.store
    rw [Store.lotAt_uncounted, Store.lotAt_uncounted] at hlots
    rw [← hlots]
    exact (Store.putVote_becomes _ _ _ _).lots
  ledger := h.ledger
  registry := h.registry
  faults := h.faults
  block := congrArg (Block.emit · _) h.block

namespace Ballot

variable {b : Ballot} {c : Chain}

theorem Misses.refused (before : List Condition) {after : List Condition} {k : Condition}
    (hall : Condition.all = before ++ k :: after) (hbefore : ∀ j ∈ before, b.Meets c j)
    (e : GovernanceError) (d : Chain) (h : b.Misses c k e ∧ c.Rests d) :
    b.Refused c e ∧ c.Rests d :=
  ⟨⟨before, k, after, hall, hbefore, h.1⟩, h.2⟩

theorem cast_ends (b : Ballot) (c : Chain) :
    Ends b.cast c
      (fun _ d => (∀ k, b.Meets c k) ∧ ∃ a n, Address.parse b.voter = .ok a ∧ c.power a = .ok n ∧
        c.Takes ⟨b.proposal, a, b.option, n⟩ d)
      fun e d => b.Refused c e ∧ c.Rests d := by
  refine .bind ((voter_ends b c).mono (fun _ _ h => h) (Misses.refused [] rfl ?_)) ?_
  · simp
  rintro a c - ⟨ha, rfl⟩
  have hvoter : b.Meets c .voter := ⟨a, ha⟩
  refine .bind ((stored_ends b c).mono (fun _ _ h => h)
    (Misses.refused [.voter] rfl ?_)) ?_
  · simpa using hvoter
  rintro p c - ⟨hp, rfl⟩
  have hstored : b.Meets c .stored := ⟨p, hp⟩
  refine .bind ((inactive_ends hp).mono (fun _ _ h => h) ?_) ?_
  · rintro e d ⟨hclosed | ⟨ho, hlate⟩, hd⟩
    · refine Misses.refused [.voter, .stored] rfl ?_ e d ⟨hclosed, hd⟩
      simp [hvoter, hstored]
    · have hopen : b.Meets c .isOpen := ⟨p, hp, ho⟩
      refine Misses.refused [.voter, .stored, .isOpen] rfl ?_ e d ⟨hlate, hd⟩
      simp [hvoter, hstored, hopen]
  rintro _ c - ⟨ho, ht, rfl⟩
  have hopen : b.Meets c .isOpen := ⟨p, hp, ho⟩
  have hinTime : b.Meets c .inTime := ⟨p, hp, ht⟩
  refine .bind ((first_ends ha).mono (fun _ _ h => h)
    (Misses.refused [.voter, .stored, .isOpen, .inTime] rfl ?_)) ?_
  · simp [hvoter, hstored, hopen, hinTime]
  rintro _ c - ⟨hnew, rfl⟩
  have hfirst : b.Meets c .first := ⟨a, ha, hnew⟩
  by_cases hoption : b.option = .unspecified
  case pos =>
    simp only [hoption, if_true]
    refine .of_fail throw_apply ?_
    refine Misses.refused [.voter, .stored, .isOpen, .inTime, .first] rfl ?_ _ _
      ⟨.unspecified hoption, refl c⟩
    simp [hvoter, hstored, hopen, hinTime, hfirst]
  have hchosen : b.Meets c .chosen := hoption
  simp only [hoption, if_false]
  refine .bind ((powerful_ends ha).mono (fun _ _ h => h)
    (Misses.refused [.voter, .stored, .isOpen, .inTime, .first, .chosen] rfl ?_)) ?_
  · simp [hvoter, hstored, hopen, hinTime, hfirst, hchosen]
  rintro n d - ⟨hn, hpos, hd⟩
  have hpowerful : b.Meets c .powerful := ⟨a, n, ha, hn, hpos⟩
  refine ⟨?_, a, n, ha, hn, hd.takes hnew _⟩
  intro k
  cases k <;> assumption

/-- A ballot is taken exactly if it meets every condition, where the power is what is told of the
voter in this block; then the vote with that power and its event are all that is new.  Otherwise the
error tells the first condition that is not met, and nothing is changed. -/
theorem taken_iff_meets (b : Ballot) (c : Chain) :
    (∀ a, Ends (votingPower a c.block.height) c (fun n _ => c.power a = .ok n)
      fun e _ => c.power a = .error e) ∧
    ((∃ d, b.cast c = .ok () d) ↔ ∀ k, b.Meets c k) ∧
    Ends b.cast c
      (fun _ d => ∃ a n, Address.parse b.voter = .ok a ∧ c.power a = .ok n ∧
        c.Takes ⟨b.proposal, a, b.option, n⟩ d)
      fun e d => b.Refused c e ∧ c.Rests d := by
  have hends := cast_ends b c
  refine ⟨fun a => votingPower_tells a c, ⟨?_, fun hmeets => ?_⟩, ?_⟩
  · rintro ⟨d, hd⟩
    exact (hends.of_ok hd).1
  · cases h : b.cast c with
    | ok u d => exact ⟨d, rfl⟩
    | error e d =>
      obtain ⟨k, hk⟩ := (hends.of_error h).1.exists_not_meets
      exact absurd (hmeets k) hk
  · exact hends.mono (fun _ _ h => h.2) fun _ _ h => h

end Ballot

namespace Sample

def ballot : Ballot := ⟨0, proposer.text, .yes⟩

def idleBallot : Ballot := ⟨0, keeper.authority.text, .unspecified⟩

end Sample

theorem ballot_meets :
    (∀ k, Sample.ballot.Meets Sample.counted k) ∧
      Sample.idleBallot.Refused Sample.counted (.request .noOption) := by
  have hcast := exists_ok (x := Sample.ballot.cast) (c := Sample.counted) (a := ()) (by decide +kernel)
  refine ⟨(Ballot.taken_iff_meets _ _).2.1.1 hcast, ?_⟩
  have hfail : (match Sample.idleBallot.cast Sample.counted with
    | .ok .. => none
    | .error e _ => some e) = some (.request .noOption) := by decide +kernel
  cases h : Sample.idleBallot.cast Sample.counted with
  | ok u d =>
    rw [h] at hfail
    cases hfail
  | error e d =>
    rw [h] at hfail
    cases hfail
    exact ((Ballot.taken_iff_meets _ _).2.2.of_error h).1

end DaoGovernance
