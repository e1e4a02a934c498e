import DaoGovernance.Proofs.EndBlock
import DaoGovernance.Proofs.Submission
import DaoGovernance.Proofs.Voting
import Mathlib

/-!
Runs: governance operations, new blocks and incidents around governance, in any order.  A history
keeps the chain before and after every operation, and one lemma tells what an operation can do.
-/

namespace DaoGovernance

open DaoGovernance.Action

inductive Incident
  | fund (account : Address) (coin : Coin)
  | pinSupply (denom : String) (amount : Amount)
  | blockRecipient (account : Address)
  | failMints (on : Bool)
  | failBurns (on : Bool)
  | failPermits (on : Bool)
  | failSupply (on : Bool)
  | failBalance (on : Bool)
  | failPermitQuery (on : Bool)
  | failScan (id : UInt64)
  | failLots (on : Bool)
  | failProposals (on : Bool)
  | preload (label : String)

def Incident.apply (c : Chain) : Incident → Chain
  | .fund a coin => { c with ledger := c.ledger.fund a coin }
  | .pinSupply d a => { c with ledger := c.ledger.pinSupply d a }
  | .blockRecipient a => { c with ledger := c.ledger.blockRecipient a }
  | .failMints on => { c with ledger := { c.ledger with failMints := on } }
  | .failBurns on => { c with ledger := { c.ledger with failBurns := on } }
  | .failPermits on => { c with registry := { c.registry with failPermits := on } }
  | .failSupply on => { c with faults := { c.faults with supply := on } }
  | .failBalance on => { c with faults := { c.faults with balance := on } }
  | .failPermitQuery on => { c with faults := { c.faults with permitQuery := on } }
  | .failScan id =>
    { c with store := c.store.switch fun s => { s with failingScans := id :: s.failingScans } }
  | .failLots on => { c with store := c.store.switch fun s => { s with failLotWrites := on } }
  | .failProposals on =>
    { c with store := c.store.switch fun s => { s with failProposalWrites := on } }
  | .preload l => { c with registry := c.registry.preload l }

inductive Operation
  | submit (s : Submission)
  | vote (id : UInt64) (voter : String) (option : VoteOption)
  | endBlock
  | updateParams (authority : String) (p : Params)
  | moveTo (h : Height)
  | incident (i : Incident)

inductive Reply
  | submitted (id : UInt64)
  | finalized (fs : List Finalized)
  | done
  deriving DecidableEq

namespace Operation

def act (k : Keeper) : Operation → Action Reply
  | .submit s => .submitted <$> k.submit s
  | .vote id voter option => (fun _ => .done) <$> castVote id voter option
  | .endBlock => .finalized <$> k.endBlock
  | .updateParams authority p => (fun _ => .done) <$> k.updateParams authority p
  | .moveTo h => (fun _ => .done) <$> modify fun c => { c with block := c.block.moveTo h }
  | .incident i => (fun _ => .done) <$> modify fun c => i.apply c

def Fits : Operation → Prop
  | .submit s => s.Fits
  | .updateParams _ p => p.Fits
  | _ => True

end Operation

structure Moment where
  operation : Operation
  before : Chain
  result : Except GovernanceError Reply
  after : Chain

namespace Moment

def finalized (m : Moment) : List Finalized :=
  match m.result with
  | .ok (.finalized fs) => fs
  | _ => []

def events (m : Moment) : List Event :=
  m.after.block.events.drop m.before.block.events.length

end Moment

namespace Keeper

/-- What was settled, reported or not. -/
def settled (k : Keeper) (m : Moment) : List Settled :=
  match m.operation with
  | .endBlock => k.settledAt m.before
  | _ => []

def moment (k : Keeper) (op : Operation) (c : Chain) : Moment :=
  match op.act k c with
  | .ok r d => ⟨op, c, .ok r, d⟩
  | .error e d => ⟨op, c, .error e, d⟩

def history (k : Keeper) : List Operation → Chain → List Moment
  | [], _ => []
  | op :: ops, c => k.moment op c :: k.history ops (k.moment op c).after

def after (k : Keeper) : List Operation → Chain → Chain
  | [], c => c
  | op :: ops, c => k.after ops (k.moment op c).after

@[simp] theorem moment_before (k : Keeper) (op : Operation) (c : Chain) :
    (k.moment op c).before = c := by
  unfold moment
  split <;> rfl

@[simp] theorem moment_operation (k : Keeper) (op : Operation) (c : Chain) :
    (k.moment op c).operation = op := by
  unfold moment
  split <;> rfl

theorem act_of_result {k : Keeper} {op : Operation} {c : Chain} {r : Reply}
    (h : (k.moment op c).result = .ok r) : op.act k c = .ok r (k.moment op c).after := by
  unfold moment at h ⊢
  cases hx : op.act k c with
  | ok r' d =>
    rw [hx] at h
    cases h
    rfl
  | error e d =>
    rw [hx] at h
    cases h

theorem submit_of_result {k : Keeper} {op : Operation} {c : Chain} {id : UInt64}
    (h : (k.moment op c).result = .ok (.submitted id)) :
    ∃ s, op = .submit s ∧ k.submit s c = .ok id (k.moment op c).after := by
  have hact := act_of_result h
  cases op with
  | submit s =>
    obtain ⟨id', hx, hid⟩ := map_eq_ok.1 hact
    cases hid
    exact ⟨s, rfl, hx⟩
  | _ =>
    obtain ⟨_, -, hid⟩ := map_eq_ok.1 hact
    cases hid

theorem mem_settled {k : Keeper} {op : Operation} {c : Chain} {s : Settled} :
    s ∈ k.settled (k.moment op c) ↔ op = .endBlock ∧ s ∈ k.settledAt c := by
  unfold settled
  rw [moment_operation, moment_before]
  cases op <;> simp

theorem after_append (k : Keeper) (ops ops' : List Operation) (c : Chain) :
    k.after (ops ++ ops') c = k.after ops' (k.after ops c) := by
  induction ops generalizing c with
  | nil => rfl
  | cons op ops ih => exact ih _

theorem history_append (k : Keeper) (ops ops' : List Operation) (c : Chain) :
    k.history (ops ++ ops') c = k.history ops c ++ k.history ops' (k.after ops c) := by
  induction ops generalizing c with
  | nil => rfl
  | cons op ops ih =>
    simp only [List.cons_append, history, after]
    rw [ih]

theorem mem_history {k : Keeper} {ops : List Operation} {c : Chain} {m : Moment} :
    m ∈ k.history ops c ↔
      ∃ ops₁ op ops₂, ops = ops₁ ++ op :: ops₂ ∧ m = k.moment op (k.after ops₁ c) := by
  constructor
  · intro h
    induction ops generalizing c with
    | nil => cases h
    | cons op ops ih =>
      rcases List.mem_cons.1 h with rfl | h
      · exact ⟨[], op, ops, rfl, rfl⟩
      · obtain ⟨ops₁, op', ops₂, rfl, hm⟩ := ih h
        exact ⟨op :: ops₁, op', ops₂, rfl, hm⟩
  · rintro ⟨ops₁, op, ops₂, rfl, rfl⟩
    simp [history_append, history]

theorem history_induction {k : Keeper} {P : List Moment → Chain → Prop} {ops : List Operation}
    {c : Chain} (start : P [] c)
    (step : ∀ ms op c, op ∈ ops → P ms c → P (ms ++ [k.moment op c]) (k.moment op c).after) :
    P (k.history ops c) (k.after ops c) := by
  induction ops using List.reverseRecOn with
  | nil => exact start
  | append_singleton ops op ih =>
    rw [history_append, after_append]
    exact step _ _ _ (by simp) (ih fun ms op c hop => step ms op c (by simp [hop]))

end Keeper

/-! ### What an operation can do -/

def Settled.event (s : Settled) : Event :=
  .proposalFinished s.finalized.id s.finalized.outcome.status

variable {k : Keeper} {params : Params} {c d : Chain}

theorem Passes.events {ps : List Proposal} {ss : List Settled} (h : Passes k params ps c ss d) :
    d.block.events = c.block.events ++ ss.map Settled.event := by
  induction h with
  | nil => simp
  | cons h _ ih => simp [ih, h.block, h.id, Block.emit, Settled.event]

theorem EndsBlock.events {ss : List Settled} (h : EndsBlock k c ss d) :
    d.block.events = c.block.events ++ ss.map Settled.event := by
  cases h with
  | quiet h => simp [h.block]
  | passes _ _ hc hp hd => rw [hd.block, hp.events, hc.block]

/-- What an operation at `c` can do: the events it adds, the proposals it reports as finalized and
the chain it leaves. -/
inductive Changes (k : Keeper) (c : Chain) :
    Operation → List Event → List Finalized → Chain → Prop
  | opened {s : Submission} {p : Proposal} {d : Chain} {kind : String} {proposer : Address}
      (h : Opens k s c p d) (hid : k.submit s c = .ok p.id d) :
      Changes k c (.submit s) [.proposalSubmitted p.id kind proposer] [] d
  | refused {s : Submission} {d : Chain} (h : Refuses k c d) : Changes k c (.submit s) [] [] d
  | cast {id : UInt64} {voter : String} {option : VoteOption} {v : Vote} {d : Chain}
      (h : Casts c v d) : Changes k c (.vote id voter option) [.voteCast v] [] d
  | ended {fs : List Finalized} {d : Chain} (h : EndsBlock k c (k.settledAt c) d)
      (hfs : fs = [] ∨ fs = (k.settledAt c).map (·.finalized)) :
      Changes k c .endBlock ((k.settledAt c).map Settled.event) fs d
  | updated {p : Params} {d : Chain} (hv : p.validate = .ok ())
      (hd : { c with store := c.store.putParams p.encode }.Quiet d) :
      Changes k c (.updateParams k.authority.text p) [] [] d
  | moved {h : Height} : Changes k c (.moveTo h) [] [] { c with block := c.block.moveTo h }
  | incident {i : Incident} : Changes k c (.incident i) [] [] (i.apply c)
  | quiet {op : Operation} {d : Chain} (h : c.Quiet d) : Changes k c op [] [] d

theorem updateParams_ends (authority : String) (p : Params) :
    Ends (k.updateParams authority p) c
      (fun _ d => authority = k.authority.text ∧ p.validate = .ok () ∧
        { c with store := c.store.putParams p.encode }.Quiet d)
      fun _ d => c.Quiet d := by
  rw [Keeper.updateParams]
  dsimp only
  split
  · exact refl c
  · rename_i ha
    cases hv : p.validate with
    | ok u =>
      refine .of_step (a := ()) (write_eq_ok.2 ⟨c.store.putParams p.encode, ?_, rfl⟩) ?_
      · rw [Store.setParams, hv]
      · exact ⟨not_not.1 ha, rfl, Within.note _ _⟩
    | error e =>
      refine .of_fail (e := .ofInvalidValue e) (write_eq_error.2 ⟨?_, rfl⟩) (refl c)
      rw [Store.setParams, hv]

theorem Moment.events_eq {m : Moment} {es : List Event}
    (h : m.after.block.events = m.before.block.events ++ es) : m.events = es := by
  rw [events, h, List.drop_left]

theorem Moment.events_of_block_eq {m : Moment} (h : m.after.block = m.before.block) :
    m.events = [] :=
  events_eq (by rw [h, List.append_nil])

theorem endsBlock_moment (hp : c.faults.permitStopsWrites = false) (hs : c.store.Sound)
    (howned : c.store.view.Owned) :
    EndsBlock k c (k.settledAt c) (k.moment .endBlock c).after := by
  have he := endBlock_ends (k := k) (Chain.storeAtPermit_of_steady hp) hs howned
  unfold Keeper.moment
  cases h : Operation.endBlock.act k c with
  | ok r d =>
    obtain ⟨fs, hx, -⟩ := map_eq_ok.1 h
    exact (he.of_ok hx).1
  | error e d => exact he.of_error (map_eq_error.1 h)

/-- The one thing that every invariant of runs is checked against. -/
theorem changes (hp : c.faults.permitStopsWrites = false) (hs : c.store.Sound)
    (howned : c.store.view.Owned) (op : Operation) :
    Changes k c op (k.moment op c).events (k.moment op c).finalized (k.moment op c).after := by
  cases h : op.act k c with
  | ok r d =>
    simp only [Keeper.moment, h]
    cases op with
    | submit s =>
      obtain ⟨id, hx, rfl⟩ := map_eq_ok.1 h
      obtain ⟨p, rfl, ho⟩ := (submit_ends hs s).of_ok hx
      obtain ⟨kind, proposer, hb⟩ := ho.block
      rw [Moment.events_eq (congrArg Block.events hb)]
      exact .opened ho hx
    | vote id voter option =>
      obtain ⟨u, hx, rfl⟩ := map_eq_ok.1 h
      obtain ⟨v, hv⟩ := (castVote_ends id voter option c).of_ok hx
      rw [Moment.events_eq (congrArg Block.events hv.block)]
      exact .cast hv
    | endBlock =>
      obtain ⟨fs, hx, rfl⟩ := map_eq_ok.1 h
      obtain ⟨he, rfl⟩ := (endBlock_ends (Chain.storeAtPermit_of_steady hp) hs howned).of_ok hx
      rw [Moment.events_eq he.events]
      exact .ended he (.inr rfl)
    | updateParams authority p =>
      obtain ⟨u, hx, rfl⟩ := map_eq_ok.1 h
      obtain ⟨rfl, hv, hd⟩ := (updateParams_ends authority p).of_ok hx
      rw [Moment.events_of_block_eq hd.block]
      exact .updated hv hd
    | moveTo height =>
      cases h
      rw [Moment.events, List.drop_eq_nil_of_le (Nat.zero_le _)]
      exact .moved
    | incident i =>
      cases h
      rw [Moment.events_of_block_eq (by cases i <;> rfl)]
      exact .incident
  | error e d =>
    simp only [Keeper.moment, h]
    cases op with
    | submit s =>
      have hr := (submit_ends hs s).of_error (map_eq_error.1 h)
      rw [Moment.events_of_block_eq hr.block]
      exact .refused hr
    | vote id voter option =>
      have hq := (castVote_ends id voter option c).of_error (map_eq_error.1 h)
      rw [Moment.events_of_block_eq hq.block]
      exact .quiet hq
    | endBlock =>
      have he := (endBlock_ends (Chain.storeAtPermit_of_steady hp) hs howned).of_error
        (map_eq_error.1 h)
      rw [Moment.events_eq he.events]
      exact .ended he (.inl rfl)
    | updateParams authority p =>
      have hq := (updateParams_ends authority p).of_error (map_eq_error.1 h)
      rw [Moment.events_of_block_eq hq.block]
      exact .quiet hq
    | moveTo height => cases h
    | incident i => cases h

/-! ### A short run -/

namespace Sample

def keeper : Keeper := ⟨⟨"dns1qqqqqqqq", by decide⟩, Keeper.defaultAccount⟩

def proposer : Address := ⟨"dns1pppppppp", by decide⟩

def submission : Submission :=
  ⟨proposer.text, "New label", "", some (Content.addLabel "foo").pack, .empty⟩

/-- The proposer pays the deposit for a label and votes for it, and the voting ends. -/
def voting : List Operation := [
  .incident (.fund proposer ⟨"stake", 100000000⟩),
  .incident (.fund proposer ⟨"udnsc", 5⟩),
  .submit submission,
  .vote 0 proposer.text .yes,
  .moveTo ⟨501⟩]

def operations : List Operation := voting ++ [.endBlock, .endBlock]

theorem operations_fit : ∀ op ∈ operations, op.Fits := by
  intro op hop
  fin_cases hop <;> try exact trivial
  refine ⟨?_, ?_, ?_⟩
  · decide
  · decide
  · rintro e ⟨⟩
    decide

end Sample

end DaoGovernance
