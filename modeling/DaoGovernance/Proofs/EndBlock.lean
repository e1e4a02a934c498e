import DaoGovernance.Proofs.Effects
import DaoGovernance.Proofs.Outcome
import DaoGovernance.Proofs.Settlement
import DaoGovernance.Proofs.Tally
import Mathlib

/-!
What the end of a block does: proposal by proposal, the judged record is stored, the outcome is
carried out, the deposit is settled and one event tells the chain.
-/

namespace DaoGovernance

open DaoGovernance.Action
open Ledger (Spares)

/-- A finalized proposal with the ledger before and after its deposit was settled. -/
structure Settled where
  finalized : Finalized
  held : Ledger
  left : Ledger

def Proposal.finish (p : Proposal) (t : Tally) (o : Outcome) : Proposal :=
  { p with tally := t, status := o.status }

@[simp] theorem Proposal.finish_id (p : Proposal) (t : Tally) (o : Outcome) :
    (p.finish t o).id = p.id := rfl

theorem Proposal.Fits.finish {p : Proposal} (h : p.Fits) (t : Tally) (o : Outcome) :
    (p.finish t o).Fits := h

theorem Proposal.not_isOpen_finish (p : Proposal) (t : Tally) (o : Outcome) :
    (p.finish t o).isOpen = false := by
  cases o <;> rfl

def Verdict.Allows : Verdict → Outcome → Prop
  | .uncountable _, o | .undecodable _, o => o = .failed
  | .rejected _, o => o = .rejected
  | .passed _, o => o ≠ .rejected

namespace Keeper

/-- `finalize` with the ledgers around the settlement. -/
def finalizeTraced (k : Keeper) (params : Params) (p : Proposal) : Action Settled := do
  Action.note (.finalizing p.id p.votingEnd (← Action.height))
  let (tally, verdict) := params.judge p ((← get).store.votes p.id)
  Action.note (verdict.notice p.id)
  let judged := { p with tally, status := verdict.status }
  storeVerdict judged
  let o ← k.carryOut params judged verdict
  let held ← get
  let settlement ← k.settle p o (params.heldFor p)
  let left ← get
  Action.emit (.proposalFinished p.id o.status)
  Action.note (.proposalFinished { judged with status := o.status })
  return ⟨⟨p.id, o, settlement⟩, held.ledger, left.ledger⟩

def settledOf (k : Keeper) (params : Params) : List Proposal → Chain → List Settled
  | [], _ => []
  | p :: ps, c =>
    match k.finalizeTraced params p c with
    | .ok s d => s :: k.settledOf params ps d
    | .error _ _ => []

/-- What the end of a block settles at `c`, whether it ends well or not. -/
def settledAt (k : Keeper) (c : Chain) : List Settled :=
  match c.store.params, c.store.proposalRecords with
  | .ok params, .ok records =>
    k.settledOf params (records.filterMap (dueAt c.block.height))
      { c with log := c.log ++ records.filterMap passNotice }
  | _, _ => []

theorem get_bind_const {α : Type} (x : Action α) : ((get : Action Chain) >>= fun _ => x) = x := rfl

theorem finalize_eq (k : Keeper) (params : Params) (p : Proposal) :
    k.finalize params p = (·.finalized) <$> k.finalizeTraced params p := by
  simp only [finalize, finalizeTraced, map_bind, map_pure, get_bind_const]

end Keeper

/-! ### One proposal -/

variable {k : Keeper} {params : Params} {c d : Chain}

structure Chain.Grants (params : Params) (id : UInt64) (v : Verdict) (o : Outcome) (c d : Chain) :
    Prop where
  executed : o = .executed → ∃ content, v = .passed content ∧ c.Enacts params id d content
  kept : o ≠ .executed → c.KeepsGrants d

theorem Chain.Grants.congr {id : UInt64} {v : Verdict} {o : Outcome} {c' d' : Chain}
    (h : c'.Grants params id v o d) (hc : c.KeepsGrants c') (hblock : c'.block = c.block)
    (hview : c'.store.view.failLots = c.store.view.failLots) (hd : d.KeepsGrants d') :
    c.Grants params id v o d' where
  executed ho := by
    obtain ⟨content, hv, he⟩ := h.executed ho
    exact ⟨content, hv, he.congr hc hblock hview hd⟩
  kept ho := (hc.trans (h.kept ho)).trans hd

inductive Keeper.Spends (k : Keeper) (v : Verdict) (l : Ledger) : Outcome → Ledger → Prop
  | rejected : Spends k v l .rejected l
  | failed {l' : Ledger} (h : k.TakesBack l l') : Spends k v l .failed l'
  | executed {content : Content} {l' : Ledger} (hv : v = .passed content)
      (h : k.Pays l content l') : Spends k v l .executed l'

theorem Keeper.Spends.spares {v : Verdict} {o : Outcome} {l l' : Ledger} (h : k.Spends v l o l') :
    Spares k.moduleAccount l l' := by
  cases h with
  | rejected => exact .refl _ l
  | failed h => exact h.spares
  | executed _ h => exact h.spares

theorem tryExecute_ends (params : Params) (hp : c.storeAtPermit = c.store) (id : UInt64)
    (content : Content) :
    Ends (k.tryExecute params id content) c
      (fun o d => o ≠ .rejected ∧ c.Carried d ∧ c.Grants params id (.passed content) o d ∧
        k.Spends (.passed content) c.ledger o d.ledger)
      fun _ _ => False := by
  have he := execute_ends (k := k) params id hp content
  have noted (d : Chain) (n : Notice) : d.Moved { d with log := d.log ++ [n] } :=
    Chain.Quiet.moved (IgnoresLog.log d [n])
  cases h : k.execute params id content c with
  | ok u d =>
    obtain ⟨hd, henacts, hpays⟩ := he.of_ok h
    have hn := noted d (.proposalExecuted id)
    refine .of_step (attempt_of_ok h) ⟨by decide, hd.trans hn.toCarried, ⟨?_, ?_⟩, ?_⟩
    · exact fun _ => ⟨content, rfl, henacts.congr ⟨rfl, rfl⟩ rfl rfl hn.toKeepsGrants⟩
    · exact fun ho => (ho rfl).elim
    · exact .executed rfl hpays
  | error e d =>
    obtain ⟨hd, hback⟩ := he.of_error h
    have hd := hd.trans (noted d (.executionFailed id e))
    refine .of_step (attempt_of_error h) ⟨by decide, hd.toCarried, ⟨nofun, ?_⟩, ?_⟩
    · exact fun _ => hd.toKeepsGrants
    · exact .failed hback

theorem storeVerdict_ends (p : Proposal) :
    Ends (storeVerdict p) c
      (fun _ d => ∃ s, d = { c with store := s } ∧ c.store.view.failProposals = false ∧
        (c.store.Sound → s.Sound) ∧ s.view = c.store.view.put p ∧ s.lotAt = c.store.lotAt)
      fun _ d => c.Logs d ∧ c.store.view.failProposals = true := by
  rcases Store.setProposal_eq c.store p with ⟨hf, e, he⟩ | ⟨hf, s, hs, hsound, hview⟩
  · exact .of_step (attempt_of_error (write_eq_error.2 ⟨he, rfl⟩)) ⟨rfl, hf⟩
  · refine .of_step (attempt_of_ok (a := ()) (write_eq_ok.2 ⟨s, hs, rfl⟩)) ?_
    exact ⟨s, rfl, hf, hsound, hview, (Store.putProposal_becomes (Store.stored_eq_ok.1 hs)).lots⟩

theorem storedVerdict_ends (params : Params) (p : Proposal) :
    Ends (storedVerdict params p) c
      (fun j d => j = params.judged p (c.store.votes p.id) ∧ d.registry = c.registry)
      fun _ d => c.Logs d ∧ c.store.view.failProposals = true := by
  refine .of_step height_apply (.of_step (note_apply _) (.of_step get_apply
    (.of_step (note_apply _) ?_)))
  refine .bind ((storeVerdict_ends _).mono (fun _ _ h => h) fun _ _ h => h) ?_
  rintro _ d - ⟨s, rfl, -⟩
  exact ⟨rfl, rfl⟩

structure CarriedOut (k : Keeper) (params : Params) (p : Proposal) (v : Verdict) (c : Chain)
    (o : Outcome) (d : Chain) : Prop where
  outcome : v.Allows o
  grants : c.Grants params p.id v o d
  view : d.store.view = c.store.view.put { p with status := o.status }
  sound : c.store.Sound → d.store.Sound
  faults : d.faults = c.faults
  block : d.block = c.block
  spends : k.Spends v c.ledger o d.ledger

theorem carryOut_ends {p : Proposal} {v : Verdict} (hw : c.Writable) (hs : p.status = v.status)
    (hstored : c.store.view.put p = c.store.view) :
    Ends (k.carryOut params p v) c (fun o d => CarriedOut k params p v c o d)
      fun _ _ => False := by
  have stays {o : Outcome} (ha : v.Allows o) (hl : k.Spends v c.ledger o c.ledger)
      (hn : o ≠ .executed) (ho : p.status = o.status) : CarriedOut k params p v c o c := by
    refine ⟨ha, ⟨fun he => (hn he).elim, fun _ => ⟨rfl, rfl⟩⟩, ?_, id, rfl, rfl, hl⟩
    rw [← ho, hstored]
  cases v with
  | uncountable e => exact stays rfl (.failed .kept) (by decide) hs
  | undecodable e => exact stays rfl (.failed .kept) (by decide) hs
  | rejected r => exact stays rfl .rejected (by decide) hs
  | passed content =>
    have ht := tryExecute_ends (k := k) params hw.steady p.id content
    refine .bind ht fun o d _ ⟨ho, hd, hgrants, hspends⟩ => ?_
    have hw := hw.works
    rw [← hd.view] at hw
    rcases Store.setProposal_eq d.store { p with status := o.status } with
      ⟨hf, -⟩ | ⟨-, s, hset, hsound, hview⟩
    · rw [hw] at hf
      cases hf
    · have hwrite : storeOutcome { p with status := o.status } d =
          .ok () { d with store := s } := by
        rw [storeOutcome, bind_of_ok (attempt_of_ok (a := ()) (write_eq_ok.2 ⟨s, hset, rfl⟩))]
        rfl
      have hlots := (Store.putProposal_becomes (Store.stored_eq_ok.1 hset)).lots
      refine .of_step hwrite ⟨ho, hgrants.congr ⟨rfl, rfl⟩ rfl rfl ⟨rfl, hlots⟩, ?_,
        hsound ∘ hd.sound, hd.faults, hd.block, hspends⟩
      rw [hview, hd.view]

structure Finalizes (k : Keeper) (params : Params) (p : Proposal) (c : Chain) (s : Settled)
    (d : Chain) : Prop where
  id : s.finalized.id = p.id
  outcome : (params.judge p (c.store.votes p.id)).2.Allows s.finalized.outcome
  grants : c.Grants params p.id (params.judge p (c.store.votes p.id)).2 s.finalized.outcome d
  view : d.store.view = c.store.view.put
    (p.finish (params.judge p (c.store.votes p.id)).1 s.finalized.outcome)
  works : c.store.view.failProposals = false
  votes : c.ListsVotes d
  sound : c.store.Sound → d.store.Sound
  faults : d.faults = c.faults
  block : d.block = c.block.emit (.proposalFinished p.id s.finalized.outcome.status)
  spends : k.Spends (params.judge p (c.store.votes p.id)).2 c.ledger s.finalized.outcome s.held
  settles : k.Settles p (params.heldFor p) s.held s.finalized.outcome s.finalized.settlement s.left
  left : d.ledger = s.left

theorem finalizeTraced_ends (params : Params) (hp : c.storeAtPermit = c.store) (p : Proposal) :
    Ends (k.finalizeTraced params p) c (fun s d => Finalizes k params p c s d)
      fun _ d => c.Logs d ∧ c.store.view.failProposals = true := by
  refine .of_step height_apply (.of_step (note_apply _) (.of_step get_apply ?_))
  dsimp only
  generalize hj : params.judge p (c.store.votes p.id) = j
  refine .of_step (note_apply _) ?_
  refine .bind ((storeVerdict_ends _).mono (fun _ _ h => h) fun _ _ h => h) ?_
  rintro _ d hstore ⟨s, rfl, hw, hsound, hview, hlots⟩
  have hlists := finalizing_listsVotes p
  have hvotes := Within.of_ok (hlists.storeVerdict (hlists.rewrite _ _)) hstore
  have hwritable := Within.of_ok
    ((finalizing_keepsWritable p).storeVerdict (setProposal_keepsWritable _)) hstore ⟨hw, hp⟩
  refine .bind ((carryOut_ends hwritable rfl ?_).mono (fun _ _ h => h) fun _ _ h => h.elim) ?_
  · rw [hview]
    exact Store.View.put_put rfl
  intro o d hcarry hd
  have hvotes := IsTrans.trans _ _ _ hvotes (Within.of_ok (hlists.carryOut params _ _ _) hcarry)
  refine .of_step get_apply ?_
  refine .bind ((settle_ends k p o _ d).mono (fun _ _ h => h) fun _ _ h => h.elim) ?_
  intro t d' hsettle ⟨hs, hq⟩
  have hvotes := IsTrans.trans _ _ _ hvotes (Within.of_ok (hlists.settle _ _ _) hsettle)
  refine .of_step get_apply (.of_step (emit_apply _) (.of_step (note_apply _) ?_))
  refine ⟨rfl, hj ▸ hd.outcome, ?_, ?_, hw, hvotes, hq.sound ∘ hd.sound ∘ hsound,
    hq.faults.trans hd.faults, ?_, hj ▸ hd.spends, hs, rfl⟩
  · rw [hj]
    exact hd.grants.congr ⟨rfl, hlots⟩ rfl (by rw [hview]; rfl) ⟨hq.registry, hq.lots⟩
  · change d'.store.view = _
    rw [hq.view, hd.view, hview, hj]
    exact Store.View.put_put rfl
  · change d'.block.emit _ = _
    rw [hq.block, hd.block]

theorem Finalizes.held {p : Proposal} {s : Settled} (h : Finalizes k params p c s d) :
    Spares k.moduleAccount c.ledger s.held :=
  h.spends.spares

theorem Finalizes.proposals {p : Proposal} {s : Settled} (h : Finalizes k params p c s d) :
    d.store.view.proposals = (c.store.view.put
      (p.finish (params.judge p (c.store.votes p.id)).1 s.finalized.outcome)).proposals := by
  rw [h.view]

theorem Finalizes.enacts {p : Proposal} {s : Settled} (h : Finalizes k params p c s d)
    (ho : s.finalized.outcome = .executed) :
    ∃ content, p.content.unpack = .ok content ∧ c.Enacts params p.id d content := by
  obtain ⟨content, hv, he⟩ := h.grants.executed ho
  exact ⟨content, Params.unpack_of_judge hv, he⟩

/-! ### The pass over all due proposals -/

inductive Passes (k : Keeper) (params : Params) :
    List Proposal → Chain → List Settled → Chain → Prop
  | nil {c : Chain} : Passes k params [] c [] c
  | cons {p : Proposal} {ps : List Proposal} {c c' d : Chain} {s : Settled} {ss : List Settled}
      (h : Finalizes k params p c s c') (hs : Passes k params ps c' ss d) :
      Passes k params (p :: ps) c (s :: ss) d

theorem Keeper.finalize_of_traced {p : Proposal} {s : Settled}
    (h : k.finalizeTraced params p c = .ok s d) : k.finalize params p c = .ok s.finalized d := by
  rw [finalize_eq]
  exact map_eq_ok.2 ⟨s, h, rfl⟩

theorem Finalizes.writable {p : Proposal} {s : Settled} (h : Finalizes k params p c s d)
    (hp : c.storeAtPermit = c.store) (hx : k.finalizeTraced params p c = .ok s d) : d.Writable := by
  have hkeeps := (finalizing_keepsWritable p).finalize (k := k) params
  exact Within.of_ok hkeeps (Keeper.finalize_of_traced hx) ⟨h.works, hp⟩

theorem exists_finalizes (hc : c.Writable) (params : Params) (p : Proposal) :
    ∃ s d, k.finalizeTraced params p c = .ok s d ∧ Finalizes k params p c s d ∧ d.Writable := by
  have he := finalizeTraced_ends (k := k) params hc.steady p
  cases hx : k.finalizeTraced params p c with
  | ok s d =>
    have hs := he.of_ok hx
    exact ⟨s, d, rfl, hs, hs.writable hc.steady hx⟩
  | error e d =>
    have hf := (he.of_error hx).2
    rw [hc.works] at hf
    cases hf

theorem finalizeAll_ends (hp : c.storeAtPermit = c.store) (ps : List Proposal) :
    Ends (k.finalizeAll params ps) c
      (fun fs d => Passes k params ps c (k.settledOf params ps c) d ∧
        fs = (k.settledOf params ps c).map (·.finalized))
      fun _ d => ∃ qs c', qs <+: ps ∧ Passes k params qs c (k.settledOf params ps c) c' ∧
        c'.Quiet d := by
  induction ps generalizing c with
  | nil => exact ⟨.nil, rfl⟩
  | cons p ps ih =>
    have hs := finalizeTraced_ends (k := k) params hp p
    rw [Keeper.finalizeAll, Keeper.settledOf, Keeper.finalize_eq]
    cases hx : k.finalizeTraced params p c with
    | error e d =>
      have hd := (hs.of_error hx).1.quiet
      exact .of_fail (map_eq_error.2 hx) ⟨[], c, List.nil_prefix, .nil, hd⟩
    | ok s c' =>
      have hs := hs.of_ok hx
      have hp' := (hs.writable hp hx).steady
      refine .of_step (map_eq_ok.2 ⟨s, hx, rfl⟩) (.bind ((ih hp').mono (fun _ _ h => h) ?_) ?_)
      · rintro e d ⟨qs, c'', hqs, hss, hd⟩
        exact ⟨p :: qs, c'', List.cons_prefix_cons.2 ⟨rfl, hqs⟩, .cons hs hss, hd⟩
      · rintro fs d - ⟨hss, rfl⟩
        exact ⟨.cons hs hss, rfl⟩

structure Due (c : Chain) (ps : List Proposal) : Prop where
  nodup : (ps.map (·.id)).Nodup
  stored : ∀ p ∈ ps, c.store.view.proposal p.id = some p
  isOpen : ∀ p ∈ ps, p.isOpen = true
  isClosed : ∀ p ∈ ps, p.isClosedAt c.block.height = true

theorem Due.of_prefix {ps qs : List Proposal} (h : Due c ps) (hq : qs <+: ps) : Due c qs where
  nodup := h.nodup.sublist (hq.sublist.map _)
  stored p hp := h.stored p (hq.subset hp)
  isOpen p hp := h.isOpen p (hq.subset hp)
  isClosed p hp := h.isClosed p (hq.subset hp)

theorem dueAt_eq_some {h : Height} {r : Store.ProposalRecord} {p : Proposal} :
    dueAt h r = some p ↔ r.2 = .ok p ∧ p.isOpen = true ∧ p.isClosedAt h = true := by
  obtain ⟨id, q | q⟩ := r
  · simp [dueAt]
  · by_cases hq : q.isOpen = true ∧ q.isClosedAt h = true
    · simp only [dueAt, hq, Bool.and_self, if_true, Option.some.injEq, Except.ok.injEq]
      constructor
      · rintro rfl
        exact ⟨rfl, hq⟩
      · exact fun hp => hp.1
    · have hf : (q.isOpen && q.isClosedAt h) = false := by simpa using hq
      simp only [dueAt, hf, Except.ok.injEq, Bool.false_eq_true, if_false, reduceCtorEq, false_iff]
      rintro ⟨rfl, hp⟩
      exact hq hp

theorem due_sublist {rs : List Store.ProposalRecord} {h : Height}
    (hid : ∀ id p, (id, .ok p) ∈ rs → p.id = id) :
    ((rs.filterMap (dueAt h)).map (·.id)).Sublist (rs.map (·.1)) := by
  induction rs with
  | nil => exact List.nil_sublist _
  | cons r rs ih =>
    have ih := ih fun id p hp => hid id p (List.mem_cons_of_mem _ hp)
    rw [List.filterMap_cons]
    cases hd : dueAt h r with
    | none => exact ih.cons _
    | some p =>
      obtain ⟨id, q⟩ := r
      obtain ⟨rfl, -⟩ := dueAt_eq_some.1 hd
      rw [List.map_cons, hid id p List.mem_cons_self]
      exact ih.cons_cons id

theorem mem_due {rs : List Store.ProposalRecord}
    (hid : ∀ id p, (id, .ok p) ∈ rs → p.id = id) {h : Height} {p : Proposal} :
    p ∈ rs.filterMap (dueAt h) ↔
      (p.id, .ok p) ∈ rs ∧ p.isOpen = true ∧ p.isClosedAt h = true := by
  rw [List.mem_filterMap]
  constructor
  · rintro ⟨⟨id, q⟩, hr, hd⟩
    obtain ⟨rfl, hp⟩ := dueAt_eq_some.1 hd
    rw [hid id p hr]
    exact ⟨hr, hp⟩
  · rintro ⟨hr, hp⟩
    exact ⟨_, hr, dueAt_eq_some.2 ⟨rfl, hp⟩⟩

theorem due_of_records {rs : List Store.ProposalRecord} (howned : c.store.view.Owned)
    (hn : (rs.map (·.1)).Nodup)
    (hm : ∀ id p, (id, .ok p) ∈ rs → c.store.view.proposal id = some p) :
    Due c (rs.filterMap (dueAt c.block.height)) := by
  have hid : ∀ id p, (id, .ok p) ∈ rs → p.id = id := fun id p hp => howned id p (hm id p hp)
  refine ⟨hn.sublist (due_sublist hid), ?_, ?_, ?_⟩
  · exact fun p hp => hm _ _ ((mem_due hid).1 hp).1
  · exact fun p hp => ((mem_due hid).1 hp).2.1
  · exact fun p hp => ((mem_due hid).1 hp).2.2

theorem endBlock_of_records {records : List Store.ProposalRecord}
    (hparams : c.store.params = .ok params) (hrecords : c.store.proposalRecords = .ok records) :
    k.endBlock c = k.finalizeAll params (records.filterMap (dueAt c.block.height))
      { c with log := c.log ++ records.filterMap passNotice } := by
  rw [Keeper.endBlock, bind_of_ok (read_eq_ok.2 ⟨hparams, rfl⟩),
    bind_of_ok (read_eq_ok.2 ⟨hrecords, rfl⟩), bind_of_ok (noteAll_apply _),
    bind_of_ok height_apply]

/-- The block ended at `c`, and `ss` were finalized on the way to `d`. -/
inductive EndsBlock (k : Keeper) (c : Chain) : List Settled → Chain → Prop
  | quiet {d : Chain} (h : c.Quiet d) : EndsBlock k c [] d
  | passes {params : Params} {ps : List Proposal} {ss : List Settled} {c' d d' : Chain}
      (hparams : c.store.params = .ok params) (hdue : Due c ps) (hc : c.Quiet c')
      (hp : Passes k params ps c' ss d) (hd : d.Quiet d') : EndsBlock k c ss d'

theorem endBlock_ends (hp : c.storeAtPermit = c.store) (hs : c.store.Sound)
    (howned : c.store.view.Owned) :
    Ends k.endBlock c
      (fun fs d => EndsBlock k c (k.settledAt c) d ∧ fs = (k.settledAt c).map (·.finalized))
      fun _ d => EndsBlock k c (k.settledAt c) d := by
  obtain ⟨rs, hrs, hasc, hm⟩ := Store.proposalRecords_eq hs.proposalsKeyed
  cases hparams : c.store.params with
  | error e =>
    refine .of_fail (read_eq_error.2 ⟨hparams, rfl⟩) ?_
    rw [Keeper.settledAt, hparams]
    exact .quiet (refl c)
  | ok params =>
    have hsettled : k.settledAt c = k.settledOf params (rs.filterMap (dueAt c.block.height))
        { c with log := c.log ++ rs.filterMap passNotice } := by
      simp only [Keeper.settledAt, hparams, hrs]
    have hdue := due_of_records howned hasc.nodup_keys fun id p => (hm id p).1
    have hc : c.Quiet { c with log := c.log ++ rs.filterMap passNotice } := Within.noteAll _ c
    rw [hsettled]
    unfold Ends
    rw [endBlock_of_records hparams hrs]
    refine Ends.mono (finalizeAll_ends ?_ _) ?_ ?_
    · exact hp
    · exact fun fs d h => ⟨.passes hparams hdue hc h.1 (refl d), h.2⟩
    · rintro e d ⟨qs, d', hq, h, hd⟩
      exact .passes hparams (hdue.of_prefix hq) hc h hd

end DaoGovernance
