import DaoGovernance.Proofs.Collision
import DaoGovernance.Proofs.Retry
import Mathlib

/-!
Proposals that are finalized in one pass do not get in each other's way.  Each is judged by its own
record, its own votes and the params, as they were before the pass.
-/

namespace DaoGovernance

open DaoGovernance.Action

variable {k : Keeper} {params : Params} {c d : Chain} {p : Proposal} {id : UInt64}

namespace Keeper

/-- The records that a pass stores before it carries them out, each with its verdict. -/
def decisionsOf (k : Keeper) (params : Params) : List Proposal → Chain → List (Proposal × Verdict)
  | [], _ => []
  | p :: ps, c =>
    (answer (storedVerdict params p c)).toList ++
      match k.finalize params p c with
      | .ok _ d => k.decisionsOf params ps d
      | .error _ _ => []

def decisionsAt (k : Keeper) (c : Chain) : List (Proposal × Verdict) :=
  match c.store.params, c.store.proposalRecords with
  | .ok params, .ok records =>
    k.decisionsOf params (records.filterMap (dueAt c.block.height))
      { c with log := c.log ++ records.filterMap passNotice }
  | _, _ => []

end Keeper

/-! ### One proposal -/

theorem answer_storedVerdict (hc : c.Writable) (params : Params) (p : Proposal) :
    answer (storedVerdict params p c) = some (params.judged p (c.store.votes p.id)) := by
  have he := storedVerdict_ends (c := c) params p
  cases hx : storedVerdict params p c with
  | ok j d =>
    rw [(he.of_ok hx).1]
    rfl
  | error e d =>
    have hf := (he.of_error hx).2
    rw [hc.works] at hf
    cases hf

structure Decided (params : Params) (p : Proposal) (r : Except GovernanceError (List Vote))
    (f : Finalized) (d : Chain) : Prop where
  id : f.id = p.id
  outcome : (params.judge p r).2.Allows f.outcome
  stored : d.store.proposal p.id = .ok (p.finish (params.judge p r).1 f.outcome)

/-! ### The pass -/

theorem decisionsOf_eq (hc : c.Writable) (ps : List Proposal) :
    k.decisionsOf params ps c = ps.map fun p => params.judged p (c.store.votes p.id) := by
  induction ps generalizing c with
  | nil => rfl
  | cons p ps ih =>
    obtain ⟨s, d, hs, hf, hd⟩ := exists_finalizes (k := k) hc params p
    have hvotes : (fun q : Proposal => params.judged q (d.store.votes q.id)) =
        fun q => params.judged q (c.store.votes q.id) := by
      funext q
      rw [hf.votes.votes]
    rw [Keeper.decisionsOf, answer_storedVerdict hc, Keeper.finalize_of_traced hs]
    dsimp only
    rw [ih hd, hvotes]
    rfl

namespace Passes

variable {ps : List Proposal} {ss : List Settled}

theorem ids (h : Passes k params ps c ss d) :
    ss.map (fun s => s.finalized.id) = ps.map (·.id) := by
  induction h with
  | nil => rfl
  | cons h _ ih => rw [List.map_cons, List.map_cons, h.id, ih]

theorem proposals_of_notMem (h : Passes k params ps c ss d) (hid : id ∉ ps.map (·.id)) :
    d.store.view.proposals id = c.store.view.proposals id := by
  induction h with
  | nil => rfl
  | cons h _ ih =>
    rw [List.map_cons, List.mem_cons, not_or] at hid
    rw [ih hid.2, h.proposals_of_ne hid.1]

theorem decided (h : Passes k params ps c ss d) (hn : (ps.map (·.id)).Nodup)
    (hfits : ∀ p ∈ ps, p.Fits) :
    List.Forall₂ (fun p s => Decided params p (c.store.votes p.id) s.finalized d) ps ss := by
  induction h with
  | nil => exact .nil
  | @cons p ps c c' d s ss h hs ih =>
    rw [List.map_cons, List.nodup_cons] at hn
    obtain ⟨hp, hps⟩ := List.forall_mem_cons.1 hfits
    refine .cons ⟨h.id, h.outcome, ?_⟩ ?_
    · rw [Store.proposal_eq_ok, Store.View.proposal_congr (hs.proposals_of_notMem hn.1), h.view]
      exact Store.View.proposal_put_self (hp.finish _ _)
    · refine (ih hn.2 hps).imp fun q s hq => ?_
      rwa [h.votes.votes] at hq

end Passes

/-! ### The end of a block -/

/-- Params can be read and proposals written, and each proposal that can be read is under its own
id.  Any other record may be anything. -/
structure Chain.Passable (params : Params) (c : Chain) : Prop where
  params : c.store.params = .ok params
  keyed : c.store.ProposalsKeyed
  owned : ∀ id p, c.store.proposal id = .ok p → p.id = id
  writable : c.Writable

theorem Chain.WellKept.passable (hc : c.WellKept) (hparams : c.store.params = .ok params)
    (hworks : c.store.view.failProposals = false) : c.Passable params where
  params := hparams
  keyed := hc.sound.proposalsKeyed
  owned id p hp := hc.owned id p (Store.proposal_eq_ok.1 hp)
  writable := ⟨hworks, storeAtPermit_of_steady hc.steady⟩

/-- The pass at `c` finalized what was due, in order, and each for itself. -/
structure Keeper.Isolates (k : Keeper) (params : Params) (c : Chain) (fs : List Finalized)
    (d : Chain) : Prop where
  ascending : (fs.map (·.id)).Pairwise (· < ·)
  due : ∀ id, id ∈ fs.map (·.id) ↔
    ∃ p, c.store.proposal id = .ok p ∧ p.isOpen = true ∧ p.isClosedAt c.block.height = true
  events : d.block.events =
    c.block.events ++ fs.map fun f => .proposalFinished f.id f.outcome.status
  decided : List.Forall₂ (fun j f => j.1.id = f.id ∧ j.2.Allows f.outcome ∧
    d.store.proposal f.id = .ok { j.1 with status := f.outcome.status }) (k.decisionsAt c) fs
  own : ∀ j ∈ k.decisionsAt c, ∃ p, c.store.proposal p.id = .ok p ∧
    j = params.judged p (c.store.votes p.id)

theorem Keeper.Isolates.ids {fs : List Finalized} (h : k.Isolates params c fs d) :
    (k.decisionsAt c).map (·.1.id) = fs.map (·.id) := by
  rw [← List.forall₂_eq_eq_eq, List.forall₂_map_left_iff, List.forall₂_map_right_iff]
  exact h.decided.imp fun _ _ hj => hj.1

/-- The stores have the same record of a proposal and list the same votes on it. -/
structure Store.SameCase (id : UInt64) (s t : Store) : Prop where
  record : t.getProposal id = s.getProposal id
  votes : t.votesOn id = s.votesOn id

theorem Store.SameCase.of_records {s t : Store} (hs : s.VotesKeyed) (ht : t.VotesKeyed)
    (hrecord : t.getProposal id = s.getProposal id)
    (hvotes : ∀ a, t.getVote id a = s.getVote id a)
    (hscan : t.view.failScan id = s.view.failScan id) : s.SameCase id t where
  record := hrecord
  votes := by
    apply votesOn_congr hs ht _ hscan
    intro a
    rw [← getVote_eq, hvotes, getVote_eq]

theorem Store.SameCase.proposal {s t : Store} (h : s.SameCase id t) :
    t.proposal id = s.proposal id := by
  rw [Store.proposal, Store.proposal?, h.record, Store.proposal, Store.proposal?]

theorem Store.SameCase.judged {s t : Store} (h : s.SameCase p.id t) :
    params.judged p (t.votes p.id) = params.judged p (s.votes p.id) := by
  rw [Store.votes, h.votes, Store.votes]

theorem Chain.Passable.due (hc : c.Passable params) :
    ∃ rs, c.store.proposalRecords = .ok rs ∧
      ((rs.filterMap (dueAt c.block.height)).map (·.id)).Pairwise (· < ·) ∧
      ∀ p, p ∈ rs.filterMap (dueAt c.block.height) ↔
        c.store.proposal p.id = .ok p ∧ p.isOpen = true ∧ p.isClosedAt c.block.height = true := by
  obtain ⟨rs, hrs, hasc, hm⟩ := Store.proposalRecords_eq hc.keyed
  have hid : ∀ id p, (id, .ok p) ∈ rs → p.id = id := fun id p hp =>
    hc.owned id p (Store.proposal_eq_ok.2 ((hm id p).1 hp))
  refine ⟨rs, hrs, ?_, fun p => ?_⟩
  · have hkeys : (rs.map (·.1)).Pairwise (· < ·) := by
      rw [List.pairwise_map]
      exact hasc.imp fun h => UInt64.lt_iff_toNat_lt.2 (of_decide_eq_true h)
    exact hkeys.sublist (due_sublist hid)
  · rw [mem_due hid, hm, Store.proposal_eq_ok]

theorem Chain.Passable.passes (hc : c.Passable params) (k : Keeper) :
    ∃ ps ss d, k.endBlock c = .ok (ss.map (·.finalized)) d ∧
      k.decisionsAt c = ps.map (fun p => params.judged p (c.store.votes p.id)) ∧
      (∃ c', c.Logs c' ∧ Passes k params ps c' ss d) ∧ (ps.map (·.id)).Pairwise (· < ·) ∧
      ∀ p, p ∈ ps ↔
        c.store.proposal p.id = .ok p ∧ p.isOpen = true ∧ p.isClosedAt c.block.height = true := by
  obtain ⟨rs, hrs, hasc, hm⟩ := hc.due
  have hw : Chain.Writable { c with log := c.log ++ rs.filterMap passNotice } :=
    ⟨hc.writable.works, hc.writable.steady⟩
  obtain ⟨fs, d, hfs⟩ := finalizeAll_eq_ok k params hw _
  obtain ⟨hpass, rfl⟩ := (finalizeAll_ends hw.steady _).of_ok hfs
  refine ⟨_, _, d, ?_, ?_, ⟨_, IgnoresLog.log c _, hpass⟩, hasc, hm⟩
  · rw [endBlock_of_records hc.params hrs]
    exact hfs
  · simp only [Keeper.decisionsAt, hc.params, hrs]
    exact decisionsOf_eq hw _

theorem Passes.isolates {ps : List Proposal} {ss : List Settled} (h : Passes k params ps c ss d)
    (hfits : ∀ p ∈ ps, p.Fits) (hn : (ps.map (·.id)).Nodup) :
    List.Forall₂ (fun j f => j.1.id = f.id ∧ j.2.Allows f.outcome ∧
        d.store.proposal f.id = .ok { j.1 with status := f.outcome.status })
      (ps.map fun p => params.judged p (c.store.votes p.id)) (ss.map (·.finalized)) := by
  rw [List.forall₂_map_left_iff, List.forall₂_map_right_iff]
  refine (h.decided hn hfits).imp fun p s hp => ⟨hp.id.symm, hp.outcome, ?_⟩
  rw [hp.id]
  exact hp.stored

theorem Chain.Passable.isolates (hc : c.Passable params) (k : Keeper) :
    ∃ fs d, k.endBlock c = .ok fs d ∧ k.Isolates params c fs d := by
  obtain ⟨ps, ss, d, hblock, hdecisions, ⟨c', hlogs, hpass⟩, hasc, hm⟩ := hc.passes k
  have hids : (ss.map (·.finalized)).map (·.id) = ps.map (·.id) := by
    rw [List.map_map, ← hpass.ids]
    rfl
  have hfits : ∀ p ∈ ps, p.Fits := fun p hp =>
    Store.View.fits_of_proposal (Store.proposal_eq_ok.1 ((hm p).1 hp).1)
  refine ⟨_, d, hblock, ?_, ?_, ?_, ?_, ?_⟩
  · rwa [hids]
  · intro id
    rw [hids, List.mem_map]
    constructor
    · rintro ⟨p, hp, rfl⟩
      exact ⟨p, (hm p).1 hp⟩
    · rintro ⟨p, hp, hdue⟩
      obtain rfl := hc.owned id p hp
      exact ⟨p, (hm p).2 ⟨hp, hdue⟩, rfl⟩
  · rw [hpass.events, hlogs, List.map_map]
    rfl
  · have hisolates := hpass.isolates hfits (hasc.imp UInt64.ne_of_lt)
    rw [hdecisions]
    rwa [hlogs] at hisolates
  · intro j hj
    rw [hdecisions] at hj
    obtain ⟨p, hp, rfl⟩ := List.mem_map.1 hj
    exact ⟨p, ((hm p).1 hp).1, rfl⟩

/-- A pass decides on each due proposal by itself, and in any two states with the same params,
the same record and the same votes it decides the same. -/
theorem endBlock_isolates (k : Keeper) (hc : c.Passable params) :
    (∃ fs d, k.endBlock c = .ok fs d ∧ k.Isolates params c fs d) ∧
    ∀ (k' : Keeper) (c' : Chain), c'.Passable params →
      ∀ j ∈ k.decisionsAt c, ∀ j' ∈ k'.decisionsAt c', j'.1.id = j.1.id →
        c.store.SameCase j.1.id c'.store → j' = j := by
  refine ⟨hc.isolates k, ?_⟩
  intro k' c' hc' j hj j' hj' hid hsame
  obtain ⟨fs, d, -, hk⟩ := hc.isolates k
  obtain ⟨fs', d', -, hk'⟩ := hc'.isolates k'
  obtain ⟨p, hp, rfl⟩ := hk.own j hj
  obtain ⟨p', hp', rfl⟩ := hk'.own j' hj'
  have hid : p'.id = p.id := hid
  have hsame : c.store.SameCase p.id c'.store := hsame
  rw [hid, hsame.proposal, hp] at hp'
  cases hp'
  exact hsame.judged

namespace Sample

def scanless : Chain := keeper.after (twoVotings ++ [.incident (.failScan 1)]) start

def permitted : Chain := keeper.after (voting ++ [.incident (.preload "foo")]) start

end Sample

theorem scanless_isolates :
    (∃ fs d, Sample.keeper.endBlock Sample.scanless = .ok fs d ∧
      Sample.keeper.Isolates .default Sample.scanless fs d ∧
      fs.map (fun f => (f.id, f.outcome)) = [(0, .executed), (1, .failed)]) ∧
    (∃ fs d, Sample.keeper.endBlock Sample.permitted = .ok fs d ∧
      fs.map (fun f => (f.id, f.outcome)) = [(0, .failed)]) ∧
    ∀ j ∈ Sample.keeper.decisionsAt Sample.scanless,
      ∀ j' ∈ Sample.keeper.decisionsAt Sample.permitted, j'.1.id = j.1.id → j' = j := by
  have hscanless : Sample.scanless.Passable .default :=
    (Sample.start_fresh.wellKept.after _ _).passable (by decide +kernel) (by decide +kernel)
  have hpermitted : Sample.permitted.Passable .default :=
    (Sample.start_fresh.wellKept.after _ _).passable (by decide +kernel) (by decide +kernel)
  obtain ⟨⟨fs, d, hfs, hisolates⟩, hsame⟩ := endBlock_isolates Sample.keeper hscanless
  obtain ⟨⟨fs', d', hfs', hisolates'⟩, -⟩ := endBlock_isolates Sample.keeper hpermitted
  have hout : (answer (Sample.keeper.endBlock Sample.scanless)).map
      (List.map fun f => (f.id, f.outcome)) = some [(0, .executed), (1, .failed)] := by
    decide +kernel
  have hout' : (answer (Sample.keeper.endBlock Sample.permitted)).map
      (List.map fun f => (f.id, f.outcome)) = some [(0, .failed)] := by decide +kernel
  rw [hfs] at hout
  rw [hfs'] at hout'
  have hout := Option.some.inj hout
  have hout' := Option.some.inj hout'
  refine ⟨⟨fs, d, hfs, hisolates, hout⟩, ⟨fs', d', hfs', hout'⟩, ?_⟩
  intro j hj j' hj' hid
  have hzero : j'.1.id = 0 := by
    have hids : fs'.map (·.id) = [0] := by simpa using congrArg (List.map Prod.fst) hout'
    have hmem := List.mem_map_of_mem (f := fun j => j.1.id) hj'
    rw [hisolates'.ids, hids] at hmem
    exact List.mem_singleton.1 hmem
  have hcase : Sample.scanless.store.SameCase 0 Sample.permitted.store :=
    ⟨by decide +kernel, by decide +kernel⟩
  refine hsame Sample.keeper _ hpermitted j hj j' hj' hid ?_
  rwa [← hid, hzero]

end DaoGovernance
