import DaoGovernance.Proofs.Finality
import DaoGovernance.Proofs.Genesis.Loading
import DaoGovernance.Proofs.Isolation
import Mathlib

/-!
Once the height has passed the end of a voting no vote on it is taken any more, so that it makes no
difference at which later height the proposal is judged.
-/

namespace DaoGovernance

open DaoGovernance.Action

variable {k : Keeper} {params : Params} {c d : Chain} {p : Proposal} {id : UInt64}

/-! ### Votes -/

theorem Changes.votes {op : Operation} {es : List Event} {fs : List Finalized}
    (h : Changes k c op es fs d) (hw : c.WellKept) :
    (∃ v, Casts c v d) ∨ d.store.view.votes = c.store.view.votes := by
  cases h with
  | opened h =>
    rw [h.view]
    exact .inr rfl
  | refused h => exact .inr h.sameRecords.votes
  | cast h => exact .inl ⟨_, h⟩
  | ended h =>
    refine .inr (h.induct (P := fun _ d => d.store.view.votes = c.store.view.votes) hw rfl ?_ ?_).1
    · intro _ _ _ _ hsame hq
      rw [hq.view, hsame]
    · intro _ _ _ _ _ _ _ hsame hf
      rw [hf.view, ← hsame]
      rfl
  | updated _ h => exact .inr (by rw [h.view, Store.view_putParams])
  | moved => exact .inr rfl
  | @incident i => exact .inr (i.sameRecords c).votes
  | quiet h => exact .inr h.sameRecords.votes

theorem Proposal.isClosedAt_mono {h h' : Height} (hle : h.number ≤ h'.number)
    (hp : p.isClosedAt h = true) : p.isClosedAt h' = true := by
  simp only [isClosedAt, Height.isAfter, decide_eq_true_eq] at *
  exact UInt64.lt_of_lt_of_le hp hle

def Chain.Closed (id : UInt64) (c : Chain) : Prop :=
  ∃ p, c.store.view.proposal id = some p ∧
    (p.isOpen = true → p.isClosedAt c.block.height = true)

theorem Casts.ne_of_closed {v : Vote} (h : Casts c v d) (hc : c.Closed id) : id ≠ v.proposal := by
  rintro rfl
  obtain ⟨p, hp, hclosed⟩ := hc
  obtain ⟨q, hq, hopen, hwindow⟩ := h.isOpen
  rw [hp] at hq
  cases hq
  rw [hclosed hopen] at hwindow
  cases hwindow

theorem Changes.closed {op : Operation} {es : List Event} {fs : List Finalized}
    (h : Changes k c op es fs d) (hw : c.WellKept)
    (hle : c.block.height.number ≤ d.block.height.number) (hc : c.Closed id) :
    d.Closed id ∧ ∀ a, d.store.view.votes (id, a) = c.store.view.votes (id, a) := by
  constructor
  · obtain ⟨p, hp, hclosed⟩ := hc
    obtain ⟨b, hb, hdec⟩ := Store.View.proposal_eq_some.1 hp
    obtain ⟨b', hb', rfl | ⟨-, q, t, o, -, -, -, hfin⟩⟩ := h.records hw hb
    · refine ⟨p, Store.View.proposal_eq_some.2 ⟨_, hb', hdec⟩, fun hopen => ?_⟩
      exact Proposal.isClosedAt_mono hle (hclosed hopen)
    · refine ⟨q.finish t o, Store.View.proposal_eq_some.2 ⟨b', hb', hfin⟩, fun hopen => ?_⟩
      rw [Proposal.not_isOpen_finish] at hopen
      cases hopen
  · intro a
    rcases h.votes hw with ⟨v, hv⟩ | hsame
    · rw [hv.view]
      refine Function.update_of_ne (fun hkey => ?_) _ _
      exact hv.ne_of_closed hc (Prod.mk.inj hkey).1
    · rw [hsame]

def Keeper.Forward (k : Keeper) (ops : List Operation) (c : Chain) : Prop :=
  ∀ m ∈ k.history ops c, m.before.block.height.number ≤ m.after.block.height.number

theorem Keeper.Forward.height_le {ops : List Operation} (h : k.Forward ops c) :
    c.block.height.number ≤ (k.after ops c).block.height.number := by
  induction ops generalizing c with
  | nil => exact UInt64.le_refl _
  | cons op ops ih =>
    obtain ⟨hle, hrest⟩ := List.forall_mem_cons.1 h
    rw [Keeper.moment_before] at hle
    exact UInt64.le_trans hle (ih hrest)

theorem Chain.Closed.after {ops : List Operation} (hc : c.Closed id) (hw : c.WellKept)
    (hforward : k.Forward ops c) :
    ∀ a, (k.after ops c).store.view.votes (id, a) = c.store.view.votes (id, a) := by
  induction ops generalizing c with
  | nil => exact fun _ => rfl
  | cons op ops ih =>
    obtain ⟨hle, hrest⟩ := List.forall_mem_cons.1 hforward
    rw [Keeper.moment_before] at hle
    have hstep := changes_moment k hw op
    obtain ⟨hclosed, hvotes⟩ := hstep.closed hw hle hc
    intro a
    rw [Keeper.after, ih hclosed (hw.changes hstep) hrest, hvotes]

/-! ### The decision -/

/-- The pass at `c` decides `j`: it stores it, and then carries it out.  If no proposal can be
written, it fails and leaves the store. -/
structure Keeper.Decides (k : Keeper) (c : Chain) (j : Proposal × Verdict) : Prop where
  passes : c.store.view.failProposals = false → ∃ fs d, k.endBlock c = .ok fs d ∧
    j ∈ k.decisionsAt c ∧ ∃ f ∈ fs, f.id = j.1.id ∧ j.2.Allows f.outcome ∧
      d.store.proposal j.1.id = .ok { j.1 with status := f.outcome.status }
  fails : c.store.view.failProposals = true → ∃ e d, k.endBlock c = .error e d ∧ d.store = c.store

theorem exists_of_mem_left {α β : Type} {R : α → β → Prop} {as : List α} {bs : List β}
    (h : List.Forall₂ R as bs) {a : α} (ha : a ∈ as) : ∃ b ∈ bs, R a b := by
  induction h with
  | nil => cases ha
  | cons h _ ih =>
    rcases List.mem_cons.1 ha with rfl | ha
    · exact ⟨_, List.mem_cons_self, h⟩
    · obtain ⟨b, hb, hab⟩ := ih ha
      exact ⟨b, List.mem_cons_of_mem _ hb, hab⟩

theorem Chain.Passable.decides (hc : c.Passable params) (k : Keeper)
    (hp : c.store.proposal p.id = .ok p) (hopen : p.isOpen = true)
    (hclosed : p.isClosedAt c.block.height = true) :
    ∃ fs d, k.endBlock c = .ok fs d ∧
      params.judged p (c.store.votes p.id) ∈ k.decisionsAt c ∧ ∃ f ∈ fs, f.id = p.id ∧
        (params.judged p (c.store.votes p.id)).2.Allows f.outcome ∧
        d.store.proposal p.id = .ok
          { (params.judged p (c.store.votes p.id)).1 with status := f.outcome.status } := by
  obtain ⟨ps, ss, d, hblock, hdecisions, -, -, hm⟩ := hc.passes k
  obtain ⟨fs, d', hblock', hisolates⟩ := hc.isolates k
  rw [hblock] at hblock'
  cases hblock'
  have hmem : params.judged p (c.store.votes p.id) ∈ k.decisionsAt c := by
    rw [hdecisions]
    exact List.mem_map.2 ⟨p, (hm p).2 ⟨hp, hopen, hclosed⟩, rfl⟩
  obtain ⟨f, hf, hid, hallows, hstored⟩ := exists_of_mem_left hisolates.decided hmem
  have hid : p.id = f.id := hid
  exact ⟨_, d, hblock, hmem, f, hf, hid.symm, hallows, hid ▸ hstored⟩

theorem endBlock_fails (k : Keeper) (hw : c.WellKept) (hparams : c.store.params = .ok params)
    (hp : c.store.view.proposal id = some p) (hopen : p.isOpen = true)
    (hclosed : p.isClosedAt c.block.height = true) (hfail : c.store.view.failProposals = true) :
    ∃ e d, k.endBlock c = .error e d ∧ d.store = c.store := by
  have hsteady := Chain.storeAtPermit_of_steady hw.steady
  cases hx : k.endBlock c with
  | error e d =>
    refine ⟨e, d, rfl, ?_⟩
    rw [endBlock_eq_error hsteady hx]
  | ok fs d =>
    obtain ⟨rs, hrs, -, hm⟩ := Store.proposalRecords_eq hw.sound.proposalsKeyed
    obtain rfl := hw.owned id p hp
    have hid : ∀ id q, (id, .ok q) ∈ rs → q.id = id := fun id q hq =>
      hw.owned id q ((hm id q).1 hq)
    have hdue := (mem_due hid).2 ⟨(hm _ _).2 hp, hopen, hclosed⟩
    rw [endBlock_of_records hparams hrs] at hx
    -- The first proposal that is due would have been written.
    cases hps : rs.filterMap (dueAt c.block.height) with
    | nil =>
      rw [hps] at hdue
      cases hdue
    | cons q qs =>
      rw [hps, Keeper.finalizeAll] at hx
      obtain ⟨f, d', hq, -⟩ := bind_eq_ok.1 hx
      rw [Keeper.finalize_eq] at hq
      obtain ⟨s, hs, -⟩ := map_eq_ok.1 hq
      have hsteady : Chain.storeAtPermit { c with log := c.log ++ rs.filterMap passNotice } =
        c.store := hsteady
      have hworks := ((finalizeTraced_ends params hsteady q).of_ok hs).works
      rw [hfail] at hworks
      cases hworks

theorem Chain.WellKept.decides (hw : c.WellKept) (k : Keeper)
    (hparams : c.store.params = .ok params) (hp : c.store.view.proposal p.id = some p)
    (hopen : p.isOpen = true) (hclosed : p.isClosedAt c.block.height = true) :
    k.Decides c (params.judged p (c.store.votes p.id)) where
  passes hworks :=
    (hw.passable hparams hworks).decides k (Store.proposal_eq_ok.2 hp) hopen hclosed
  fails := endBlock_fails k hw hparams hp hopen hclosed

/-! ### Runs -/

/-- At `c` the voting on `p` is over and `p` is still open.  The operations change nothing about how
it will be decided. -/
structure Keeper.Freezes (k : Keeper) (p : Proposal) (ops : List Operation) (c : Chain) : Prop where
  votes : ∀ a, (k.after ops c).store.getVote p.id a = c.store.getVote p.id a
  stays : .endBlock ∉ ops → (k.after ops c).store.proposal p.id = .ok p
  decides : (k.after ops c).store.proposal p.id = .ok p →
    (k.after ops c).store.params = c.store.params →
    (k.after ops c).store.view.failScan p.id = c.store.view.failScan p.id →
      ∃ j, j.1.id = p.id ∧ k.Decides c j ∧ k.Decides (k.after ops c) j

theorem record_after {ops : List Operation} (hw : c.WellKept) (hops : .endBlock ∉ ops) {b : Bytes}
    (hb : c.store.view.proposals id = some b) :
    (k.after ops c).store.view.proposals id = some b := by
  induction ops generalizing c with
  | nil => exact hb
  | cons op ops ih =>
    rw [List.mem_cons, not_or] at hops
    have hstep := changes_moment k hw op
    obtain ⟨b', hb', rfl | ⟨rfl, -⟩⟩ := hstep.records hw hb
    · exact ih (hw.changes hstep) hops.2 hb'
    · exact absurd rfl hops.1

theorem Chain.WellKept.freezes {ops : List Operation} (hw : c.WellKept) (hc : c.Readable)
    (hforward : k.Forward ops c)
    (hp : c.store.proposal p.id = .ok p) (hopen : p.isOpen = true)
    (hclosed : p.isClosedAt c.block.height = true) : k.Freezes p ops c := by
  have hview := Store.proposal_eq_ok.1 hp
  have hvotes := Chain.Closed.after ⟨p, hview, fun _ => hclosed⟩ hw hforward
  refine ⟨?_, ?_, ?_⟩
  · intro a
    rw [Store.getVote_eq, hvotes, Store.getVote_eq]
  · intro hnone
    obtain ⟨b, hb, hdec⟩ := Store.View.proposal_eq_some.1 hview
    exact Store.proposal_eq_ok.2 (Store.View.proposal_eq_some.2 ⟨b, record_after hw hnone hb, hdec⟩)
  · intro hp' hparams hscan
    obtain ⟨params, henc, hfits, -⟩ := hc.params
    have hread := Store.params_eq hfits henc
    have hw' := hw.after k ops
    have hlist : (k.after ops c).store.votes p.id = c.store.votes p.id := by
      rw [Store.votes, Store.votesOn_congr hw.sound.votesKeyed hw'.sound.votesKeyed hvotes hscan,
        Store.votes]
    have hle := hforward.height_le
    refine ⟨params.judged p (c.store.votes p.id), rfl, hw.decides k hread hview hopen hclosed, ?_⟩
    rw [← hlist]
    exact hw'.decides k (hparams.trans hread) (Store.proposal_eq_ok.1 hp') hopen
      (Proposal.isClosedAt_mono hle hclosed)

/-- Wherever a run from an empty store has passed the end of a voting that was not decided yet, what
follows leaves the votes and the decision as they are, as long as heights do not go back. -/
theorem freezes_of_fresh {p₀ : Params} {ops₁ ops₂ : List Operation} (hc : c.Fresh p₀)
    (hops : ∀ op ∈ ops₁, op.Fits) (hforward : k.Forward ops₂ (k.after ops₁ c))
    (hp : (k.after ops₁ c).store.proposal p.id = .ok p) (hopen : p.isOpen = true)
    (hclosed : p.isClosedAt (k.after ops₁ c).block.height = true) :
    k.Freezes p ops₂ (k.after ops₁ c) := by
  have hreadable := (readable_invariant k).run hops hc.wellKept hc.readable
  exact (hc.wellKept.after k ops₁).freezes hreadable hforward hp hopen hclosed

namespace Sample

def delay : List Operation := [
  .incident (.fund proposer ⟨"stake", 100000000⟩),
  .submit { submission with content := some (Content.addLabel ".Bar").pack },
  .vote 1 proposer.text .yes,
  .moveTo ⟨900⟩]

theorem voting_fit : ∀ op ∈ voting, op.Fits := fun op hop =>
  operations_fit op (List.mem_append_left _ hop)

theorem delay_forward : keeper.Forward delay (keeper.after voting start) := by
  unfold Keeper.Forward
  decide +kernel

end Sample

theorem sample_freezes :
    Sample.keeper.Freezes Sample.opened Sample.delay
        (Sample.keeper.after Sample.voting Sample.start) ∧
      ∃ j, j.1.tally = ⟨5, 0, 0⟩ ∧ j.2 = .passed (.addLabel "foo") ∧
        Sample.keeper.Decides (Sample.keeper.after Sample.voting Sample.start) j ∧
        Sample.keeper.Decides (Sample.keeper.after Sample.delay
          (Sample.keeper.after Sample.voting Sample.start)) j := by
  have stored {ops : List Operation}
      (h : ((Sample.keeper.after ops Sample.start).store.proposal 0).toOption = some Sample.opened) :
      (Sample.keeper.after ops Sample.start).store.proposal 0 = .ok Sample.opened := by
    cases hx : (Sample.keeper.after ops Sample.start).store.proposal 0 with
    | ok p =>
      rw [hx] at h
      rw [Option.some.inj h]
    | error e => simp [hx, Except.toOption] at h
  have hfreezes : Sample.keeper.Freezes Sample.opened Sample.delay _ :=
    freezes_of_fresh Sample.start_fresh Sample.voting_fit Sample.delay_forward
      (stored (by decide +kernel)) rfl (by decide +kernel)
  refine ⟨hfreezes, ?_⟩
  obtain ⟨j, -, hnow, hlater⟩ := hfreezes.decides (hfreezes.stays (by simp [Sample.delay]))
    (by decide +kernel) (by decide +kernel)
  obtain ⟨-, -, -, hmem, -⟩ := hnow.passes (by decide +kernel)
  have hall : ∀ j ∈ Sample.keeper.decisionsAt (Sample.keeper.after Sample.voting Sample.start),
      j.1.tally = ⟨5, 0, 0⟩ ∧ j.2 = .passed (.addLabel "foo") := by decide +kernel
  exact ⟨j, (hall j hmem).1, (hall j hmem).2, hnow, hlater⟩

end DaoGovernance
