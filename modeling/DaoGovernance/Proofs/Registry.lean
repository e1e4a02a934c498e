import DaoGovernance.Proofs.Content
import Mathlib

/-!
The registry holds what it held at the start and what was voted in since, once each.
-/

namespace DaoGovernance

variable {k : Keeper} {params : Params} {c d : Chain} {p : Proposal} {r r' : Registry}

/-! ### Labels that were voted in -/

def Proposal.votedIn (p : Proposal) : Option String :=
  if p.status = .executed then p.label else none

theorem Proposal.votedIn_of_isOpen (h : p.isOpen = true) : p.votedIn = none := by
  rw [votedIn, status_of_isOpen h]
  rfl

theorem Proposal.votedIn_finish (p : Proposal) (t : Tally) (o : Outcome) :
    (p.finish t o).votedIn = if o = .executed then p.label else none := by
  cases o <;> rfl

def Chain.votedIn (c : Chain) (id : UInt64) : Option String :=
  (c.store.view.proposal id).bind Proposal.votedIn

theorem Chain.votedIn_congr (h : d.store.view.proposals = c.store.view.proposals) :
    d.votedIn = c.votedIn := by
  funext id
  rw [votedIn, Store.View.proposal_congr (congrFun h id), votedIn]

theorem Chain.votedIn_put (hp : p.Fits)
    (h : d.store.view.proposals = (c.store.view.put p).proposals) :
    d.votedIn = Function.update c.votedIn p.id p.votedIn := by
  funext id
  rw [votedIn, Store.View.proposal_congr (congrFun h id), Function.update_apply]
  split
  · rename_i hid
    rw [hid, Store.View.proposal_put_self hp]
    rfl
  · rename_i hid
    rw [Store.View.proposal_put_of_ne hid]
    rfl

theorem Opens.votedIn {s : Submission} (h : Opens k s c p d) (hw : c.WellKept) (hs : s.Fits) :
    d.votedIn = c.votedIn := by
  have hnone : c.votedIn p.id = none := by
    rw [Chain.votedIn, Store.View.proposal, h.unused hw]
    rfl
  rw [Chain.votedIn_put (h.fits hs) h.proposals, Proposal.votedIn_of_isOpen h.isOpen, ← hnone,
    Function.update_eq_self]

/-! ### What the registry holds -/

structure Registry.Gains (r : Registry) (f : UInt64 → Option String) (r' : Registry) : Prop where
  permitted : ∀ l, r'.isPermitted l = true ↔ r.isPermitted l = true ∨ ∃ id, f id = some l
  unpermitted : ∀ id l, f id = some l → r.isPermitted l = false
  once : ∀ id id' l, f id = some l → f id' = some l → id = id'

namespace Registry.Gains

variable {f : UInt64 → Option String}

theorem congr (h : r.Gains f r') {r'' : Registry}
    (hr : ∀ l, r''.isPermitted l = r'.isPermitted l) : r.Gains f r'' :=
  ⟨fun l => by rw [hr, h.permitted], h.unpermitted, h.once⟩

theorem update_eq_some {id id' : UInt64} {l l' : String} (hid : f id = none) :
    Function.update f id (some l) id' = some l' ↔ id' = id ∧ l' = l ∨ f id' = some l' := by
  rw [Function.update_apply]
  by_cases h : id' = id
  · simp [h, hid, eq_comm]
  · simp [h]

theorem preload {id : UInt64} {l : String} (h : r.Gains f r') (hid : f id = none)
    (hl : r'.isPermitted l = false) :
    r.Gains (Function.update f id (some l)) (r'.preload l) := by
  have hnot : ¬ (r.isPermitted l = true ∨ ∃ id, f id = some l) := by
    rw [← h.permitted, hl]
    simp
  obtain ⟨hr, hf⟩ := not_or.1 hnot
  refine ⟨fun l' => ?_, fun id' l' hl' => ?_, fun i j l' hi hj => ?_⟩
  · rw [isPermitted_preload, h.permitted, or_left_comm]
    simp only [update_eq_some hid, exists_or, exists_and_right, exists_eq, true_and]
  · rw [update_eq_some hid] at hl'
    rcases hl' with ⟨-, rfl⟩ | hl'
    · exact Bool.eq_false_iff.2 hr
    · exact h.unpermitted id' l' hl'
  · rw [update_eq_some hid] at hi hj
    rcases hi with ⟨rfl, rfl⟩ | hi <;> rcases hj with ⟨rfl, hlabel⟩ | hj
    · rfl
    · exact absurd ⟨j, hj⟩ hf
    · exact absurd ⟨i, hlabel ▸ hi⟩ hf
    · exact h.once i j l' hi hj

end Registry.Gains

structure Chain.Enrolls (r : Registry) (c : Chain) : Prop where
  accepts : c.Accepts
  gains : r.Gains c.votedIn c.registry

namespace Chain.Enrolls

theorem congr (h : c.Enrolls r) (hv : d.store.view.proposals = c.store.view.proposals)
    (hr : ∀ l, d.registry.isPermitted l = c.registry.isPermitted l) : d.Enrolls r where
  accepts := h.accepts.congr hv
  gains := votedIn_congr hv ▸ h.gains.congr hr

theorem opens {s : Submission} (h : c.Enrolls r) (hw : c.WellKept) (hs : s.Fits)
    (ho : Opens k s c p d) : d.Enrolls r where
  accepts := h.accepts.opens hs ho
  gains := by
    rw [ho.votedIn hw hs, ho.registry]
    exact h.gains

theorem finalizes {s : Settled} (h : c.Enrolls r) (hf : Finalizing k params p c s d) :
    d.Enrolls r := by
  refine ⟨h.accepts.finalizes hf, ?_⟩
  have hnone : c.votedIn p.id = none := by
    rw [votedIn, hf.stored]
    exact Proposal.votedIn_of_isOpen hf.isOpen
  rw [votedIn_put ((Store.View.fits_of_proposal hf.stored).finish _ _) hf.proposals,
    Proposal.votedIn_finish, Proposal.finish_id]
  rcases hf.registry h.accepts with ⟨hr, hlabel⟩ | ⟨l, ho, hlabel, hfree, hr⟩
  · have hnew : (if s.finalized.outcome = .executed then p.label else none) = none := by
      split
      · exact hlabel (by assumption)
      · rfl
    rw [hnew, ← hnone, Function.update_eq_self, hr]
    exact h.gains
  · rw [if_pos ho, hlabel, hr]
    exact h.gains.preload hnone hfree

theorem registrable {id : UInt64} {l : String} (h : c.Enrolls r) (hl : c.votedIn id = some l) :
    Label.Registrable l := by
  obtain ⟨p, hp, hl⟩ := Option.bind_eq_some_iff.1 hl
  obtain ⟨content, ha, hcontent⟩ := h.accepts id p hp
  unfold Proposal.votedIn at hl
  split at hl
  · exact ha.registrable l ((ha.label hcontent).1 hl)
  · cases hl

end Chain.Enrolls

theorem enrolls_invariant (k : Keeper) (r : Registry) :
    Invariant k (fun op => op.Fits ∧ op.LeavesLabels) fun _ c => c.Enrolls r :=
  .of_labels Chain.Enrolls.congr (fun hw h => h.opens hw) Chain.Enrolls.finalizes

theorem Chain.Fresh.enrolls {q : Params} (h : c.Fresh q) : c.Enrolls c.registry := by
  have hnone (id : UInt64) : c.votedIn id = none := by
    rw [votedIn, h.proposal]
    rfl
  exact ⟨h.accepts, by simp [hnone], by simp [hnone], by simp [hnone]⟩

/-! ### Runs -/

/-- The registry holds the labels of `r` and those of the executed proposals, each once. -/
structure Chain.HoldsVotedIn (r : Registry) (c : Chain) (ps : List Proposal) : Prop where
  listed : c.store.proposals = .ok ps
  labels : c.registry.labels.Perm (r.labels ++ ps.filterMap Proposal.votedIn)
  nodup : (r.labels ++ ps.filterMap Proposal.votedIn).Nodup
  registrable : ∀ l ∈ ps.filterMap Proposal.votedIn, Label.Registrable l

theorem Chain.Enrolls.holdsVotedIn (h : c.Enrolls r) (hw : c.WellKept) (hr : c.Readable) :
    ∃ ps, c.HoldsVotedIn r ps := by
  obtain ⟨ps, hps, hn, hm⟩ := hr.proposals_eq hw
  have told {q : Proposal} (hq : q ∈ ps) : c.votedIn q.id = q.votedIn := by
    rw [votedIn, (hm q.id q).2 ⟨hq, rfl⟩]
    rfl
  have hmem (l : String) : l ∈ ps.filterMap Proposal.votedIn ↔ ∃ id, c.votedIn id = some l := by
    rw [List.mem_filterMap]
    constructor
    · rintro ⟨q, hq, hl⟩
      exact ⟨q.id, (told hq).trans hl⟩
    · rintro ⟨id, hid⟩
      obtain ⟨q, hq, hl⟩ := Option.bind_eq_some_iff.1 hid
      exact ⟨q, ((hm id q).1 hq).1, hl⟩
  have hnodup : (r.labels ++ ps.filterMap Proposal.votedIn).Nodup := by
    refine List.nodup_append'.2 ⟨r.nodup_labels, ?_, fun l hl hl' => ?_⟩
    · rw [List.Nodup, List.pairwise_filterMap]
      rw [List.Nodup, List.pairwise_map] at hn
      refine hn.imp_of_mem fun {q q'} hq hq' hne l hl l' hl' heq => hne ?_
      exact h.gains.once _ _ l ((told hq).trans hl) ((told hq').trans (heq ▸ hl'))
    · obtain ⟨id, hid⟩ := (hmem l).1 hl'
      have hfree := h.gains.unpermitted id l hid
      rw [Registry.isPermitted_iff.2 hl] at hfree
      cases hfree
  refine ⟨ps, hps, ?_, hnodup, fun l hl => ?_⟩
  · rw [List.perm_ext_iff_of_nodup (Registry.nodup_labels _) hnodup]
    intro l
    rw [← Registry.isPermitted_iff, h.gains.permitted, List.mem_append, Registry.isPermitted_iff,
      hmem]
  · obtain ⟨id, hid⟩ := (hmem l).1 hl
    exact h.registrable hid

/-- Whatever the registry held at the start of a run, it ends with that and what was voted in. -/
theorem holdsVotedIn_after {q : Params} {ops : List Operation} (hc : c.Fresh q)
    (hfits : ∀ op ∈ ops, op.Fits) (hlabels : ∀ op ∈ ops, op.LeavesLabels) :
    ∃ ps, (k.after ops c).HoldsVotedIn c.registry ps := by
  have hw := hc.wellKept
  have henrolls := (enrolls_invariant k c.registry).run
    (fun op hop => ⟨hfits op hop, hlabels op hop⟩) hw hc.enrolls
  exact henrolls.holdsVotedIn (hw.after k ops) ((readable_invariant k).run hfits hw hc.readable)

namespace Sample

def labelled : Chain := { start with registry := Registry.empty.preload "bar" }

theorem labelled_fresh : labelled.Fresh .default :=
  ⟨start_fresh.store, start_fresh.valid, start_fresh.fits, start_fresh.steady⟩

theorem operations_leaveLabels : ∀ op ∈ operations, op.LeavesLabels := by
  intro op hop
  fin_cases hop <;> exact trivial

end Sample

theorem sample_holdsVotedIn :
    ∃ ps, (Sample.keeper.after Sample.operations Sample.labelled).HoldsVotedIn
        Sample.labelled.registry ps ∧
      Sample.labelled.registry.labels ++ ps.filterMap Proposal.votedIn = ["bar", "foo"] := by
  obtain ⟨ps, h⟩ := holdsVotedIn_after (k := Sample.keeper) Sample.labelled_fresh
    Sample.operations_fit Sample.operations_leaveLabels
  refine ⟨ps, h, ?_⟩
  have htold : (Sample.keeper.after Sample.operations Sample.labelled).store.proposals.toOption.map
      (·.filterMap Proposal.votedIn) = some ["foo"] := by decide +kernel
  rw [h.listed] at htold
  exact congrArg ("bar" :: ·) (Option.some.inj htold)

end DaoGovernance
