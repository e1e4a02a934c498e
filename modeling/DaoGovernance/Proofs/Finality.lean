import DaoGovernance.Proofs.Genesis.Loading
import Mathlib

/-!
Each proposal is finalized at most once, and nothing leaves a final status.
-/

namespace DaoGovernance

variable {k : Keeper} {c d : Chain}

def Event.finishedId : Event → Option UInt64
  | .proposalFinished id _ => some id
  | _ => none

def finishedIds (es : List Event) : List UInt64 := es.filterMap Event.finishedId

theorem finishedIds_append (es fs : List Event) :
    finishedIds (es ++ fs) = finishedIds es ++ finishedIds fs := List.filterMap_append

theorem finishedIds_settled (ss : List Settled) :
    finishedIds (ss.map Settled.event) = ss.map fun s => s.finalized.id := by
  induction ss with
  | nil => rfl
  | cons s ss ih => simp_all [finishedIds, Settled.event, Event.finishedId]

/-! ### One operation -/

def Chain.Finishes (c : Chain) (b b' : Bytes) : Prop :=
  ∃ p t o, Proposal.decode b = .ok p ∧ p.isOpen = true ∧ p.isClosedAt c.block.height = true ∧
    Proposal.decode b' = .ok (p.finish t o)

def Chain.KeepsOrFinishes (c d : Chain) : Prop :=
  ∀ id b, c.store.view.proposals id = some b →
    ∃ b', d.store.view.proposals id = some b' ∧ (b' = b ∨ c.Finishes b b')

theorem Chain.KeepsOrFinishes.of_eq (h : d.store.view.proposals = c.store.view.proposals) :
    c.KeepsOrFinishes d := by
  intro id b hb
  exact ⟨b, h ▸ hb, .inl rfl⟩

theorem Chain.KeepsOrFinishes.finalizing {params : Params} {p : Proposal} {s : Settled}
    {c₀ : Chain} (h : c₀.KeepsOrFinishes c) (hh : c.block.height = c₀.block.height)
    (hf : Finalizing k params p c s d) : c₀.KeepsOrFinishes d := by
  intro id b hb
  obtain ⟨b', hb', hkept⟩ := h id b hb
  by_cases hid : id = p.id
  · obtain ⟨b'', hb'', hdec⟩ := Store.View.proposal_eq_some.1 hf.stored
    rw [← hid, hb'] at hb''
    cases hb''
    refine ⟨_, by rw [hf.view, hid]; exact Store.View.proposals_put_self, .inr ?_⟩
    rcases hkept with rfl | ⟨q, t, o, -, -, -, hq⟩
    · exact ⟨p, _, _, hdec, hf.isOpen, hh ▸ hf.isClosed,
        Proposal.decode_encode ((Proposal.fits_of_decode hdec).finish _ _)⟩
    -- A proposal that is finished already is not open.
    · rw [hdec] at hq
      have ho := hf.isOpen
      rw [Except.ok.inj hq, Proposal.not_isOpen_finish] at ho
      cases ho
  · exact ⟨b', by rw [hf.proposals_of_ne hid, hb'], hkept⟩

theorem EndsBlock.keepsOrFinishes {ss : List Settled} (h : EndsBlock k c ss d) (hw : c.WellKept) :
    c.KeepsOrFinishes d := by
  refine (h.induct (P := fun _ d => d.block.height = c.block.height ∧ c.KeepsOrFinishes d) hw
    ⟨rfl, .of_eq rfl⟩ ?_ ?_).1.2
  · intro _ c' d' _ ⟨hh, hk⟩ hq
    refine ⟨by rw [hq.block, hh], ?_⟩
    intro id b hb
    rw [hq.view]
    exact hk id b hb
  · intro params _ p c' s d' _ ⟨hh, hk⟩ hf
    refine ⟨?_, hk.finalizing hh hf⟩
    rw [hf.block, ← hh]
    rfl

theorem Opens.keeps {s : Submission} {p : Proposal} (h : Opens k s c p d) (hw : c.WellKept)
    {id : UInt64} {b : Bytes} (hb : c.store.view.proposals id = some b) :
    d.store.view.proposals id = some b := by
  have hne : id ≠ p.id := by
    rintro rfl
    rw [h.unused hw] at hb
    cases hb
  rw [h.view]
  exact (Store.View.proposals_put_of_ne hne).trans hb

theorem Changes.records {op : Operation} {es : List Event} {fs : List Finalized}
    (h : Changes k c op es fs d) (hw : c.WellKept) {id : UInt64} {b : Bytes}
    (hb : c.store.view.proposals id = some b) :
    ∃ b', d.store.view.proposals id = some b' ∧ (b' = b ∨ op = .endBlock ∧ c.Finishes b b') := by
  rcases h.proposals with ⟨s, p, -, ho, -⟩ | ⟨rfl, he⟩ | hv
  · exact ⟨b, ho.keeps hw hb, .inl rfl⟩
  · obtain ⟨b', hb', hk⟩ := he.keepsOrFinishes hw id b hb
    exact ⟨b', hb', hk.imp_right fun h => ⟨rfl, h⟩⟩
  · exact ⟨b, by rw [hv, hb], .inl rfl⟩

/-! ### Runs -/

def Chain.IsFinal (c : Chain) (id : UInt64) : Prop :=
  ∃ p, c.store.view.proposal id = some p ∧ p.isOpen = false

theorem Chain.IsFinal.congr {id : UInt64} (h : c.IsFinal id)
    (hv : d.store.view.proposals = c.store.view.proposals) : d.IsFinal id := by
  obtain ⟨p, hp, ho⟩ := h
  exact ⟨p, by rw [Store.View.proposal_congr (congrFun hv id), hp], ho⟩

theorem Finalizing.isFinal {params : Params} {p : Proposal} {s : Settled}
    (h : Finalizing k params p c s d) : d.IsFinal p.id :=
  ⟨_, h.after, p.not_isOpen_finish _ _⟩

theorem Finalizing.isFinal_of_isFinal {params : Params} {p : Proposal} {s : Settled} {id : UInt64}
    (h : Finalizing k params p c s d) (hf : c.IsFinal id) : d.IsFinal id := by
  by_cases hid : id = p.id
  · exact hid ▸ h.isFinal
  · obtain ⟨q, hq, ho⟩ := hf
    exact ⟨q, by rw [Store.View.proposal_congr (h.proposals_of_ne hid), hq], ho⟩

def FinishedOnce (es : List Event) (c : Chain) : Prop :=
  (finishedIds es).Nodup ∧ ∀ id ∈ finishedIds es, c.IsFinal id

theorem FinishedOnce.congr {es : List Event} (h : FinishedOnce es c)
    (hv : d.store.view.proposals = c.store.view.proposals) : FinishedOnce es d :=
  ⟨h.1, fun id hid => (h.2 id hid).congr hv⟩

theorem finishedOnce_invariant (k : Keeper) : Invariant k (fun _ => True) FinishedOnce := by
  apply Invariant.of_records
  · intro es c d h hs
    exact h.congr hs.proposals
  · intro es c d s p kind proposer _ hw h ho
    have : finishedIds (es ++ [.proposalSubmitted p.id kind proposer]) = finishedIds es := by
      simp [finishedIds, Event.finishedId]
    rw [FinishedOnce, this]
    refine ⟨h.1, fun id hid => ?_⟩
    obtain ⟨q, hq, hopen⟩ := h.2 id hid
    obtain ⟨b, hb, hdec⟩ := Store.View.proposal_eq_some.1 hq
    exact ⟨q, Store.View.proposal_eq_some.2 ⟨b, ho.keeps hw hb, hdec⟩, hopen⟩
  · intro es c d v _ h hv
    have : finishedIds (es ++ [.voteCast v]) = finishedIds es := by
      simp [finishedIds, Event.finishedId]
    rw [FinishedOnce, this]
    exact h.congr (by rw [hv.view])
  · intro es c d params p s _ h hf
    have hid : finishedIds (es ++ [s.event]) = finishedIds es ++ [p.id] := by
      simp [finishedIds, Settled.event, Event.finishedId, hf.id]
    rw [FinishedOnce, hid]
    refine ⟨?_, fun id hm => ?_⟩
    · rw [List.nodup_append_comm, List.singleton_append, List.nodup_cons]
      refine ⟨fun hm => ?_, h.1⟩
      obtain ⟨q, hq, ho⟩ := h.2 p.id hm
      rw [hf.stored] at hq
      cases hq
      rw [hf.isOpen] at ho
      cases ho
    · rcases List.mem_append.1 hm with hm | hm
      · exact hf.isFinal_of_isFinal (h.2 id hm)
      · rw [List.mem_singleton.1 hm]
        exact hf.isFinal

theorem finalized_sublist {op : Operation} {es : List Event} {fs : List Finalized}
    (h : Changes k c op es fs d) : (fs.map (·.id)).Sublist (finishedIds es) := by
  cases h with
  | ended _ hfs =>
    rw [finishedIds_settled]
    rcases hfs with rfl | rfl
    · exact List.nil_sublist _
    · rw [List.map_map]
      exact List.Sublist.refl _
  | _ => exact List.nil_sublist _

theorem flatMap_finalized_sublist {ms : List Moment}
    (h : ∀ m ∈ ms, (m.finalized.map (·.id)).Sublist (finishedIds m.events)) :
    ((ms.flatMap Moment.finalized).map (·.id)).Sublist
      (finishedIds (ms.flatMap Moment.events)) := by
  induction ms with
  | nil => exact List.nil_sublist _
  | cons m ms ih =>
    rw [List.flatMap_cons, List.flatMap_cons, List.map_append, finishedIds_append]
    exact (h m (by simp)).append (ih fun m' hm' => h m' (by simp [hm']))

theorem proposal_after (hw : c.WellKept) (ops : List Operation) {id : UInt64} {p : Proposal}
    (h : c.store.proposal id = .ok p) :
    ∃ q, (k.after ops c).store.proposal id = .ok q ∧
      (q = p ∨ p.isOpen = true ∧ ∃ t o, q = p.finish t o) := by
  induction ops generalizing c p with
  | nil => exact ⟨p, h, .inl rfl⟩
  | cons op ops ih =>
    have hc := changes_moment k hw op
    obtain ⟨b, hb, hdec⟩ := Store.View.proposal_eq_some.1 (Store.proposal_eq_ok.1 h)
    obtain ⟨b', hb', hkept⟩ := hc.records hw hb
    have stored {q : Proposal} (hq : Proposal.decode b' = .ok q) :
        (k.moment op c).after.store.proposal id = .ok q :=
      Store.proposal_eq_ok.2 (Store.View.proposal_eq_some.2 ⟨b', hb', hq⟩)
    rcases hkept with rfl | ⟨-, p', t, o, hp', hopen, -, hfin⟩
    · exact ih (hw.changes hc) (stored hdec)
    · rw [hdec] at hp'
      cases hp'
      obtain ⟨q, hq, hkept⟩ := ih (hw.changes hc) (stored hfin)
      refine ⟨q, hq, .inr ⟨hopen, t, o, ?_⟩⟩
      rcases hkept with rfl | ⟨hopen', -⟩
      · rfl
      · rw [Proposal.not_isOpen_finish] at hopen'
        cases hopen'

/-- Proposals of a run are finalized once at most, and what is final stays as it is. -/
structure Keeper.FinalizesOnce (k : Keeper) (ops : List Operation) (c : Chain) : Prop where
  /-- Only the end of a block past its voting changes the record of an open proposal. -/
  records : ∀ m ∈ k.history ops c, ∀ id b, m.before.store.getProposal id = some b →
    ∃ b', m.after.store.getProposal id = some b' ∧
      (b' = b ∨ m.operation = .endBlock ∧ m.before.Finishes b b')
  /-- From any point of the run to its end, only sums and status of a proposal change, and only
  from open to an outcome. -/
  proposals : ∀ ops₁ ops₂, ops = ops₁ ++ ops₂ → ∀ id p,
    (k.after ops₁ c).store.proposal id = .ok p →
      ∃ q, (k.after ops c).store.proposal id = .ok q ∧
        (q = p ∨ p.isOpen = true ∧ ∃ t o, q = p.finish t o)
  results : (((k.history ops c).flatMap Moment.finalized).map (·.id)).Nodup
  events : (finishedIds ((k.history ops c).flatMap Moment.events)).Nodup

theorem finalizesOnce_of_load (k : Keeper) {g : Genesis} {u : Unit} (ops : List Operation)
    (hload : g.load c = .ok u d) (hempty : c.store.IsEmpty)
    (hsteady : c.faults.permitStopsWrites = false) : k.FinalizesOnce ops d := by
  have hw := Genesis.wellKept_of_load hload hempty hsteady
  have hnodup : (finishedIds ((k.history ops d).flatMap Moment.events)).Nodup :=
    ((finishedOnce_invariant k).run (fun _ _ => trivial) hw
      ⟨List.nodup_nil, by simp [finishedIds]⟩).1
  refine ⟨?_, ?_, ?_, hnodup⟩
  · intro m hm id b hb
    obtain ⟨ops₁, op, -, -, rfl⟩ := Keeper.mem_history.1 hm
    have hw₁ := hw.after k ops₁
    simp only [Store.getProposal_eq, Keeper.moment_before, Keeper.moment_operation] at hb ⊢
    exact (changes_moment k hw₁ op).records hw₁ hb
  · rintro ops₁ ops₂ rfl id p hp
    rw [Keeper.after_append]
    exact proposal_after (hw.after k ops₁) ops₂ hp
  · refine hnodup.sublist (flatMap_finalized_sublist fun m hm => ?_)
    obtain ⟨ops₁, op, -, -, rfl⟩ := Keeper.mem_history.1 hm
    exact finalized_sublist (changes_moment k (hw.after k ops₁) op)

theorem default_finalizesOnce :
    ∃ c, Genesis.default.load (Chain.fresh .emptyMemory) = .ok () c ∧
      Sample.keeper.FinalizesOnce Sample.operations c ∧
      finishedIds ((Sample.keeper.history Sample.operations c).flatMap Moment.events) = [0] := by
  refine ⟨_, rfl, ?_, ?_⟩
  · exact finalizesOnce_of_load Sample.keeper (g := .default) (c := Chain.fresh .emptyMemory)
      (u := ()) Sample.operations rfl ⟨rfl, rfl, rfl, rfl, rfl⟩ rfl
  · decide +kernel

end DaoGovernance
