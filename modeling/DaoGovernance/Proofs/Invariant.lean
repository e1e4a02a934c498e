import DaoGovernance.Proofs.Run
import Mathlib

/-!
Invariants of runs.  An invariant speaks of the events so far and of the chain; it is checked
against each kind of change once, with one finalized proposal at a time, and then holds at the end
of every run.
-/

namespace DaoGovernance

open DaoGovernance.Action

/-! ### What every run keeps -/

/-- The records are under their own keys and below the next id. -/
structure Chain.WellKept (c : Chain) : Prop where
  steady : c.faults.permitStopsWrites = false
  sound : c.store.Sound
  owned : c.store.view.Owned
  below : ∀ id d, c.store.view.proposals id = some d → id.toNat < c.store.view.nextId.toNat

variable {k : Keeper} {params : Params} {c d : Chain}

namespace Chain.WellKept

theorem of_same (h : c.WellKept) (hf : d.faults.permitStopsWrites = c.faults.permitStopsWrites)
    (hs : c.store.Sound → d.store.Sound)
    (hv : d.store.view.proposals = c.store.view.proposals)
    (hn : c.store.view.nextId.toNat ≤ d.store.view.nextId.toNat) : d.WellKept where
  steady := hf.trans h.steady
  sound := hs h.sound
  owned := h.owned.congr hv
  below id b hb := (h.below id b (hv ▸ hb)).trans_le hn

theorem quiet (h : c.WellKept) (hq : c.Quiet d) : d.WellKept :=
  h.of_same (by rw [hq.faults]) hq.sound (by rw [hq.view]) (by rw [hq.view])

theorem opens {s : Submission} {p : Proposal} (h : c.WellKept) (ho : Opens k s c p d) :
    d.WellKept where
  steady := by rw [ho.faults, h.steady]
  sound := ho.sound h.sound
  owned := by
    rw [ho.view]
    exact h.owned.put p
  below id b hb := by
    rw [ho.proposals] at hb
    by_cases hne : id = p.id
    · rw [hne, ho.nextId]
      exact Nat.lt_succ_self _
    · rw [Store.View.proposals_put_of_ne hne] at hb
      exact (h.below id b hb).trans_le ho.nextId_le

theorem refuses (h : c.WellKept) (hr : Refuses k c d) : d.WellKept := by
  obtain ⟨id, hv, hid⟩ := hr.view
  exact h.of_same (by rw [hr.faults]) hr.sound (by rw [hv]) (by rwa [hv])

theorem casts {v : Vote} (h : c.WellKept) (hv : Casts c v d) : d.WellKept :=
  h.of_same (by rw [hv.faults]) hv.sound (by rw [hv.view]) (by rw [hv.view])

theorem updates (h : c.WellKept) (p : Params) :
    { c with store := c.store.putParams p.encode }.WellKept :=
  h.of_same rfl (Store.Sound.putParams · _) (by rw [Store.view_putParams])
    (by rw [Store.view_putParams])

end Chain.WellKept

theorem Opens.unused {s : Submission} {p : Proposal} (h : Opens k s c p d) (hw : c.WellKept) :
    c.store.view.proposals p.id = none := by
  rw [Option.eq_none_iff_forall_ne_some]
  intro b hb
  have hlt := hw.below _ b hb
  rw [h.id_eq] at hlt
  exact Nat.lt_irrefl _ hlt

/-! ### One proposal at a time -/

theorem Finalizes.proposals_of_ne {p : Proposal} {s : Settled} (h : Finalizes k params p c s d)
    {id : UInt64} (hid : id ≠ p.id) : d.store.view.proposals id = c.store.view.proposals id := by
  rw [h.view, Store.View.proposals_put_of_ne]
  exact hid

theorem Finalizes.nextId {p : Proposal} {s : Settled} (h : Finalizes k params p c s d) :
    d.store.view.nextId = c.store.view.nextId := by
  rw [h.view]
  rfl

structure Finalizing (k : Keeper) (params : Params) (p : Proposal) (c : Chain) (s : Settled)
    (d : Chain) : Prop extends Finalizes k params p c s d where
  params : c.store.params = .ok params
  stored : c.store.view.proposal p.id = some p
  isOpen : p.isOpen = true
  isClosed : p.isClosedAt c.block.height = true

theorem Chain.WellKept.finalizing {p : Proposal} {s : Settled} (h : c.WellKept)
    (hf : Finalizing k params p c s d) : d.WellKept where
  steady := by rw [hf.faults, h.steady]
  sound := hf.sound h.sound
  owned := by
    rw [hf.view]
    exact h.owned.put _
  below id b hb := by
    rw [hf.nextId]
    by_cases hid : id = p.id
    · obtain ⟨b', hb', -⟩ := Store.View.proposal_eq_some.1 hf.stored
      rw [hid]
      exact h.below p.id b' hb'
    · rw [hf.proposals_of_ne hid] at hb
      exact h.below id b hb

theorem Finalizing.after {p : Proposal} {s : Settled} (h : Finalizing k params p c s d) :
    d.store.view.proposal p.id =
      some (p.finish (params.judge p (c.store.votes p.id)).1 s.finalized.outcome) := by
  rw [h.view]
  exact Store.View.proposal_put_self ((Store.View.fits_of_proposal h.stored).finish _ _)

/-! ### Open proposals -/

def Chain.HasOpen (c : Chain) (id : UInt64) (p : Proposal) : Prop :=
  c.store.view.proposal id = some p ∧ p.isOpen = true

theorem Proposal.status_of_isOpen {p : Proposal} (h : p.isOpen = true) :
    p.status = .votingPeriod := of_decide_eq_true h

theorem Opens.hasOpen {s : Submission} {id : UInt64} {p q : Proposal} (h : Opens k s c p d)
    (hs : s.Fits) (hq : d.HasOpen id q) : id = p.id ∧ q = p ∨ c.HasOpen id q := by
  obtain ⟨hq, hopen⟩ := hq
  rw [Store.View.proposal_congr (congrFun h.proposals id)] at hq
  by_cases hid : id = p.id
  · rw [hid, Store.View.proposal_put_self (h.fits hs)] at hq
    exact .inl ⟨hid, (Option.some.inj hq).symm⟩
  · rw [Store.View.proposal_put_of_ne hid] at hq
    exact .inr ⟨hq, hopen⟩

theorem Finalizing.hasOpen {id : UInt64} {p q : Proposal} {s : Settled}
    (h : Finalizing k params p c s d) (hq : d.HasOpen id q) : id ≠ p.id ∧ c.HasOpen id q := by
  obtain ⟨hq, hopen⟩ := hq
  have hid : id ≠ p.id := by
    rintro rfl
    rw [h.after] at hq
    cases hq
    rw [Proposal.not_isOpen_finish] at hopen
    cases hopen
  rw [Store.View.proposal_congr (h.proposals_of_ne hid)] at hq
  exact ⟨hid, hq, hopen⟩

/-! ### Passes -/

theorem Due.tail {p : Proposal} {ps : List Proposal} {s : Settled} (h : Due c (p :: ps))
    (hf : Finalizes k params p c s d) : Due d ps := by
  have hn := h.nodup
  rw [List.map_cons, List.nodup_cons] at hn
  refine ⟨hn.2, ?_, fun q hq => h.isOpen q (by simp [hq]), ?_⟩
  · intro q hq
    rw [Store.View.proposal_congr (hf.proposals_of_ne ?_)]
    · exact h.stored q (by simp [hq])
    · intro he
      exact hn.1 (List.mem_map.2 ⟨q, hq, he⟩)
  · intro q hq
    rw [hf.block]
    exact h.isClosed q (by simp [hq])

theorem Due.finalizing {p : Proposal} {ps : List Proposal} {s : Settled} (h : Due c (p :: ps))
    (hparams : c.store.params = .ok params) (hf : Finalizes k params p c s d) :
    Finalizing k params p c s d :=
  { hf with
    params := hparams
    stored := h.stored p (by simp)
    isOpen := h.isOpen p (by simp)
    isClosed := h.isClosed p (by simp) }

theorem Finalizes.params_eq {p : Proposal} {s : Settled} (h : Finalizes k params p c s d) :
    d.store.params = c.store.params :=
  Store.params_congr (by rw [h.view]; rfl)

theorem Passes.induct {ps : List Proposal} {ss : List Settled} (h : Passes k params ps c ss d)
    {P : List Settled → Chain → Prop} (hw : c.WellKept) (hparams : c.store.params = .ok params)
    (hdue : Due c ps) (start : P [] c)
    (step : ∀ ss p c s d, c.WellKept → P ss c → Finalizing k params p c s d → P (ss ++ [s]) d) :
    P ss d ∧ d.WellKept := by
  induction h generalizing P with
  | nil => exact ⟨start, hw⟩
  | @cons p ps c c' d s ss hf _ ih =>
    have hfin := hdue.finalizing hparams hf
    exact ih (P := fun ss => P (s :: ss)) (hw.finalizing hfin) (hf.params_eq.trans hparams)
      (hdue.tail hf) (step [] p c s c' hw start hfin) fun ss => step (s :: ss)

/-- The chain while an operation runs and the events so far are related as `P` says, if each change
keeps it.  `A` is what is known of the operations. -/
structure Invariant (k : Keeper) (A : Operation → Prop) (P : List Event → Chain → Prop) :
    Prop where
  quiet {es : List Event} {c d : Chain} : c.WellKept → P es c → c.Quiet d → P es d
  opens {es : List Event} {c d : Chain} {s : Submission} {p : Proposal} {kind : String}
    {proposer : Address} : A (.submit s) → c.WellKept → P es c → Opens k s c p d →
      P (es ++ [.proposalSubmitted p.id kind proposer]) d
  refuses {es : List Event} {c d : Chain} : c.WellKept → P es c → Refuses k c d → P es d
  casts {es : List Event} {c d : Chain} {v : Vote} : c.WellKept → P es c → Casts c v d →
    P (es ++ [.voteCast v]) d
  finalizes {es : List Event} {c d : Chain} {params : Params} {p : Proposal} {s : Settled} :
    c.WellKept → P es c → Finalizing k params p c s d → P (es ++ [s.event]) d
  updates {es : List Event} {c : Chain} {p : Params} :
    A (.updateParams k.authority.text p) → c.WellKept → P es c → p.validate = .ok () →
      P es { c with store := c.store.putParams p.encode }
  moves {es : List Event} {c : Chain} (h : Height) : c.WellKept → P es c →
    P es { c with block := c.block.moveTo h }
  incidents {es : List Event} {c : Chain} (i : Incident) : A (.incident i) → c.WellKept → P es c →
    P es (i.apply c)

theorem EndsBlock.induct {ss : List Settled} (h : EndsBlock k c ss d)
    {P : List Settled → Chain → Prop} (hw : c.WellKept) (start : P [] c)
    (quiet : ∀ ss c d, c.WellKept → P ss c → c.Quiet d → P ss d)
    (step : ∀ params ss p c s d, c.WellKept → P ss c → Finalizing k params p c s d →
      P (ss ++ [s]) d) : P ss d ∧ d.WellKept := by
  cases h with
  | quiet h => exact ⟨quiet _ _ _ hw start h, hw.quiet h⟩
  | @passes params ps _ c₁ c₂ _ hparams hdue hc hp hd =>
    have hparams' : c₁.store.params = .ok params := by
      rw [Store.params_congr (congrArg Store.View.params hc.view), hparams]
    have hdue' : Due c₁ ps := by
      refine ⟨hdue.nodup, ?_, hdue.isOpen, ?_⟩
      · rw [hc.view]
        exact hdue.stored
      · rw [hc.block]
        exact hdue.isClosed
    obtain ⟨hP, hw'⟩ := hp.induct (hw.quiet hc) hparams' hdue' (quiet _ _ _ hw start hc)
      fun ss p c s d => step params ss p c s d
    exact ⟨quiet _ _ _ hw' hP hd, hw'.quiet hd⟩

theorem Incident.agrees (i : Incident) (c : Chain) :
    c.store.view.Agrees (i.apply c).store.view := by
  cases i with
  | failScan | failLots | failProposals =>
    cases h : c.store <;> simp only [apply, h] <;> exact ⟨rfl, rfl, rfl, rfl⟩
  | _ => exact ⟨rfl, rfl, rfl, rfl⟩

theorem Incident.sound (i : Incident) (c : Chain) (h : c.store.Sound) :
    (i.apply c).store.Sound := by
  cases i with
  | failScan | failLots | failProposals =>
    cases hs : c.store <;> simp only [hs] at h <;> simp only [apply, hs] <;> exact h
  | _ => exact h

theorem Incident.lotAt (i : Incident) (c : Chain) :
    (i.apply c).store.lotAt = c.store.lotAt := by
  cases i with
  | failScan | failLots | failProposals => cases h : c.store <;> simp only [apply, h] <;> rfl
  | _ => rfl

structure Chain.SameRecords (c d : Chain) : Prop where
  proposals : d.store.view.proposals = c.store.view.proposals
  votes : d.store.view.votes = c.store.view.votes
  lots : d.store.lotAt = c.store.lotAt
  nextId : c.store.view.nextId.toNat ≤ d.store.view.nextId.toNat

theorem Chain.Quiet.sameRecords (h : c.Quiet d) : c.SameRecords d where
  proposals := by rw [h.view]
  votes := by rw [h.view]
  lots := h.lots
  nextId := by rw [h.view]

theorem Refuses.sameRecords (h : Refuses k c d) : c.SameRecords d := by
  obtain ⟨next, hv, hn⟩ := h.view
  exact ⟨by rw [hv], by rw [hv], h.lots, by rwa [hv]⟩

theorem Chain.SameRecords.putParams (c : Chain) (b : Bytes) :
    c.SameRecords { c with store := c.store.putParams b } := by
  have hb := Store.putParams_becomes c.store b
  exact ⟨by rw [hb.view], by rw [hb.view], hb.lots, by rw [hb.view]⟩

theorem Incident.sameRecords (i : Incident) (c : Chain) : c.SameRecords (i.apply c) where
  proposals := (i.agrees c).proposals
  votes := (i.agrees c).votes
  lots := i.lotAt c
  nextId := by rw [(i.agrees c).nextId]

theorem Chain.WellKept.endsBlock {fs : List Finalized} (hw : c.WellKept)
    (h : k.endBlock c = .ok fs d) :
    EndsBlock k c (k.settledAt c) d ∧ fs = (k.settledAt c).map (·.finalized) :=
  (endBlock_ends (storeAtPermit_of_steady hw.steady) hw.sound hw.owned).of_ok h

theorem Chain.WellKept.incidents (h : c.WellKept) (i : Incident) : (i.apply c).WellKept :=
  h.of_same (by cases i <;> rfl) (i.sound c) (i.sameRecords c).proposals (i.sameRecords c).nextId

theorem Chain.WellKept.changes {op : Operation} {es : List Event} {fs : List Finalized}
    (h : c.WellKept) (hc : Changes k c op es fs d) : d.WellKept := by
  cases hc with
  | opened ho => exact h.opens ho
  | refused hr => exact h.refuses hr
  | cast hv => exact h.casts hv
  | ended he _ => exact (he.induct (P := fun _ _ => True) h trivial (fun _ _ _ _ _ _ => trivial)
      fun _ _ _ _ _ _ _ _ _ => trivial).2
  | updated _ hd => exact (h.updates _).quiet hd
  | moved => exact h.of_same rfl id rfl (Nat.le_refl _)
  | incident => exact h.incidents _
  | quiet hq => exact h.quiet hq

theorem Changes.proposals {op : Operation} {es : List Event} {fs : List Finalized}
    (h : Changes k c op es fs d) :
    (∃ s p, op = .submit s ∧ Opens k s c p d ∧ k.submit s c = .ok p.id d) ∨
    (op = .endBlock ∧ EndsBlock k c (k.settledAt c) d) ∨
    d.store.view.proposals = c.store.view.proposals := by
  cases h with
  | opened h hid => exact .inl ⟨_, _, rfl, h, hid⟩
  | refused h => exact .inr (.inr h.sameRecords.proposals)
  | cast h => exact .inr (.inr (by rw [h.view]))
  | ended h => exact .inr (.inl ⟨rfl, h⟩)
  | updated _ h => exact .inr (.inr (by rw [h.view, Store.view_putParams]))
  | moved => exact .inr (.inr rfl)
  | @incident i => exact .inr (.inr (i.sameRecords c).proposals)
  | quiet h => exact .inr (.inr h.sameRecords.proposals)

theorem changes_moment (k : Keeper) (hw : c.WellKept) (op : Operation) :
    Changes k c op (k.moment op c).events (k.moment op c).finalized (k.moment op c).after :=
  changes hw.steady hw.sound hw.owned op

namespace Invariant

variable {A : Operation → Prop} {P : List Event → Chain → Prop}

theorem changes (hI : Invariant k A P) {op : Operation} {es es' : List Event}
    {fs : List Finalized} (hA : A op) (hw : c.WellKept) (hP : P es c)
    (hc : Changes k c op es' fs d) : P (es ++ es') d := by
  cases hc with
  | opened ho => exact hI.opens hA hw hP ho
  | refused hr => simpa using hI.refuses hw hP hr
  | cast hv => exact hI.casts hw hP hv
  | ended he _ =>
    refine (he.induct (P := fun ss c => P (es ++ ss.map Settled.event) c) hw (by simpa using hP)
      (fun _ _ _ hw hP hq => hI.quiet hw hP hq) ?_).1
    intro params ss p c s d hw hP hf
    simpa using hI.finalizes hw hP hf
  | updated hv hd => simpa using hI.quiet (hw.updates _) (hI.updates hA hw hP hv) hd
  | moved => simpa using hI.moves _ hw hP
  | incident => simpa using hI.incidents _ hA hw hP
  | quiet hq => simpa using hI.quiet hw hP hq

theorem keeps {Q : Chain → Prop} (hI : Invariant k A fun _ c => Q c) {op : Operation}
    {es : List Event} {fs : List Finalized} (hA : A op) (hw : c.WellKept) (hQ : Q c)
    (hc : Changes k c op es fs d) : Q d := by
  have hd := @changes k c d A (fun _ c => Q c) hI op [] es fs hA hw hQ hc
  exact hd

theorem run (hI : Invariant k A P) {ops : List Operation} (hA : ∀ op ∈ ops, A op)
    (hw : c.WellKept) (hP : P [] c) :
    P ((k.history ops c).flatMap Moment.events) (k.after ops c) := by
  refine (Keeper.history_induction
    (P := fun ms c => c.WellKept ∧ P (ms.flatMap Moment.events) c) ⟨hw, hP⟩ ?_).2
  intro ms op c hop ⟨hw, hP⟩
  have hc := changes_moment k hw op
  rw [List.flatMap_append, List.flatMap_singleton]
  exact ⟨hw.changes hc, hI.changes (hA op hop) hw hP hc⟩

/-- What the events and the stored proposals, votes and lots tell, if it stays while ids are given
out, is checked against what opens, casts and finalizes alone. -/
theorem of_records
    (congr : ∀ {es : List Event} {c d : Chain}, P es c → c.SameRecords d → P es d)
    (opens : ∀ {es : List Event} {c d : Chain} {s : Submission} {p : Proposal} {kind : String}
      {proposer : Address}, A (.submit s) → c.WellKept → P es c → Opens k s c p d →
        P (es ++ [.proposalSubmitted p.id kind proposer]) d)
    (casts : ∀ {es : List Event} {c d : Chain} {v : Vote}, c.WellKept → P es c → Casts c v d →
      P (es ++ [.voteCast v]) d)
    (finalizes : ∀ {es : List Event} {c d : Chain} {params : Params} {p : Proposal} {s : Settled},
      c.WellKept → P es c → Finalizing k params p c s d → P (es ++ [s.event]) d) :
    Invariant k A P where
  quiet _ h hq := congr h hq.sameRecords
  opens := opens
  refuses _ h hr := congr h hr.sameRecords
  casts := casts
  finalizes := finalizes
  updates _ _ h _ := congr h (.putParams _ _)
  moves _ _ h := congr h ⟨rfl, rfl, rfl, Nat.le_refl _⟩
  incidents i _ _ h := congr h (i.sameRecords _)

end Invariant

theorem Chain.WellKept.after (hw : c.WellKept) (k : Keeper) (ops : List Operation) :
    (k.after ops c).WellKept :=
  Keeper.history_induction (P := fun _ c => c.WellKept) hw
    fun _ op _ _ hw => hw.changes (changes_moment k hw op)

end DaoGovernance
