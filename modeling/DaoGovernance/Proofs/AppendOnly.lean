import DaoGovernance.Proofs.Genesis.Loading
import Mathlib

/-!
Proposals and votes are only ever added.  A proposal gets an id above all that were given before, and
no vote is on a proposal that is not there yet.
-/

namespace DaoGovernance

variable {k : Keeper} {c c' d : Chain} {id : UInt64} {ms : List Moment}

/-! ### Growth -/

/-- No proposal and no vote of `c` is gone at `d`, the votes are as they were, and no id is given out
again. -/
structure Chain.Grows (c d : Chain) : Prop where
  proposals : ∀ id, c.store.view.proposals id ≠ none → d.store.view.proposals id ≠ none
  votes : ∀ key b, c.store.view.votes key = some b → d.store.view.votes key = some b
  nextId : c.store.view.nextId.toNat ≤ d.store.view.nextId.toNat

theorem Store.View.put_ne_none {v : View} (p : Proposal) (h : v.proposals id ≠ none) :
    (v.put p).proposals id ≠ none := by
  by_cases hid : id = p.id
  · rw [hid, proposals_put_self]
    exact Option.some_ne_none _
  · rwa [proposals_put_of_ne hid]

namespace Chain.Grows

theorem refl (c : Chain) : c.Grows c := ⟨fun _ h => h, fun _ _ h => h, Nat.le_refl _⟩

theorem congr (h : c.Grows c') (hs : c'.SameRecords d) : c.Grows d where
  proposals := hs.proposals ▸ h.proposals
  votes := hs.votes ▸ h.votes
  nextId := h.nextId.trans hs.nextId

theorem put (h : c.Grows c') (p : Proposal)
    (hp : d.store.view.proposals = (c'.store.view.put p).proposals)
    (hv : d.store.view.votes = c'.store.view.votes)
    (hn : c'.store.view.nextId.toNat ≤ d.store.view.nextId.toNat) : c.Grows d where
  proposals id hid := hp ▸ Store.View.put_ne_none p (h.proposals id hid)
  votes := hv ▸ h.votes
  nextId := h.nextId.trans hn

theorem casts {v : Vote} (h : c.Grows c') (hv : Casts c' v d) : c.Grows d where
  proposals := hv.view ▸ h.proposals
  votes key b hb := by
    have hkept := h.votes key b hb
    have hne : key ≠ v.key := by
      rintro rfl
      rw [hv.first] at hkept
      cases hkept
    rw [hv.view]
    exact (Function.update_of_ne hne ..).trans hkept
  nextId := hv.view ▸ h.nextId

end Chain.Grows

theorem grows_invariant (k : Keeper) (c : Chain) :
    Invariant k (fun _ => True) fun _ d => c.Grows d := by
  apply Invariant.of_records
  · exact Chain.Grows.congr
  · intro _ c' d s p _ _ _ _ h ho
    exact h.put p ho.proposals (by rw [ho.view]; rfl) ho.nextId_le
  · intro _ c' d v _ h hv
    exact h.casts hv
  · intro _ c' d params p s _ h hf
    exact h.put _ hf.proposals (by rw [hf.view]; rfl) (Nat.le_of_eq (congrArg _ hf.nextId.symm))

theorem grows_after (k : Keeper) (hw : c.WellKept) (ops : List Operation) :
    c.Grows (k.after ops c) :=
  (grows_invariant k c).run (fun _ _ => trivial) hw (.refl c)

/-! ### Votes -/

def Chain.VotesBelow (c : Chain) : Prop :=
  RecordsOf Vote.key Vote.encode (fun v => v.proposal.toNat < c.store.view.nextId.toNat)
    c.store.view.votes

theorem Chain.VotesBelow.congr (h : c.VotesBelow) (hv : d.store.view.votes = c.store.view.votes)
    (hn : c.store.view.nextId.toNat ≤ d.store.view.nextId.toNat) : d.VotesBelow := by
  rw [VotesBelow, hv]
  exact h.mono fun v hlt => hlt.trans_le hn

theorem Chain.VotesBelow.casts {v : Vote} (h : c.VotesBelow) (hw : c.WellKept)
    (hv : Casts c v d) : d.VotesBelow := by
  -- The proposal that is voted on is stored, and so below the next id.
  have hlt : v.proposal.toNat < c.store.view.nextId.toNat := by
    obtain ⟨p, hp, -, -⟩ := hv.isOpen
    obtain ⟨b, hb, -⟩ := Store.View.proposal_eq_some.1 hp
    exact hw.below _ b hb
  rw [VotesBelow, hv.view]
  exact RecordsOf.update h hlt

theorem votesBelow_invariant (k : Keeper) :
    Invariant k (fun _ => True) fun _ c => c.VotesBelow := by
  apply Invariant.of_records
  · intro _ c d h hs
    exact h.congr hs.votes hs.nextId
  · intro _ c d s p _ _ _ _ h ho
    exact h.congr (by rw [ho.view]; rfl) ho.nextId_le
  · intro _ c d v hw h hv
    exact h.casts hw hv
  · intro _ c d params p s _ h hf
    exact h.congr (by rw [hf.view]; rfl) (Nat.le_of_eq (congrArg _ hf.nextId.symm))

theorem Genesis.votesBelow_of_load {g : Genesis} {u : Unit} (h : g.load c = .ok u d)
    (hempty : c.store.IsEmpty) : d.VotesBelow := by
  obtain ⟨hvalid, hfill⟩ := (load_ends g).of_ok h
  obtain ⟨hids, hvotes⟩ := validate_eq_ok.1 hvalid
  have hnext : d.store.view.nextId = g.nextId := by rw [hfill.view]
  rw [Chain.VotesBelow, (hfill.view_eq hempty).2.1, hnext]
  apply RecordsOf.empty.overwrite
  intro v hv
  obtain ⟨p, hp, hid⟩ := hvotes v hv
  rw [← hid]
  exact hids p hp

/-! ### Ids -/

def Moment.submitted (m : Moment) : Option UInt64 :=
  match m.result with
  | .ok (.submitted id) => some id
  | _ => none

theorem Moment.submitted_eq_some {m : Moment} :
    m.submitted = some id ↔ m.result = .ok (.submitted id) := by
  unfold submitted
  split <;> simp_all

theorem opens_of_result {op : Operation} (hw : c.WellKept)
    (h : (k.moment op c).result = .ok (.submitted id)) :
    ∃ s p, p.id = id ∧ Opens k s c p (k.moment op c).after := by
  obtain ⟨s, rfl, hx⟩ := Keeper.submit_of_result h
  exact ⟨s, (submit_ends hw.sound s).of_ok hx⟩

/-- The ids that were given are each above the earlier ones, and all below the next. -/
structure Numbered (ms : List Moment) (c : Chain) : Prop where
  ascending : (ms.filterMap Moment.submitted).Pairwise (· < ·)
  below : ∀ id ∈ ms.filterMap Moment.submitted, id.toNat < c.store.view.nextId.toNat

theorem Numbered.step (h : Numbered ms c) (hw : c.WellKept) (op : Operation) :
    Numbered (ms ++ [k.moment op c]) (k.moment op c).after := by
  cases hid : (k.moment op c).submitted with
  | none =>
    have hids : (ms ++ [k.moment op c]).filterMap Moment.submitted =
        ms.filterMap Moment.submitted := by simp [hid]
    have hgrows := grows_after k hw [op]
    refine ⟨hids ▸ h.ascending, fun id hm => ?_⟩
    rw [hids] at hm
    exact (h.below id hm).trans_le hgrows.nextId
  | some id =>
    have hids : (ms ++ [k.moment op c]).filterMap Moment.submitted =
        ms.filterMap Moment.submitted ++ [id] := by simp [hid]
    obtain ⟨s, p, rfl, ho⟩ := opens_of_result hw (Moment.submitted_eq_some.1 hid)
    have hlt : ∀ i ∈ ms.filterMap Moment.submitted, i < p.id := by
      intro i hi
      rw [UInt64.lt_iff_toNat_lt, ho.id_eq]
      exact h.below i hi
    refine ⟨?_, fun i hm => ?_⟩
    · rw [hids, List.pairwise_append]
      refine ⟨h.ascending, List.pairwise_singleton _ _, fun i hi j hj => ?_⟩
      rw [List.mem_singleton.1 hj]
      exact hlt i hi
    · rw [hids] at hm
      rw [ho.nextId, Nat.lt_succ_iff]
      rcases List.mem_append.1 hm with hm | hm
      · exact Nat.le_of_lt (UInt64.lt_iff_toNat_lt.1 (hlt i hm))
      · rw [List.mem_singleton.1 hm]

theorem numbered_history (k : Keeper) (hw : c.WellKept) (ops : List Operation) :
    Numbered (k.history ops c) (k.after ops c) := by
  refine (Keeper.history_induction (P := fun ms c => c.WellKept ∧ Numbered ms c) ?_ ?_).2
  · exact ⟨hw, .nil, nofun⟩
  · intro ms op c _ ⟨hw, h⟩
    exact ⟨hw.changes (changes_moment k hw op), h.step hw op⟩

/-! ### Runs -/

/-- A run only adds proposals and votes, and it adds proposals under ids that were never used. -/
structure Keeper.AppendsOnly (k : Keeper) (ops : List Operation) (c : Chain) : Prop where
  proposals : ∀ ops₁ ops₂, ops₁ ++ ops₂ <+: ops → ∀ id,
    (k.after ops₁ c).store.getProposal id ≠ none →
      (k.after (ops₁ ++ ops₂) c).store.getProposal id ≠ none
  votes : ∀ ops₁ ops₂, ops₁ ++ ops₂ <+: ops → ∀ id a b,
    (k.after ops₁ c).store.getVote id a = some b →
      (k.after (ops₁ ++ ops₂) c).store.getVote id a = some b
  below : ∀ ops₁, ops₁ <+: ops → ∃ next, (k.after ops₁ c).store.nextId = .ok next ∧
    (∀ id b, (k.after ops₁ c).store.getProposal id = some b →
      id < next ∧ ∀ p, Proposal.decode b = .ok p → p.id = id) ∧
    ∀ id a b, (k.after ops₁ c).store.getVote id a = some b →
      id < next ∧ ∃ v, Vote.decode b = .ok v ∧ v.key = (id, a)
  unused : ∀ m ∈ k.history ops c, ∀ id, m.result = .ok (.submitted id) →
    m.before.store.getProposal id = none ∧ ∀ a, m.before.store.getVote id a = none
  ascending : ((k.history ops c).filterMap Moment.submitted).Pairwise (· < ·)

theorem Chain.VotesBelow.unused {s : Submission} {p : Proposal} (h : c.VotesBelow)
    (ho : Opens k s c p d) (a : Address) : c.store.view.votes (p.id, a) = none := by
  rw [Option.eq_none_iff_forall_ne_some]
  intro b hb
  obtain ⟨v, hkey, hlt, -⟩ := h _ b hb
  rw [(Prod.mk.inj hkey).1, ho.id_eq] at hlt
  exact Nat.lt_irrefl _ hlt

theorem appendsOnly_of_load (k : Keeper) {g : Genesis} {u : Unit} (ops : List Operation)
    (hload : g.load c = .ok u d) (hempty : c.store.IsEmpty)
    (hsteady : c.faults.permitStopsWrites = false) : k.AppendsOnly ops d := by
  have hw := Genesis.wellKept_of_load hload hempty hsteady
  have hbelow : ∀ ops, (k.after ops d).VotesBelow := fun ops =>
    (votesBelow_invariant k).run (fun _ _ => trivial) hw
      (Genesis.votesBelow_of_load hload hempty)
  have hgrows : ∀ ops₁ ops₂, (k.after ops₁ d).Grows (k.after (ops₁ ++ ops₂) d) := by
    intro ops₁ ops₂
    rw [Keeper.after_append]
    exact grows_after k (hw.after k ops₁) ops₂
  refine ⟨?_, ?_, ?_, ?_, (numbered_history k hw ops).ascending⟩
  · intro ops₁ ops₂ _ id hid
    rw [Store.getProposal_eq] at hid ⊢
    exact (hgrows ops₁ ops₂).proposals id hid
  · intro ops₁ ops₂ _ id a b hb
    rw [Store.getVote_eq] at hb ⊢
    exact (hgrows ops₁ ops₂).votes (id, a) b hb
  · intro ops₁ _
    have hw₁ := hw.after k ops₁
    refine ⟨_, hw₁.sound.nextId_eq, fun id b hb => ⟨?_, fun p hp => ?_⟩, fun id a b hb => ?_⟩
    · rw [Store.getProposal_eq] at hb
      exact UInt64.lt_iff_toNat_lt.2 (hw₁.below id b hb)
    · rw [Store.getProposal_eq] at hb
      exact hw₁.owned id p (Store.View.proposal_eq_some.2 ⟨b, hb, hp⟩)
    · rw [Store.getVote_eq] at hb
      obtain ⟨v, hkey, hlt, rfl⟩ := hbelow ops₁ (id, a) b hb
      rw [(Prod.mk.inj hkey).1] at hlt
      exact ⟨UInt64.lt_iff_toNat_lt.2 hlt, v, v.decode_encode, hkey⟩
  · intro m hm id hid
    obtain ⟨ops₁, op, -, -, rfl⟩ := Keeper.mem_history.1 hm
    have hw₁ := hw.after k ops₁
    obtain ⟨s, p, rfl, ho⟩ := opens_of_result hw₁ hid
    rw [Keeper.moment_before]
    refine ⟨?_, fun a => ?_⟩
    · rw [Store.getProposal_eq]
      exact ho.unused hw₁
    · rw [Store.getVote_eq]
      exact (hbelow ops₁).unused ho a

namespace Sample

def submissions : List Operation := [
  .incident (.fund proposer ⟨"stake", 200000000⟩),
  .submit submission,
  .submit { submission with content := some (Content.addLabel "bar").pack }]

end Sample

theorem withVote_appendsOnly :
    ∃ d, (Sample.withVotes [⟨0, Sample.proposer, .yes, 2⟩]).load (.fresh .emptyMemory) = .ok () d ∧
      Sample.keeper.AppendsOnly Sample.submissions d ∧
      (Sample.keeper.history Sample.submissions d).filterMap Moment.submitted = [1] := by
  refine ⟨_, rfl, ?_, ?_⟩
  · exact appendsOnly_of_load Sample.keeper (g := Sample.withVotes [⟨0, Sample.proposer, .yes, 2⟩])
      (c := .fresh .emptyMemory) (u := ()) Sample.submissions rfl Sample.emptyMemory_isEmpty rfl
  · decide +kernel

end DaoGovernance
