import DaoGovernance.Genesis.Basic
import DaoGovernance.Proofs.Invariant
import DaoGovernance.Proofs.Store.Contents
import Mathlib

/-!
Where runs start: what a genesis is checked for and what loading it consists of, and the starts at an
empty store with valid params.
-/

namespace DaoGovernance

open DaoGovernance.Action

/-- Nothing was ever written to the store but, in tables, the version of their schema. -/
def Store.IsEmpty : Store → Prop
  | .memory s => s.proposals = .empty ∧ s.votes = .empty ∧ s.lots = .empty ∧ s.params = none ∧
      s.nextId = 0
  | .tables t => t.proposals = .empty ∧ t.votes = .empty ∧ t.lots = .empty ∧ t.params = .empty ∧
      t.info.get? TableStore.sequenceKey = none

namespace Store.IsEmpty

variable {s : Store}

theorem sound (h : s.IsEmpty) : s.Sound := by
  cases s with
  | memory s => trivial
  | tables t =>
    obtain ⟨hp, hv, -, -, hn⟩ := h
    refine ⟨?_, ?_, ?_⟩
    · rw [hp]
      exact Table.KeyedBy.empty
    · rw [hv]
      exact Table.KeyedBy.empty
    · intro bs hbs
      rw [hn] at hbs
      cases hbs

theorem proposals (h : s.IsEmpty) (id : UInt64) : s.view.proposals id = none := by
  cases s with
  | memory s => simp [view, h.1]
  | tables t => simp [view, TableStore.getProposal, h.1]

theorem votes (h : s.IsEmpty) (key : UInt64 × Address) : s.view.votes key = none := by
  cases s with
  | memory s => simp [view, h.2.1]
  | tables t => simp [view, TableStore.getVote, h.2.1]

theorem keyed (h : s.IsEmpty) : s.Keyed := by
  refine ⟨h.sound, ?_⟩
  cases s with
  | memory s => trivial
  | tables t =>
    rw [Store.LotsKeyed, h.2.2.1]
    exact Table.KeyedBy.empty

theorem lots (h : s.IsEmpty) (key : Address × UInt64) : s.lotAt key = none := by
  cases s with
  | memory s => simp [lotAt, h.2.2.1]
  | tables t => simp [lotAt, h.2.2.1]

end Store.IsEmpty

variable {c d : Chain}

/-! ### What a genesis writes -/

namespace Genesis

theorem checkIds_eq_ok {next : UInt64} {ps : List Proposal} :
    checkIds next ps = .ok () ↔ ∀ p ∈ ps, p.id.toNat < next.toNat := by
  induction ps with
  | nil => simp [checkIds]
  | cons p ps ih =>
    rw [List.forall_mem_cons, ← ih, checkIds, ← UInt64.lt_iff_toNat_lt, ← UInt64.not_le]
    split <;> simp [*]

theorem checkVotes_eq_ok {ps : List Proposal} {vs : List Vote} :
    checkVotes ps vs = .ok () ↔ ∀ v ∈ vs, ∃ p ∈ ps, p.id = v.proposal := by
  induction vs with
  | nil => simp [checkVotes]
  | cons v vs ih =>
    rw [List.forall_mem_cons, ← ih, checkVotes]
    split <;> simp_all

theorem validate_eq_ok {g : Genesis} : g.validate = .ok () ↔
    (∀ p ∈ g.proposals, p.id.toNat < g.nextId.toNat) ∧
      ∀ v ∈ g.votes, ∃ p ∈ g.proposals, p.id = v.proposal := by
  rw [← checkIds_eq_ok, ← checkVotes_eq_ok, validate]
  cases checkIds g.nextId g.proposals <;> simp

inductive Step
  | params (p : Params)
  | proposal (p : Proposal)
  | vote (v : Vote)
  | lot (l : Lot)
  | nextId (id : UInt64)

def Step.run : Step → Store → Except GovernanceError Store
  | .params p, s => s.setParams p
  | .proposal p, s => s.setProposal p
  | .vote v, s => .ok (s.setVote v)
  | .lot l, s => s.setLot l
  | .nextId id, s => .ok (s.setNextId id)

end Genesis

/-- What holds of each write of a load and of actions put together from actions it holds of. -/
structure HoldsOfLoading (H : (α : Type) → Action α → Prop) : Prop extends Compositional H where
  write (w : Genesis.Step) : H _ (write w.run)

namespace HoldsOfLoading

variable {H : (α : Type) → Action α → Prop}

theorem usableParams (h : HoldsOfLoading H) (g : Genesis) : H _ g.usableParams := by
  unfold Genesis.usableParams
  split
  · exact h.pure _
  · exact h.bind (h.note _) fun _ => h.pure _

theorem writeProposals (h : HoldsOfLoading H) (ps : List Proposal) :
    H _ (Genesis.writeProposals ps) := by
  induction ps with
  | nil => exact h.pure _
  | cons p ps ih => exact h.bind (h.write (.proposal p)) fun _ => ih

theorem writeVotes (h : HoldsOfLoading H) (vs : List Vote) : H _ (Genesis.writeVotes vs) := by
  induction vs with
  | nil => exact h.pure _
  | cons v vs ih => exact h.bind (h.write (.vote v)) fun _ => ih

theorem writeLots (h : HoldsOfLoading H) (ls : List Lot) : H _ (Genesis.writeLots ls) := by
  induction ls with
  | nil => exact h.pure _
  | cons l ls ih => exact h.bind (h.write (.lot l)) fun _ => ih

theorem load (h : HoldsOfLoading H) (g : Genesis) : H _ g.load := by
  have hcheck : H _ (check g.validate) := by
    cases g.validate with
    | ok u => exact h.pure u
    | error e => exact h.throw e
  refine h.bind hcheck fun _ => h.bind (h.usableParams g) fun params => ?_
  refine h.bind (h.write (.params params)) fun _ => h.bind (h.writeProposals _) fun _ => ?_
  refine h.bind (h.writeVotes _) fun _ => h.bind (h.writeLots _) fun _ => ?_
  exact h.bind (h.write (.nextId g.nextId)) fun _ => h.note _

end HoldsOfLoading

/-! ### Starts without proposals -/

structure Chain.Fresh (p : Params) (c : Chain) : Prop where
  store : ∃ s : Store, s.IsEmpty ∧ c.store = s.putParams p.encode
  valid : p.validate = .ok ()
  fits : p.Fits
  steady : c.faults.permitStopsWrites = false

namespace Chain.Fresh

variable {p : Params}

theorem params (h : c.Fresh p) : c.store.view.params = some p.encode := by
  obtain ⟨s, -, hs⟩ := h.store
  rw [hs, Store.view_putParams]

theorem proposals (h : c.Fresh p) (id : UInt64) : c.store.view.proposals id = none := by
  obtain ⟨s, hempty, hs⟩ := h.store
  rw [hs, Store.view_putParams]
  exact hempty.proposals id

theorem proposal (h : c.Fresh p) (id : UInt64) : c.store.view.proposal id = none := by
  rw [Store.View.proposal, h.proposals]
  rfl

theorem votes (h : c.Fresh p) (key : UInt64 × Address) : c.store.view.votes key = none := by
  obtain ⟨s, hempty, hs⟩ := h.store
  rw [hs, Store.view_putParams]
  exact hempty.votes key

theorem lots (h : c.Fresh p) (key : Address × UInt64) : c.store.lotAt key = none := by
  obtain ⟨s, hempty, hs⟩ := h.store
  rw [hs, (Store.putParams_becomes s p.encode).lots]
  exact hempty.lots key

theorem wellKept (h : c.Fresh p) : c.WellKept where
  steady := h.steady
  sound := by
    obtain ⟨s, hempty, hs⟩ := h.store
    rw [hs]
    exact hempty.sound.putParams _
  owned id q hq := by
    rw [h.proposal] at hq
    cases hq
  below id b hb := by
    rw [h.proposals] at hb
    cases hb

end Chain.Fresh

structure Chain.Readable (c : Chain) : Prop where
  params : ∃ p : Params, c.store.view.params = some p.encode ∧ p.Fits ∧ p.validate = .ok ()
  proposals : ∀ id b, c.store.view.proposals id = some b → ∃ p, Proposal.decode b = .ok p

theorem Chain.Fresh.readable {p : Params} (h : c.Fresh p) : c.Readable where
  params := ⟨p, h.params, h.fits, h.valid⟩
  proposals id b hb := by
    rw [h.proposals] at hb
    cases hb

theorem Chain.Readable.congr (h : c.Readable) (hp : d.store.view.params = c.store.view.params)
    (hv : d.store.view.proposals = c.store.view.proposals) : d.Readable where
  params := hp ▸ h.params
  proposals := hv ▸ h.proposals

theorem Chain.Readable.put (h : c.Readable) {p : Proposal} (hp : p.Fits)
    (hd : d.store.view.params = c.store.view.params)
    (hv : d.store.view.proposals = (c.store.view.put p).proposals) : d.Readable where
  params := hd ▸ h.params
  proposals id b hb := by
    rw [hv] at hb
    by_cases hid : id = p.id
    · subst hid
      rw [Store.View.proposals_put_self] at hb
      cases hb
      exact ⟨p, Proposal.decode_encode hp⟩
    · rw [Store.View.proposals_put_of_ne hid] at hb
      exact h.proposals id b hb

theorem Chain.Readable.proposals_eq (h : c.Readable) (hw : c.WellKept) :
    ∃ ps, c.store.proposals = .ok ps ∧ (ps.map (·.id)).Nodup ∧
      ∀ id p, c.store.view.proposal id = some p ↔ p ∈ ps ∧ p.id = id := by
  obtain ⟨ps, hps, hn, hm⟩ := Store.proposals_eq hw.sound hw.owned h.proposals
  refine ⟨ps, hps, hn, fun id p => ?_⟩
  constructor
  · intro hp
    obtain rfl := hw.owned id p hp
    exact ⟨(hm p).2 hp, rfl⟩
  · rintro ⟨hp, rfl⟩
    exact (hm p).1 hp

theorem readable_invariant (k : Keeper) : Invariant k Operation.Fits fun _ c => c.Readable where
  quiet _ h hq := h.congr (by rw [hq.view]) (by rw [hq.view])
  opens hA _ h ho := h.put (ho.fits hA) (by rw [ho.view]; rfl) (by rw [ho.view])
  refuses _ h hr := by
    obtain ⟨id, hv, -⟩ := hr.view
    exact h.congr (by rw [hv]) (by rw [hv])
  casts _ h hv := h.congr (by rw [hv.view]) (by rw [hv.view])
  finalizes _ h hf := h.put ((Store.View.fits_of_proposal hf.stored).finish _ _)
    (by rw [hf.view]; rfl) (by rw [hf.view])
  updates {es c p} hA _ h hv := by
    refine ⟨⟨p, ?_, hA, hv⟩, ?_⟩
    · rw [Store.view_putParams]
    · rw [Store.view_putParams]
      exact h.proposals
  moves _ _ h := h.congr rfl rfl
  incidents i _ _ h := h.congr (i.agrees _).params (i.agrees _).proposals

namespace Sample

def start : Chain := .fresh (Store.emptyMemory.putParams Params.default.encode)

theorem start_fresh : start.Fresh .default where
  store := ⟨.emptyMemory, ⟨rfl, rfl, rfl, rfl, rfl⟩, rfl⟩
  valid := rfl
  fits := by decide
  steady := rfl

end Sample

end DaoGovernance
