import DaoGovernance.Proofs.Genesis.Loading
import Mathlib

/-!
What a load that fails leaves.  A genesis that is not valid is turned down before anything is
written.  After that only a switch of the store in memory can stop a load, and then the params, which
are written first, are there already: the store does not look fresh any more.
-/

namespace DaoGovernance

open DaoGovernance.Action

variable {g : Genesis} {c d : Chain} {e : GovernanceError}

/-! ### Lists that cannot be written -/

theorem eq_of_write_fails {f : Store → Except GovernanceError Store} {rest : Action Unit}
    (hf : ∃ e, f c.store = .error e) (h : (write f >>= fun _ => rest) c = .error e d) : d = c := by
  obtain ⟨e', he⟩ := hf
  rcases bind_eq_error.1 h with h | ⟨_, c₁, hwrite, -⟩
  · exact (write_eq_error.1 h).2
  · obtain ⟨s, hs, -⟩ := write_eq_ok.1 hwrite
    cases hs.symm.trans he

theorem writeProposals_eq_error {ps : List Proposal}
    (h : Genesis.writeProposals ps c = .error e d) :
    c.store.view.failProposals = true ∧ ps ≠ [] ∧ d = c := by
  have hfail := (Genesis.writeProposals_ends ps).of_error h
  cases ps with
  | nil => cases h
  | cons p ps =>
    refine ⟨hfail, List.cons_ne_nil _ _, ?_⟩
    rcases Store.setProposal_eq c.store p with ⟨-, he⟩ | ⟨hworks, -⟩
    · exact eq_of_write_fails he h
    · cases hworks.symm.trans hfail

theorem writeLots_eq_error {ls : List Lot} (h : Genesis.writeLots ls c = .error e d) :
    c.store.view.failLots = true ∧ ls ≠ [] ∧ d = c := by
  have hfail := (Genesis.writeLots_ends ls).of_error h
  cases ls with
  | nil => cases h
  | cons l ls =>
    refine ⟨hfail, List.cons_ne_nil _ _, ?_⟩
    rcases Store.setLot_eq c.store l with ⟨-, he⟩ | ⟨hworks, -⟩
    · exact eq_of_write_fails he h
    · cases hworks.symm.trans hfail

/-! ### Loads that break off -/

namespace Genesis

/-- The load of a valid genesis stopped before it came to its end. -/
inductive BreaksOff (g : Genesis) (s t : Store) : Prop
  | atProposals (hfail : s.view.failProposals = true) (hne : g.proposals ≠ [])
      (h : s.Becomes t { s.view with params := some g.paramsToWrite.encode } s.lotAt)
  | atLots (hfail : s.view.failLots = true) (hne : g.lots ≠ [])
      (h : s.Becomes t { s.view with
        proposals := overwrite Proposal.id Proposal.encode s.view.proposals g.proposals
        votes := overwrite Vote.key Vote.encode s.view.votes g.votes
        params := some g.paramsToWrite.encode } s.lotAt)

theorem load_invalid (hg : g.validate = .error e) : g.load c = .error e c :=
  bind_of_error (check_eq_error.2 ⟨hg, rfl⟩)

theorem breaksOff_of_load (hg : g.validate = .ok ()) (h : g.load c = .error e d) :
    g.BreaksOff c.store d.store := by
  have hset (s : Store) : Store.setParams g.paramsToWrite s =
      .ok (s.putParams g.paramsToWrite.encode) := by
    rw [Store.setParams, validate_paramsToWrite]
  rw [load, bind_of_ok (check_eq_ok.2 ⟨hg, rfl⟩)] at h
  rcases bind_eq_error.1 h with hu | ⟨_, c₁, hu, h⟩
  · exact ((usableParams_ends g).of_error hu).elim
  obtain ⟨rfl, h₁⟩ := (usableParams_ends g).of_ok hu
  rw [bind_of_ok (a := ()) (write_eq_ok.2 ⟨_, hset c₁.store, rfl⟩)] at h
  have hb := Store.putParams_becomes c₁.store g.paramsToWrite.encode
  rw [h₁] at hb h
  rcases bind_eq_error.1 h with hp | ⟨_, c₂, hp, h⟩
  · obtain ⟨hfail, hne, rfl⟩ := writeProposals_eq_error hp
    rw [hb.view] at hfail
    exact .atProposals hfail hne hb
  have h₂ := (writeProposals_ends g.proposals).of_ok hp
  dsimp only at h₂
  rw [hb.view, hb.lots] at h₂
  have hb := hb.trans h₂
  rcases bind_eq_error.1 h with hv | ⟨_, c₃, hv, h⟩
  · exact ((writeVotes_ends g.votes).of_error hv).elim
  have h₃ := (writeVotes_ends g.votes).of_ok hv
  rw [hb.view, hb.lots] at h₃
  have hb := hb.trans h₃
  rcases bind_eq_error.1 h with hl | ⟨_, c₄, -, h⟩
  · obtain ⟨hfail, hne, rfl⟩ := writeLots_eq_error hl
    rw [hb.view] at hfail
    exact .atLots hfail hne hb
  -- Neither the next id nor the notice can fail.
  · have hid : write (fun s => .ok (s.setNextId g.nextId)) c₄ =
        .ok () { c₄ with store := c₄.store.setNextId g.nextId } := write_eq_ok.2 ⟨_, rfl, rfl⟩
    cases (bind_of_ok hid).symm.trans h

theorem BreaksOff.isOnTables {s t : Store} (h : g.BreaksOff s t) : s.isOnTables = false := by
  cases s with
  | memory m => rfl
  | tables u =>
    cases h with
    | atProposals hfail => cases hfail
    | atLots hfail => cases hfail

theorem BreaksOff.params {s t : Store} (h : g.BreaksOff s t) :
    t.getParams = some g.paramsToWrite.encode := by
  rw [Store.getParams_eq]
  cases h with
  | atProposals _ _ h => rw [h.view]
  | atLots _ _ h => rw [h.view]

theorem BreaksOff.kept {s t : Store} (h : g.BreaksOff s t) :
    t.view.nextId = s.view.nextId ∧ t.lotAt = s.lotAt := by
  cases h with
  | atProposals _ _ h => exact ⟨by rw [h.view], h.lots⟩
  | atLots _ _ h => exact ⟨by rw [h.view], h.lots⟩

/-- A load that fails changes nothing if it is turned down, and on tables it always is.  Otherwise it
broke off: the lots and the next id are as they were, but a store that had no params has them now. -/
theorem unchanged_iff_invalid (h : g.load c = .error e d) :
    (g.validate = .error e ∧ d = c ∨ g.validate = .ok () ∧ g.BreaksOff c.store d.store) ∧
      c.Stores d ∧ (c.store.isOnTables = true → d = c) ∧
      d.store.view.nextId = c.store.view.nextId ∧ d.store.lotAt = c.store.lotAt ∧
      (c.store.getParams = none → (d.store.getParams = none ↔ g.validate ≠ .ok ()) ∧
        (c.store.Agrees d.store ↔ g.validate ≠ .ok ())) := by
  have hstores := (load_stores g).of_error h
  cases hg : g.validate with
  | error e' =>
    cases (load_invalid hg).symm.trans h
    refine ⟨.inl ⟨rfl, rfl⟩, hstores, fun _ => rfl, rfl, rfl, fun hfresh => ⟨?_, ?_⟩⟩
    · exact ⟨fun _ => nofun, fun _ => hfresh⟩
    · exact ⟨fun _ => nofun, fun _ => ⟨⟨rfl, rfl, rfl, rfl⟩, rfl⟩⟩
  | ok u =>
    have hbreaks := breaksOff_of_load hg h
    obtain ⟨hnext, hlots⟩ := hbreaks.kept
    refine ⟨.inr ⟨rfl, hbreaks⟩, hstores, fun htables => ?_, hnext, hlots, fun hfresh => ⟨?_, ?_⟩⟩
    · cases hbreaks.isOnTables.symm.trans htables
    · refine ⟨fun hnone => ?_, fun hne => absurd rfl hne⟩
      cases hbreaks.params.symm.trans hnone
    · refine ⟨fun hagrees => ?_, fun hne => absurd rfl hne⟩
      cases hbreaks.params.symm.trans (hagrees.getParams.trans hfresh)

end Genesis

/-! ### A store that takes no proposals -/

namespace Sample

def unloadable : Chain := .fresh (.memory { MemoryStore.empty with failProposalWrites := true })

theorem unloadable_fails : ∃ e d, (withVotes []).load unloadable = .error e d :=
  exists_error (by decide +kernel)

theorem unloadable_breaksOff :
    ∃ e d, (withVotes []).load unloadable = .error e d ∧
      (withVotes []).BreaksOff unloadable.store d.store ∧ ¬ unloadable.store.Agrees d.store := by
  obtain ⟨e, d, h⟩ := unloadable_fails
  obtain ⟨hends, -, -, -, -, hfresh⟩ := Genesis.unchanged_iff_invalid h
  refine ⟨e, d, h, ?_, fun hagrees => (hfresh rfl).2.1 hagrees rfl⟩
  rcases hends with ⟨hinvalid, -⟩ | ⟨-, hbreaks⟩
  · cases hinvalid
  · exact hbreaks

/-- The store had no params, and after a load that failed it has. -/
theorem unloadable_not_fresh :
    ∃ e d, (withVotes []).load unloadable = .error e d ∧ unloadable.store.getParams = none ∧
      d.store.getParams = some Params.default.encode := by
  obtain ⟨e, d, h⟩ := unloadable_fails
  exact ⟨e, d, h, rfl, (Genesis.breaksOff_of_load rfl h).params⟩

end Sample

end DaoGovernance
