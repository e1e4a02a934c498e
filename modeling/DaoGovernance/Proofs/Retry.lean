import DaoGovernance.Proofs.Alike
import DaoGovernance.Proofs.Genesis
import Mathlib

/-!
A pass that fails has moved nothing, so that it can be made up for.  It fails before the first
proposal is finalized or not at all: a write that works for one proposal works for all after it.
-/

namespace DaoGovernance

open DaoGovernance.Action

variable {k : Keeper} {params : Params} {c d : Chain} {e : GovernanceError}

theorem finalizeAll_eq_ok (k : Keeper) (params : Params) (hc : c.Writable) (ps : List Proposal) :
    ∃ fs d, k.finalizeAll params ps c = .ok fs d := by
  induction ps generalizing c with
  | nil => exact ⟨[], c, rfl⟩
  | cons p ps ih =>
    obtain ⟨s, c', hs, -, hc'⟩ := exists_finalizes (k := k) hc params p
    obtain ⟨fs, d, hfs⟩ := ih hc'
    refine ⟨s.finalized :: fs, d, ?_⟩
    rw [Keeper.finalizeAll, bind_of_ok (Keeper.finalize_of_traced hs), bind_of_ok hfs]
    rfl

theorem finalizeAll_eq_error (hc : c.storeAtPermit = c.store) {ps : List Proposal}
    (h : k.finalizeAll params ps c = .error e d) : c.Logs d := by
  cases ps with
  | nil => cases h
  | cons p ps =>
    have he := finalizeTraced_ends (k := k) params hc p
    cases hx : k.finalizeTraced params p c with
    | error e' c' =>
      have hfail : k.finalize params p c = .error e' c' := by
        rw [Keeper.finalize_eq]
        exact map_eq_error.2 hx
      rw [Keeper.finalizeAll, bind_of_error hfail] at h
      cases h
      exact (he.of_error hx).1
    | ok s c' =>
      obtain ⟨fs, d', hfs⟩ := finalizeAll_eq_ok k params ((he.of_ok hx).writable hc hx) ps
      rw [Keeper.finalizeAll, bind_of_ok (Keeper.finalize_of_traced hx), bind_of_ok hfs] at h
      cases h

theorem endBlock_eq_error (hc : c.storeAtPermit = c.store) (h : k.endBlock c = .error e d) :
    c.Logs d := by
  cases hparams : c.store.params with
  | error e' =>
    rw [Keeper.endBlock, bind_of_error (read_eq_error.2 ⟨hparams, rfl⟩)] at h
    cases h
    exact refl c
  | ok params =>
    cases hrecords : c.store.proposalRecords with
    | error e' =>
      rw [Keeper.endBlock, bind_of_ok (read_eq_ok.2 ⟨hparams, rfl⟩),
        bind_of_error (read_eq_error.2 ⟨hrecords, rfl⟩)] at h
      cases h
      exact refl c
    | ok records =>
      rw [endBlock_of_records hparams hrecords] at h
      have hnoted : c.Logs { c with log := c.log ++ records.filterMap passNotice } := rfl
      apply IsTrans.trans _ _ _ hnoted
      apply finalizeAll_eq_error _ h
      exact hc

/-- A pass failed at `c` and left `d`, where everything is as before.  If the cause of the failure is
removed, the next pass at `d` ends as the one at `c` would have. -/
structure Keeper.FailsCleanly (k : Keeper) (c d : Chain) : Prop where
  store : d.store = c.store
  ledger : d.ledger = c.ledger
  registry : d.registry = c.registry
  faults : d.faults = c.faults
  block : d.block = c.block
  retry : ∀ fix : Chain → Chain, (∀ a b : Chain, a.Logs b → (fix a).Logs (fix b)) →
    Alike Chain.Logs (k.endBlock (fix c)) (k.endBlock (fix d))

/-- Whatever the store holds and whatever fails, a pass that fails moves nothing, as long as a permit
does not turn the failure of writes on or off. -/
theorem endBlock_failsCleanly (k : Keeper) (hc : c.storeAtPermit = c.store)
    (h : k.endBlock c = .error e d) : k.FailsCleanly c d := by
  have hd := endBlock_eq_error hc h
  refine ⟨?_, ?_, ?_, ?_, ?_, ?_⟩
  · rw [hd]
  · rw [hd]
  · rw [hd]
  · rw [hd]
  · rw [hd]
  · intro fix hfix
    exact endBlock_respects_logs k _ _ (hfix c d hd)

namespace Sample

def unwritten : Chain := (Incident.failProposals true).apply (keeper.after voting start)

end Sample

theorem unwritten_failsCleanly : ∃ e d d', Sample.keeper.endBlock Sample.unwritten = .error e d ∧
    Sample.keeper.FailsCleanly Sample.unwritten d ∧
    Sample.keeper.endBlock ((Incident.failProposals false).apply d) =
      .ok [⟨0, .executed, .refunded⟩] d' := by
  obtain ⟨e, d, h⟩ : ∃ e d, Sample.keeper.endBlock Sample.unwritten = .error e d :=
    exists_error (by decide +kernel)
  have hsteady : Sample.unwritten.faults.permitStopsWrites = false := by decide +kernel
  have hclean := endBlock_failsCleanly _ (Chain.storeAtPermit_of_steady hsteady) h
  obtain ⟨_, hrepaired⟩ := exists_ok (x := Sample.keeper.endBlock)
    (c := (Incident.failProposals false).apply Sample.unwritten)
    (a := [⟨0, .executed, .refunded⟩]) (by decide +kernel)
  have hretry := hclean.retry (Incident.apply · (.failProposals false)) fun a b hab => by
    rw [hab]
    rfl
  rw [hrepaired] at hretry
  obtain ⟨d', hd', -⟩ := hretry.exists_ok
  exact ⟨e, d, d', h, hclean, hd'⟩

end DaoGovernance
