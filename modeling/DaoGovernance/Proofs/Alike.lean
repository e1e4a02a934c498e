import DaoGovernance.Proofs.Effects
import Mathlib

/-!
Actions run from two chains that are related.  If each step ends with one answer at related chains,
so does the whole; in particular no step of a pass reads the log.
-/

namespace DaoGovernance

open DaoGovernance.Action

namespace Action

open EStateM (Result)

variable {α β : Type} {R : Chain → Chain → Prop} {x : Action α} {f : α → Action β}

/-- Two runs ended with one answer or one error, at related chains. -/
inductive Alike (R : Chain → Chain → Prop) :
    Result GovernanceError Chain α → Result GovernanceError Chain α → Prop
  | ok {a : α} {c d : Chain} (h : R c d) : Alike R (.ok a c) (.ok a d)
  | error {e : GovernanceError} {c d : Chain} (h : R c d) : Alike R (.error e c) (.error e d)

theorem Alike.of_ok {a : α} {c c' d d' : Chain} (hc : x c = .ok a c') (hd : x d = .ok a d')
    (h : R c' d') : Alike R (x c) (x d) := by
  rw [hc, hd]
  exact .ok h

theorem Alike.of_error {e : GovernanceError} {c c' d d' : Chain} (hc : x c = .error e c')
    (hd : x d = .error e d') (h : R c' d') : Alike R (x c) (x d) := by
  rw [hc, hd]
  exact .error h

theorem Alike.mono {S : Chain → Chain → Prop} {r s : Result GovernanceError Chain α}
    (h : Alike R r s) (hRS : ∀ c d, R c d → S c d) : Alike S r s := by
  cases h with
  | ok h => exact .ok (hRS _ _ h)
  | error h => exact .error (hRS _ _ h)

theorem Alike.exists_ok {a : α} {c : Chain} {r : Result GovernanceError Chain α}
    (h : Alike R (.ok a c) r) : ∃ d, r = .ok a d ∧ R c d := by
  cases h with
  | ok h => exact ⟨_, rfl, h⟩

def Respects (R : Chain → Chain → Prop) (x : Action α) : Prop :=
  ∀ c d, R c d → Alike R (x c) (x d)

namespace Respects

theorem pure (a : α) : Respects R (Pure.pure a : Action α) := fun _ _ h => .ok h

theorem throw (e : GovernanceError) : Respects R (MonadExcept.throw e : Action α) :=
  fun _ _ h => .error h

theorem bind (hx : Respects R x) (hf : ∀ a, Respects R (f a)) : Respects R (x >>= f) := by
  intro c d hcd
  have h := hx c d hcd
  generalize hc : x c = r at h
  generalize hd : x d = s at h
  cases h with
  | ok h =>
    rw [bind_of_ok hc, bind_of_ok hd]
    exact hf _ _ _ h
  | error h =>
    rw [bind_of_error hc, bind_of_error hd]
    exact .error h

theorem throw_bind (e : GovernanceError) :
    Respects R ((MonadExcept.throw e : Action α) >>= f) := by
  intro c d hcd
  rw [bind_of_error throw_apply, bind_of_error throw_apply]
  exact .error hcd

theorem map (hx : Respects R x) (g : α → β) : Respects R (g <$> x) := by
  rw [← bind_pure_comp]
  exact hx.bind fun a => pure (g a)

theorem attempt (hx : Respects R x) : Respects R (Action.attempt x) := by
  intro c d hcd
  have h := hx c d hcd
  generalize hc : x c = r at h
  generalize hd : x d = s at h
  cases h with
  | ok h =>
    rw [attempt_of_ok hc, attempt_of_ok hd]
    exact .ok h
  | error h =>
    rw [attempt_of_error hc, attempt_of_error hd]
    exact .ok h

theorem of_get {g : Chain → α} (hg : ∀ c d, R c d → g c = g d) (hf : ∀ a, Respects R (f a)) :
    Respects R (get >>= fun c => f (g c)) := by
  intro c d hcd
  rw [bind_of_ok get_apply, bind_of_ok get_apply, hg c d hcd]
  exact hf _ c d hcd

theorem of_get_eq {g : Chain → Action α} (hg : ∀ c d, R c d → g c = x ∧ g d = x)
    (hx : Respects R x) : Respects R (get >>= g) := by
  intro c d hcd
  obtain ⟨hc, hd⟩ := hg c d hcd
  rw [bind_of_ok get_apply, bind_of_ok get_apply, hc, hd]
  exact hx c d hcd

theorem check (r : Except GovernanceError α) : Respects R (Action.check r) := by
  cases r with
  | ok a => exact pure a
  | error e => exact throw e

theorem read {g : Store → Except GovernanceError α} (hg : ∀ c d, R c d → g c.store = g d.store) :
    Respects R (Action.read g) := of_get hg check

end Respects

/-! ### The log -/

theorem Respects.of_log (h : ∀ c log, Alike Chain.Logs (x c) (x { c with log })) :
    Respects Chain.Logs x := by
  intro c d hcd
  rw [hcd]
  exact h c d.log

theorem compositional_respects_logs : Compositional fun _ x => Respects Chain.Logs x where
  pure := .pure
  throw := .throw
  bind := .bind
  attempt := .attempt
  note _ := .of_log fun _ _ => .ok rfl

theorem write_respects_logs (g : Store → Except GovernanceError Store) :
    Respects Chain.Logs (write g) := by
  apply Respects.of_log
  intro c log
  cases hg : g c.store with
  | ok s => exact .of_ok (a := ()) (write_eq_ok.2 ⟨s, hg, rfl⟩) (write_eq_ok.2 ⟨s, hg, rfl⟩) rfl
  | error e => exact .of_error (write_eq_error.2 ⟨hg, rfl⟩) (write_eq_error.2 ⟨hg, rfl⟩) rfl

theorem tryMove_respects_logs (g : Ledger → Except BankError Ledger) :
    Respects Chain.Logs (tryMove g) := by
  apply Respects.of_log
  intro c log
  cases hg : g c.ledger with
  | ok l => exact .of_ok (tryMove_of_ok hg) (tryMove_of_ok hg) rfl
  | error e => exact .of_ok (tryMove_of_error hg) (tryMove_of_error hg) rfl

theorem permit_respects_logs (label : String) : Respects Chain.Logs (permit label) := by
  apply Respects.of_log
  intro c log
  cases hr : c.registry.permit label with
  | ok r => exact .of_ok (permit_of_ok hr) (permit_of_ok hr) rfl
  | error e => exact .of_error (permit_of_error hr) (permit_of_error hr) rfl

end Action

theorem executing_respects_logs : HoldsOfExecuting fun _ x => Respects Chain.Logs x where
  toCompositional := compositional_respects_logs
  height := .of_log fun _ _ => .ok rfl
  tryMove := tryMove_respects_logs
  permit := permit_respects_logs
  setLot _ := write_respects_logs _

theorem finalizing_respects_logs (p : Proposal) :
    HoldsOfFinalizing (fun _ x => Respects Chain.Logs x) p where
  toHoldsOfExecuting := executing_respects_logs
  votes hf := .of_get (fun c d h => by rw [h]) hf
  emit _ := .of_log fun _ _ => .ok rfl
  rewrite _ _ := write_respects_logs _

theorem endBlock_respects_logs (k : Keeper) : Respects Chain.Logs k.endBlock := by
  refine .bind (.read fun c d h => by rw [h]) fun params => ?_
  refine .bind (.read fun c d h => by rw [h]) fun records => ?_
  refine .bind (.of_log fun _ _ => .ok rfl) fun _ => ?_
  refine .bind (.of_log fun _ _ => .ok rfl) fun h => ?_
  exact HoldsOfFinalizing.finalizeAll compositional_respects_logs params
    fun p _ => finalizing_respects_logs p

end DaoGovernance
