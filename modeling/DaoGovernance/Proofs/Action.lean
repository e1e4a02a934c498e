import DaoGovernance.Action
import DaoGovernance.Proofs.Store.Contents
import DaoGovernance.Proofs.Store.Records
import Mathlib

/-!
How actions compose.  An action that ends well did each of its steps well, one that fails did so at
its first failing step, and what every step preserves the whole preserves.
-/

namespace DaoGovernance

namespace Action

open EStateM (Result)

variable {α β : Type} {x : Action α} {f : α → Action β} {c c' : Chain} {a : α} {b : β}
  {e : GovernanceError}

def final : Result GovernanceError Chain α → Chain
  | .ok _ c => c
  | .error _ c => c

def answer : Result GovernanceError Chain α → Option α
  | .ok a _ => some a
  | .error _ _ => none

theorem exists_ok (h : answer (x c) = some a) : ∃ d, x c = .ok a d := by
  cases hx : x c with
  | ok b d =>
    rw [hx] at h
    cases h
    exact ⟨d, rfl⟩
  | error e d =>
    rw [hx] at h
    cases h

theorem exists_error (h : x c matches .error ..) : ∃ e d, x c = .error e d := by
  cases hx : x c with
  | ok a d => simp [hx] at h
  | error e d => exact ⟨e, d, rfl⟩

/-! ### Steps -/

theorem bind_of_ok (h : x c = .ok a c') : (x >>= f) c = f a c' := by
  change EStateM.bind x f c = _
  rw [EStateM.bind, h]

theorem bind_of_error (h : x c = .error e c') : (x >>= f) c = .error e c' := by
  change EStateM.bind x f c = _
  rw [EStateM.bind, h]

theorem bind_eq_ok : (x >>= f) c = .ok b c' ↔ ∃ a d, x c = .ok a d ∧ f a d = .ok b c' := by
  cases h : x c with
  | ok a d => simp [bind_of_ok h]
  | error e d => simp [bind_of_error h]

theorem bind_eq_error :
    (x >>= f) c = .error e c' ↔ x c = .error e c' ∨ ∃ a d, x c = .ok a d ∧ f a d = .error e c' := by
  cases h : x c with
  | ok a d => simp [bind_of_ok h]
  | error e d => simp [bind_of_error h]

@[simp] theorem pure_apply : (pure a : Action α) c = .ok a c := rfl

@[simp] theorem throw_apply : (throw e : Action α) c = .error e c := rfl

@[simp] theorem get_apply : (get : Action Chain) c = .ok c c := rfl

@[simp] theorem set_apply (d : Chain) : (set d : Action Unit) c = .ok () d := rfl

@[simp] theorem modify_apply (g : Chain → Chain) : (modify g : Action Unit) c = .ok () (g c) := rfl

@[simp] theorem note_apply (n : Notice) : note n c = .ok () { c with log := c.log ++ [n] } := rfl

@[simp] theorem noteAll_apply (ns : List Notice) :
    noteAll ns c = .ok () { c with log := c.log ++ ns } := rfl

@[simp] theorem emit_apply (v : Event) : emit v c = .ok () { c with block := c.block.emit v } := rfl

@[simp] theorem height_apply : height c = .ok c.block.height c := rfl

theorem map_eq_ok {g : α → β} : (g <$> x) c = .ok b c' ↔ ∃ a, x c = .ok a c' ∧ g a = b := by
  rw [← bind_pure_comp, bind_eq_ok]
  constructor
  · rintro ⟨a, d, hx, h⟩
    cases h
    exact ⟨a, hx, rfl⟩
  · rintro ⟨a, hx, rfl⟩
    exact ⟨a, c', hx, rfl⟩

theorem map_eq_error {g : α → β} : (g <$> x) c = .error e c' ↔ x c = .error e c' := by
  rw [← bind_pure_comp, bind_eq_error]
  constructor
  · rintro (h | ⟨a, d, hx, h⟩)
    · exact h
    · cases h
  · exact .inl

theorem check_eq_ok {r : Except GovernanceError α} :
    check r c = .ok a c' ↔ r = .ok a ∧ c' = c := by
  cases r <;> simp [check, eq_comm]

theorem check_eq_error {r : Except GovernanceError α} :
    check r c = .error e c' ↔ r = .error e ∧ c' = c := by
  cases r <;> simp [check, eq_comm]

theorem read_eq_ok {g : Store → Except GovernanceError α} :
    read g c = .ok a c' ↔ g c.store = .ok a ∧ c' = c := check_eq_ok

theorem read_eq_error {g : Store → Except GovernanceError α} :
    read g c = .error e c' ↔ g c.store = .error e ∧ c' = c := check_eq_error

theorem write_eq_ok {g : Store → Except GovernanceError Store} {u : Unit} :
    write g c = .ok u c' ↔ ∃ s, g c.store = .ok s ∧ c' = { c with store := s } := by
  change (check (g c.store) >>= fun s => set { c with store := s }) c = .ok u c' ↔ _
  rw [bind_eq_ok]
  simp [check_eq_ok, eq_comm]

theorem write_eq_error {g : Store → Except GovernanceError Store} :
    write g c = .error e c' ↔ g c.store = .error e ∧ c' = c := by
  change (check (g c.store) >>= fun s => set { c with store := s }) c = .error e c' ↔ _
  simp [bind_eq_error, check_eq_error]

theorem tryMove_of_ok {g : Ledger → Except BankError Ledger} {l : Ledger} (h : g c.ledger = .ok l) :
    tryMove g c = .ok (.ok ()) { c with ledger := l } := by
  simp only [tryMove, bind_of_ok get_apply, h]
  rfl

theorem tryMove_of_error {g : Ledger → Except BankError Ledger} {k : BankError}
    (h : g c.ledger = .error k) : tryMove g c = .ok (.error k) c := by
  simp only [tryMove, bind_of_ok get_apply, h]
  rfl

theorem move_eq_ok {g : Ledger → Except BankError Ledger} {u : Unit} :
    move g c = .ok u c' ↔ ∃ l, g c.ledger = .ok l ∧ c' = { c with ledger := l } := by
  cases h : g c.ledger with
  | ok l => simp [move, bind_of_ok (tryMove_of_ok h), bank, eq_comm]
  | error k => simp [move, bind_of_ok (tryMove_of_error h), bank]

theorem move_eq_error {g : Ledger → Except BankError Ledger} :
    move g c = .error e c' ↔ ∃ k, g c.ledger = .error k ∧ e = .bank k ∧ c' = c := by
  cases h : g c.ledger with
  | ok l => simp [move, bind_of_ok (tryMove_of_ok h), bank]
  | error k => simp [move, bind_of_ok (tryMove_of_error h), bank, eq_comm]

theorem permit_of_ok {l : String} {r : Registry} (h : c.registry.permit l = .ok r) :
    permit l c = .ok () { c with store := c.storeAtPermit, registry := r } := by
  rw [permit, bind_of_ok (modify_apply _), bind_of_ok get_apply]
  dsimp only
  rw [h]
  rfl

theorem permit_of_error {l : String} {e : RegistryError} (h : c.registry.permit l = .error e) :
    permit l c = .error (.registry e) { c with store := c.storeAtPermit } := by
  rw [permit, bind_of_ok (modify_apply _), bind_of_ok get_apply]
  dsimp only
  rw [h]
  rfl

theorem attempt_of_ok (h : x c = .ok a c') : attempt x c = .ok (.ok a) c' := by
  simp only [attempt, h]

theorem attempt_of_error (h : x c = .error e c') : attempt x c = .ok (.error e) c' := by
  simp only [attempt, h]

/-! ### How an action ends -/

/-- From `c` the action ends well as `Q` says or fails as `E` says. -/
def Ends (x : Action α) (c : Chain) (Q : α → Chain → Prop) (E : GovernanceError → Chain → Prop) :
    Prop :=
  match x c with
  | .ok a d => Q a d
  | .error e d => E e d

namespace Ends

variable {P Q : α → Chain → Prop} {R : β → Chain → Prop} {E : GovernanceError → Chain → Prop}

theorem of_ok (h : Ends x c Q E) (hx : x c = .ok a c') : Q a c' := by
  rwa [Ends, hx] at h

theorem of_error (h : Ends x c Q E) (hx : x c = .error e c') : E e c' := by
  rwa [Ends, hx] at h

theorem intro (hQ : ∀ a d, x c = .ok a d → Q a d) (hE : ∀ e d, x c = .error e d → E e d) :
    Ends x c Q E := by
  unfold Ends
  split
  · exact hQ _ _ (by assumption)
  · exact hE _ _ (by assumption)

theorem bind (hx : Ends x c Q E) (hf : ∀ a d, x c = .ok a d → Q a d → Ends (f a) d R E) :
    Ends (x >>= f) c R E := by
  cases h : x c with
  | ok a d =>
    rw [Ends, bind_of_ok h]
    exact hf a d h (hx.of_ok h)
  | error e d =>
    rw [Ends, bind_of_error h]
    exact hx.of_error h

theorem of_step (h : x c = .ok a c') (hf : Ends (f a) c' R E) : Ends (x >>= f) c R E := by
  rwa [Ends, bind_of_ok h]

theorem of_fail (h : x c = .error e c') (he : E e c') : Ends (x >>= f) c R E := by
  rwa [Ends, bind_of_error h]

theorem mono {E' : GovernanceError → Chain → Prop} (h : Ends x c P E)
    (hQ : ∀ a d, P a d → Q a d) (hE : ∀ e d, E e d → E' e d) : Ends x c Q E' :=
  .intro (fun a d hx => hQ a d (h.of_ok hx)) fun e d hx => hE e d (h.of_error hx)

theorem permit {l : String} {Q : Unit → Chain → Prop}
    (hQ : ∀ r, c.registry.permit l = .ok r →
      Q () { c with store := c.storeAtPermit, registry := r })
    (hE : ∀ e, c.registry.permit l = .error e →
      E (.registry e) { c with store := c.storeAtPermit }) : Ends (permit l) c Q E := by
  cases h : c.registry.permit l with
  | ok r =>
    rw [Ends, permit_of_ok h]
    exact hQ r h
  | error e =>
    rw [Ends, permit_of_error h]
    exact hE e h

end Ends

/-! ### What every step preserves -/

def Within (R : Chain → Chain → Prop) (x : Action α) : Prop := ∀ c, R c (final (x c))

class IgnoresLog (R : Chain → Chain → Prop) : Prop where
  log : ∀ (c : Chain) (ns : List Notice), R c { c with log := c.log ++ ns }

namespace Within

variable {R : Chain → Chain → Prop}

theorem of_ok (h : Within R x) (hx : x c = .ok a c') : R c c' := by
  have := h c
  rwa [hx] at this

theorem of_error (h : Within R x) (hx : x c = .error e c') : R c c' := by
  have := h c
  rwa [hx] at this

theorem mono {S : Chain → Chain → Prop} (h : Within R x) (hRS : ∀ c d, R c d → S c d) :
    Within S x :=
  fun c => hRS _ _ (h c)

theorem bind [IsTrans Chain R] (hx : Within R x) (hf : ∀ a, Within R (f a)) :
    Within R (x >>= f) := by
  intro c
  cases h : x c with
  | ok a d =>
    rw [bind_of_ok h]
    exact IsTrans.trans _ _ _ (hx.of_ok h) ((hf a) d)
  | error e d =>
    rw [bind_of_error h]
    exact hx.of_error h

theorem map (h : Within R x) (g : α → β) : Within R (g <$> x) := by
  intro c
  cases hx : x c with
  | ok a d =>
    rw [map_eq_ok.2 ⟨a, hx, rfl⟩]
    exact h.of_ok hx
  | error e d =>
    rw [map_eq_error.2 hx]
    exact h.of_error hx

theorem attempt (h : Within R x) : Within R (Action.attempt x) := by
  intro c
  cases hx : x c with
  | ok a d =>
    rw [attempt_of_ok hx]
    exact h.of_ok hx
  | error e d =>
    rw [attempt_of_error hx]
    exact h.of_error hx

theorem of_ends (h : ∀ c, Ends x c (fun _ d => R c d) fun _ d => R c d) : Within R x := by
  intro c
  cases hx : x c with
  | ok a d => exact (h c).of_ok hx
  | error e d => exact (h c).of_error hx

section Refl

variable [Std.Refl R]

theorem pure : Within R (Pure.pure a : Action α) := fun c => refl c

theorem throw : Within R (MonadExcept.throw e : Action α) := fun c => refl c

theorem throw_bind : Within R ((MonadExcept.throw e : Action α) >>= f) := by
  intro c
  rw [bind_of_error throw_apply]
  exact refl c

theorem get : Within R (MonadState.get : Action Chain) := fun c => refl c

theorem height : Within R Action.height := fun c => refl c

theorem check (r : Except GovernanceError α) : Within R (Action.check r) := by
  cases r with
  | ok a => exact pure
  | error e => exact throw

theorem read (g : Store → Except GovernanceError α) : Within R (Action.read g) :=
  fun c => check (g c.store) c

theorem write {g : Store → Except GovernanceError Store}
    (h : ∀ (c : Chain) s, g c.store = .ok s → R c { c with store := s }) :
    Within R (Action.write g) := by
  intro c
  cases hg : g c.store with
  | ok s =>
    rw [write_eq_ok (u := ()).2 ⟨s, hg, rfl⟩]
    exact h c s hg
  | error e =>
    rw [write_eq_error.2 ⟨hg, rfl⟩]
    exact refl c

theorem tryMove {g : Ledger → Except BankError Ledger}
    (h : ∀ (c : Chain) l, g c.ledger = .ok l → R c { c with ledger := l }) :
    Within R (Action.tryMove g) := by
  intro c
  cases hg : g c.ledger with
  | ok l =>
    rw [tryMove_of_ok hg]
    exact h c l hg
  | error e =>
    rw [tryMove_of_error hg]
    exact refl c

theorem bank (r : Except BankError α) : Within R (Action.bank r) := by
  cases r with
  | ok a => exact pure
  | error e => exact throw

theorem registry (r : Except RegistryError α) : Within R (Action.registry r) := by
  cases r with
  | ok a => exact pure
  | error e => exact throw

theorem supply [IsTrans Chain R] (denom : String) : Within R (Action.supply denom) :=
  get.bind fun _ => bank _

theorem balance [IsTrans Chain R] (a : Address) (denom : String) :
    Within R (Action.balance a denom) :=
  get.bind fun _ => bank _

theorem isPermitted [IsTrans Chain R] (label : String) : Within R (Action.isPermitted label) :=
  get.bind fun _ => registry _

end Refl

section Log

variable [IgnoresLog R]

theorem note (n : Notice) : Within R (Action.note n) := fun c => IgnoresLog.log c [n]

theorem noteAll (ns : List Notice) : Within R (Action.noteAll ns) := fun c => IgnoresLog.log c ns

end Log

end Within

theorem Ends.within_bind {R : Chain → Chain → Prop} [IsTrans Chain R] {Q : β → Chain → Prop}
    {E : GovernanceError → Chain → Prop} {d : Chain} (hc : R c d) (hx : Within R x)
    (hE : ∀ e d, R c d → E e d)
    (hf : ∀ a d', x d = .ok a d' → R c d' → Ends (f a) d' Q E) : Ends (x >>= f) d Q E := by
  apply Ends.bind (Q := fun _ d' => R c d')
  · apply Ends.intro
    · intro a d' h
      exact IsTrans.trans _ _ _ hc (hx.of_ok h)
    · intro e d' h
      exact hE e d' (IsTrans.trans _ _ _ hc (hx.of_error h))
  · exact hf

end Action

/-! ### Quiet actions -/

/-- At most the log and the count of scans differ. -/
structure Chain.Quiet (c d : Chain) : Prop where
  view : d.store.view = c.store.view
  sound : c.store.Sound → d.store.Sound
  lots : d.store.lotAt = c.store.lotAt
  ledger : d.ledger = c.ledger
  registry : d.registry = c.registry
  faults : d.faults = c.faults
  block : d.block = c.block

instance : Std.Refl Chain.Quiet := ⟨fun _ => ⟨rfl, id, rfl, rfl, rfl, rfl, rfl⟩⟩

instance : IsTrans Chain Chain.Quiet where
  trans _ _ _ h k := ⟨k.view.trans h.view, k.sound ∘ h.sound, k.lots.trans h.lots,
    k.ledger.trans h.ledger, k.registry.trans h.registry, k.faults.trans h.faults,
    k.block.trans h.block⟩

instance : Action.IgnoresLog Chain.Quiet := ⟨fun _ _ => ⟨rfl, id, rfl, rfl, rfl, rfl, rfl⟩⟩

def Chain.Logs (c d : Chain) : Prop := d = { c with log := d.log }

instance : Std.Refl Chain.Logs := ⟨fun _ => rfl⟩

instance : IsTrans Chain Chain.Logs where
  trans c d e h k := by
    rw [Chain.Logs] at *
    rw [k, h]

instance : Action.IgnoresLog Chain.Logs := ⟨fun _ _ => rfl⟩

theorem Chain.Logs.quiet {c d : Chain} (h : c.Logs d) : c.Quiet d := by
  rw [h]
  exact ⟨rfl, id, rfl, rfl, rfl, rfl, rfl⟩

end DaoGovernance
