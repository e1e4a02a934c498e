import DaoGovernance.Proofs.Genesis.Loading
import DaoGovernance.Proofs.Lasting
import Mathlib

/-!
Params are always there to be read, and valid.  They change only through an update of the authority,
and then to what it asked for.
-/

namespace DaoGovernance

open DaoGovernance.Action

variable {k : Keeper} {c d : Chain} {p : Params} {op : Operation}

structure Store.HasParams (p : Params) (s : Store) : Prop where
  stored : s.getParams = some p.encode
  fits : p.Fits
  valid : p.validate = .ok ()

theorem Store.HasParams.read {s : Store} (h : s.HasParams p) : s.params = .ok p :=
  params_eq h.fits (s.getParams_eq ▸ h.stored)

/-! ### An update -/

theorem updateParams_of_authority (k : Keeper) (hp : p.validate = .ok ()) (c : Chain) :
    k.updateParams k.authority.text p c = .ok () { c with
      store := c.store.putParams p.encode
      log := c.log ++ [.paramsUpdated p] } := by
  have hset : Store.setParams p c.store = .ok (c.store.putParams p.encode) := by
    rw [Store.setParams, hp]
  unfold Keeper.updateParams
  dsimp only
  rw [if_neg (not_not.2 rfl)]
  exact bind_of_ok (a := ()) (write_eq_ok.2 ⟨_, hset, rfl⟩)

theorem updateParams_refused {a : String} {e : GovernanceError}
    (h : k.updateParams a p c = .error e d) : d = c := by
  unfold Keeper.updateParams at h
  split at h
  · cases h
    rfl
  · rcases bind_eq_error.1 h with hw | ⟨_, _, -, hn⟩
    · exact (write_eq_error.1 hw).2
    · cases hn

/-! ### An operation -/

theorem hasParams_moment (hop : ∀ a q, op = .updateParams a q → q.Fits) (hc : c.store.HasParams p) :
    (k.moment op c).after.store.HasParams p ∨ ∃ q, op = .updateParams k.authority.text q ∧
      (k.moment op c).after.store.HasParams q := by
  by_cases hupdate : ∃ a q, op = .updateParams a q
  · obtain ⟨a, q, rfl⟩ := hupdate
    rw [Keeper.final_act]
    cases h : (Operation.updateParams a q).act k c with
    | ok r d =>
      obtain ⟨u, hx, -⟩ := map_eq_ok.1 h
      obtain ⟨rfl, hv, hq⟩ := (updateParams_ends a q).of_ok hx
      refine .inr ⟨q, rfl, ?_, hop _ q rfl, hv⟩
      rw [final, Store.getParams_eq, hq.view, Store.view_putParams]
    | error e d =>
      obtain rfl := updateParams_refused (map_eq_error.1 h)
      exact .inl hc
  · have hkeeps := Operation.act_keeps (k := k) (Store.params_lasting (some p.encode))
      fun a q h => (hupdate ⟨a, q, h⟩).elim
    refine .inl ⟨?_, hc.fits, hc.valid⟩
    rw [Keeper.final_act]
    exact hkeeps c hc.stored

structure Moment.GuardsParams (k : Keeper) (m : Moment) : Prop where
  before : ∃ p, m.before.store.params = .ok p ∧ p.validate = .ok ()
  after : ∃ p, m.after.store.params = .ok p ∧ p.validate = .ok ()
  changed : m.after.store.params ≠ m.before.store.params → ∃ p,
    m.operation = .updateParams k.authority.text p ∧ p.validate = .ok () ∧
      m.after.store.params = .ok p
  accepted : ∀ p, m.operation = .updateParams k.authority.text p → p.validate = .ok () →
    m.result = .ok .done ∧ m.after.store.params = .ok p
  refused : ∀ a p e, m.operation = .updateParams a p → m.result = .error e → m.after = m.before

theorem guardsParams_moment (hop : ∀ a q, op = .updateParams a q → q.Fits)
    (hc : c.store.HasParams p) : (k.moment op c).GuardsParams k := by
  have hafter := hasParams_moment (k := k) hop hc
  refine ⟨?_, ?_, ?_, ?_, ?_⟩
  · rw [Keeper.moment_before]
    exact ⟨p, hc.read, hc.valid⟩
  · rcases hafter with h | ⟨q, -, h⟩
    · exact ⟨p, h.read, h.valid⟩
    · exact ⟨q, h.read, h.valid⟩
  · rw [Keeper.moment_before, Keeper.moment_operation]
    intro hne
    rcases hafter with h | ⟨q, rfl, h⟩
    · exact absurd (h.read.trans hc.read.symm) hne
    · exact ⟨q, rfl, h.valid, h.read⟩
  · rw [Keeper.moment_operation]
    rintro q rfl hq
    have hact : (Operation.updateParams k.authority.text q).act k c = _ :=
      map_eq_ok.2 ⟨(), updateParams_of_authority k hq c, rfl⟩
    simp only [Keeper.moment, hact, true_and]
    exact Store.params_eq (hop _ q rfl) (by rw [Store.view_putParams])
  · rw [Keeper.moment_operation, Keeper.moment_before]
    rintro a q e rfl he
    cases h : (Operation.updateParams a q).act k c with
    | ok r d => simp [Keeper.moment, h] at he
    | error e' d =>
      rw [Keeper.final_act, h]
      exact updateParams_refused (map_eq_error.1 h)

/-! ### A run -/

theorem Genesis.Fills.hasParams {g : Genesis} {s t : Store} (h : g.Fills s t) (hg : g.params.Fits) :
    t.HasParams g.paramsToWrite where
  stored := by rw [Store.getParams_eq, h.view]
  fits := fits_paramsToWrite hg
  valid := g.validate_paramsToWrite

theorem hasParams_after {ops : List Operation}
    (hops : ∀ a q, .updateParams a q ∈ ops → q.Fits) (hc : c.store.HasParams p) :
    ∃ q, (k.after ops c).store.HasParams q := by
  refine Keeper.history_induction (P := fun _ c => ∃ q, c.store.HasParams q) ⟨p, hc⟩ ?_
  rintro _ op c hop ⟨q, hc⟩
  rcases hasParams_moment (fun a q h => hops a q (h ▸ hop)) hc with h | ⟨q', -, h⟩
  · exact ⟨q, h⟩
  · exact ⟨q', h⟩

/-- From an accepted genesis on, whether its params were valid or not, each operation guards the
params. -/
theorem guardsParams_of_load {g : Genesis} {u : Unit} {ops : List Operation}
    (hload : g.load c = .ok u d) (hg : g.params.Fits)
    (hops : ∀ a q, .updateParams a q ∈ ops → q.Fits) :
    d.store.params = .ok g.paramsToWrite ∧
      (∃ q, (k.after ops d).store.params = .ok q ∧ q.validate = .ok ()) ∧
      ∀ m ∈ k.history ops d, m.GuardsParams k := by
  have hd := ((g.load_ends).of_ok hload).2.hasParams hg
  refine ⟨hd.read, ?_, ?_⟩
  · obtain ⟨q, hq⟩ := hasParams_after (k := k) hops hd
    exact ⟨q, hq.read, hq.valid⟩
  · intro m hm
    obtain ⟨ops₁, op, ops₂, rfl, rfl⟩ := Keeper.mem_history.1 hm
    have hops₁ : ∀ a q, .updateParams a q ∈ ops₁ → q.Fits := fun a q h => hops a q (by simp [h])
    obtain ⟨q, hq⟩ := hasParams_after (k := k) hops₁ hd
    exact guardsParams_moment (fun a q h => hops a q (by simp [h])) hq

namespace Sample

def unusable : Genesis := ⟨{ Params.default with votingPeriod := 0 }, [], [], [], 0⟩

def unusableLoaded : Chain := final (unusable.load (.fresh .emptyTables))

def slower : Params := { Params.default with votingPeriod := 900 }

def updates : List Operation := [
  .updateParams proposer.text slower,
  .updateParams keeper.authority.text slower,
  .updateParams keeper.authority.text unusable.params]

theorem updates_fit (a : String) (q : Params) (h : .updateParams a q ∈ updates) : q.Fits := by
  simp only [updates, List.mem_cons, Operation.updateParams.injEq, List.not_mem_nil, or_false] at h
  rcases h with ⟨-, rfl⟩ | ⟨-, rfl⟩ | ⟨-, rfl⟩ <;> decide

end Sample

theorem unusable_guardsParams :
    Sample.unusable.load (.fresh .emptyTables) = .ok () Sample.unusableLoaded ∧
      Sample.unusableLoaded.store.params = .ok .default ∧
      (Sample.keeper.after Sample.updates Sample.unusableLoaded).store.params = .ok Sample.slower ∧
      ∀ m ∈ Sample.keeper.history Sample.updates Sample.unusableLoaded,
        m.GuardsParams Sample.keeper := by
  have hload : Sample.unusable.load (.fresh .emptyTables) = .ok () Sample.unusableLoaded := by
    obtain ⟨d, hd, -⟩ := Genesis.load_eq_ok (c := .fresh .emptyTables) (g := Sample.unusable)
      rfl rfl rfl
    rw [Sample.unusableLoaded, hd]
    rfl
  obtain ⟨hstart, ⟨q, hq, -⟩, hall⟩ := guardsParams_of_load (k := Sample.keeper) hload
    (by decide) Sample.updates_fit
  have hlast : (Sample.keeper.after Sample.updates Sample.unusableLoaded).store.params.toOption =
      some Sample.slower := by decide +kernel
  refine ⟨hload, hstart, ?_, hall⟩
  rw [hq] at hlast
  rw [hq, Option.some.inj hlast]

end DaoGovernance
