import DaoGovernance.Proofs.Invariant
import Mathlib

/-!
Each settlement of a pass, with the chain just before and just after its proposal was finalized; and
runs of which all amounts stay in range.
-/

namespace DaoGovernance

variable {k : Keeper} {params : Params} {c d : Chain}

/-! ### Within a pass -/

theorem Finalizing.exact {x : Proposal} {s : Settled} (hf : Finalizing k params x c s d)
    (ho : d.ledger.overflowed = false) :
    s.held.overflowed = false ∧ c.ledger.overflowed = false := by
  obtain ⟨lost, gained, hs, -⟩ := hf.settles.shifts
  obtain ⟨lost', gained', hs', -⟩ := hf.held
  have hheld := hs.exact (hf.left ▸ ho)
  exact ⟨hheld, hs'.exact hheld⟩

structure Chain.Remains (c d : Chain) : Prop where
  params : d.store.view.params = c.store.view.params
  opened : ∀ id x, d.store.view.proposal id = some x → x.isOpen = true →
    c.store.view.proposal id = some x
  blocked : d.ledger.blocked = c.ledger.blocked
  failBurns : d.ledger.failBurns = c.ledger.failBurns

theorem Chain.Remains.refl (c : Chain) : c.Remains c := ⟨rfl, fun _ _ h _ => h, rfl, rfl⟩

theorem Chain.Remains.stored {c₀ : Chain} {x : Proposal} {s : Settled} (h : c₀.Remains c)
    (hf : Finalizing k params x c s d) : c₀.store.proposal s.finalized.id = .ok x := by
  rw [hf.id]
  exact Store.proposal_eq_ok.2 (h.opened _ _ hf.stored hf.isOpen)

theorem Chain.Remains.params_eq {c₀ : Chain} {x : Proposal} {s : Settled} (h : c₀.Remains c)
    (hf : Finalizing k params x c s d) : c₀.store.params = .ok params := by
  rw [← hf.params]
  exact (Store.params_congr h.params).symm

theorem Finalizing.held_remains {x : Proposal} {s : Settled} (hf : Finalizing k params x c s d) :
    s.held.blocked = c.ledger.blocked ∧ s.held.failBurns = c.ledger.failBurns := by
  obtain ⟨lost, gained, hs, -⟩ := hf.held
  exact ⟨hs.blocked, hs.failBurns⟩

theorem Chain.Remains.quiet {c₀ : Chain} (h : c₀.Remains c) (hq : c.Quiet d) : c₀.Remains d := by
  refine ⟨?_, ?_, ?_, ?_⟩
  · rw [hq.view, h.params]
  · rw [hq.view]
    exact h.opened
  · rw [hq.ledger, h.blocked]
  · rw [hq.ledger, h.failBurns]

theorem Chain.Remains.finalizing {c₀ : Chain} {x : Proposal} {s : Settled} (h : c₀.Remains c)
    (hf : Finalizing k params x c s d) : c₀.Remains d := by
  obtain ⟨lost, gained, hs, -⟩ := hf.settles.shifts
  refine ⟨?_, fun id y hy hopen => ?_, ?_, ?_⟩
  · rw [hf.view, ← h.params]
    rfl
  · by_cases hid : id = x.id
    · rw [hid, hf.after] at hy
      cases hy
      rw [Proposal.not_isOpen_finish] at hopen
      cases hopen
    · rw [Store.View.proposal_congr (hf.proposals_of_ne hid)] at hy
      exact h.opened id y hy hopen
  · rw [hf.left, hs.blocked, hf.held_remains.1, h.blocked]
  · rw [hf.left, hs.failBurns, hf.held_remains.2, h.failBurns]

theorem EndsBlock.each {ss : List Settled} (h : EndsBlock k c ss d) (hw : c.WellKept)
    {P : Chain → Prop} (start : P c) (quiet : ∀ c d, P c → c.Quiet d → P d)
    (step : ∀ params x s c d, P c → Finalizing k params x c s d → P d) :
    ∀ s ∈ ss, ∃ params x c' d', c.Remains c' ∧ P c' ∧ Finalizing k params x c' s d' ∧
      (d.ledger.overflowed = false → d'.ledger.overflowed = false) := by
  refine (h.induct (P := fun ss d => c.Remains d ∧ P d ∧ ∀ s ∈ ss, ∃ params x c' d',
    c.Remains c' ∧ P c' ∧ Finalizing k params x c' s d' ∧
      (d.ledger.overflowed = false → d'.ledger.overflowed = false)) hw
    ⟨.refl c, start, by simp⟩ ?_ ?_).1.2.2
  · intro ss c' d' _ ⟨hr, hP, hss⟩ hq
    refine ⟨hr.quiet hq, quiet _ _ hP hq, ?_⟩
    rwa [hq.ledger]
  · intro params ss x c' s d' _ ⟨hr, hP, hss⟩ hf
    refine ⟨hr.finalizing hf, step _ _ _ _ _ hP hf, fun t ht => ?_⟩
    rcases List.mem_append.1 ht with ht | ht
    · obtain ⟨params', y, c₁, d₁, hr₁, hP₁, hf₁, ho₁⟩ := hss t ht
      exact ⟨params', y, c₁, d₁, hr₁, hP₁, hf₁, fun ho => ho₁ (hf.exact ho).2⟩
    · rw [List.mem_singleton.1 ht]
      exact ⟨params, x, c', d', hr, hP, hf, id⟩

theorem EndsBlock.finalizing {ss : List Settled} {s : Settled} (h : EndsBlock k c ss d)
    (hw : c.WellKept) (hs : s ∈ ss) :
    ∃ params x c' d', c.store.params = .ok params ∧ c.store.proposal s.finalized.id = .ok x ∧
      Finalizing k params x c' s d' ∧
      (d.ledger.overflowed = false → d'.ledger.overflowed = false) := by
  obtain ⟨params, x, c', d', hr, -, hf, ho⟩ := h.each hw (P := fun _ => True) trivial
    (fun _ _ _ _ => trivial) (fun _ _ _ _ _ _ _ => trivial) s hs
  exact ⟨params, x, c', d', hr.params_eq hf, hr.stored hf, hf, ho⟩

/-! ### Runs in range -/

theorem Incident.spares (i : Incident) (name : String) (c : Chain) :
    Ledger.Spares name c.ledger (i.apply c).ledger ∨
      (i.apply c).ledger.balances = c.ledger.balances ∧
        (i.apply c).ledger.overflowed = c.ledger.overflowed := by
  cases i with
  | fund a coin => exact .inl (.of_gain (Ledger.fund_shifts _ a coin))
  | _ => exact .inr ⟨rfl, rfl⟩

theorem Changes.exact {op : Operation} {es : List Event} {fs : List Finalized}
    (h : Changes k c op es fs d) (hw : c.WellKept) (ho : d.ledger.overflowed = false) :
    c.ledger.overflowed = false := by
  cases h with
  | opened h =>
    obtain ⟨content, q, snapshot, -, -, -, hescrow⟩ := h.opened
    exact (hescrow.balance ho).1
  | refused h =>
    rcases h.ledger with hl | ⟨a, deposit, hescrow⟩
    · rwa [hl] at ho
    · exact (hescrow.balance ho).1
  | cast h => rwa [h.ledger] at ho
  | ended h =>
    exact (h.induct (P := fun _ d => d.ledger.overflowed = false → c.ledger.overflowed = false) hw
      id (fun _ _ _ _ h hq ho => h (hq.ledger ▸ ho))
      fun _ _ _ _ _ _ _ h hf ho => h (hf.exact ho).2).1 ho
  | updated _ h => rwa [h.ledger] at ho
  | moved => exact ho
  | @incident i =>
    rcases i.spares k.moduleAccount c with ⟨lost, gained, hs, -⟩ | ⟨-, hover⟩
    · exact hs.exact ho
    · rwa [hover] at ho
  | quiet h => rwa [h.ledger] at ho

theorem exact_of_after (hw : c.WellKept) {ops : List Operation}
    (ho : (k.after ops c).ledger.overflowed = false) : c.ledger.overflowed = false := by
  induction ops generalizing c with
  | nil => exact ho
  | cons op ops ih =>
    have hc := changes_moment k hw op
    exact hc.exact hw (ih (hw.changes hc) ho)

end DaoGovernance
