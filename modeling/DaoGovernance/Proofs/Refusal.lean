import DaoGovernance.Proofs.Genesis
import Mathlib

/-!
What a submission that fails leaves behind.  Records, supplies, labels and events are as they were
before it.  The deposit is escrowed and the id is taken before the proposal is stored, and neither
is undone, so that a failure after that leaves a trace.
-/

namespace DaoGovernance

open DaoGovernance.Action

variable {k : Keeper} {s : Submission} {c d : Chain} {e : GovernanceError}

/-! ### What may stay and what may move -/

namespace Ledger

variable {l l' : Ledger} {a b : Holder} {cs : Coins}

theorem supply_foldl_move (l : Ledger) (a b : Holder) (cs : List Coin) (denom : String) :
    (cs.foldl (move a b) l).supply denom = l.supply denom := by
  induction cs generalizing l with
  | nil => rfl
  | cons c cs ih => exact ih (move a b l c)

theorem supply_transfer (h : l.transfer a b cs = .ok l') (denom : String) :
    l'.supply denom = l.supply denom := by
  unfold transfer at h
  split at h
  · cases h
    exact supply_foldl_move l a b cs.list denom
  · cases h

end Ledger

namespace Keeper.Escrows

variable {a : Address} {deposit : Coins} {l l' : Ledger}

theorem supply (h : k.Escrows a deposit l l') (denom : String) :
    l'.supply denom = l.supply denom := by
  cases h with
  | none => rfl
  | moved _ h => exact Ledger.supply_transfer h denom

theorem eq_of_isZero (h : k.Escrows a deposit l l') (hz : deposit.isZero = true) : l' = l := by
  cases h with
  | none => rfl
  | moved hm =>
    rw [hz] at hm
    cases hm

theorem isZero_of_balance (h : k.Escrows a deposit l l') (ho : l'.overflowed = false)
    (hb : ∀ denom, l'.balance (.moduleAccount k.moduleAccount) denom =
      l.balance (.moduleAccount k.moduleAccount) denom) : deposit.isZero = true := by
  rw [Coins.isZero, List.all_eq_true]
  intro coin hcoin
  have hsum := (h.balance ho).2 coin.denom
  rw [hb] at hsum
  have hle := Coins.le_totalIn hcoin
  have hzero : coin.amount.toNat = 0 := by omega
  rw [Coin.isZero, decide_eq_true_eq]
  exact BitVec.eq_of_toNat_eq hzero

end Keeper.Escrows

structure Chain.KeepsRecords (c d : Chain) : Prop where
  supply : ∀ denom, d.ledger.supply denom = c.ledger.supply denom
  labels : d.registry.labels = c.registry.labels
  records : c.store.ListsAlike d.store
  events : d.block.events = c.block.events

structure Chain.Unchanged (c d : Chain) : Prop extends c.KeepsRecords d where
  balance : ∀ h denom, d.ledger.balance h denom = c.ledger.balance h denom
  nextId : d.store.nextId = c.store.nextId

theorem Chain.Logs.unchanged (h : c.Logs d) : c.Unchanged d := by
  rw [h]
  exact ⟨⟨fun _ => rfl, rfl, .refl _, rfl⟩, fun _ _ => rfl, rfl⟩

theorem Chain.keepsRecords_of_escrow {a : Address} {deposit : Coins} {l : Ledger} {t : Store}
    (log : List Notice) (h : k.Escrows a deposit c.ledger l)
    (ht : t = c.store ∨ ∃ id, t = c.store.setNextId id) :
    c.KeepsRecords { c with store := t, ledger := l, log } := by
  rcases ht with rfl | ⟨id, rfl⟩
  · exact ⟨h.supply, rfl, .refl _, rfl⟩
  · exact ⟨h.supply, rfl, Store.listsAlike_setNextId _ id, rfl⟩

/-! ### Failing too late -/

/-- All checks pass, and then a deposit is escrowed or an id is taken. -/
def Keeper.LeavesTrace (k : Keeper) (s : Submission) (c : Chain) : Prop :=
  ∃ x d, k.prepare s c = .ok x d ∧ (x.deposit.isZero = false ∨ ∃ r, c.store.takeId = .ok r)

theorem Keeper.not_leavesTrace (h : k.prepare s c = .error e d) : ¬ k.LeavesTrace s c := by
  rintro ⟨x, d', hok, -⟩
  rw [h] at hok
  cases hok

theorem Keeper.leavesTrace_iff {x : Prepared} (h : k.prepare s c = .ok x d) :
    k.LeavesTrace s c ↔ x.deposit.isZero = false ∨ ∃ r, c.store.takeId = .ok r := by
  constructor
  · rintro ⟨x', d', hok, hlate⟩
    rw [h] at hok
    cases hok
    exact hlate
  · exact fun hlate => ⟨x, d, h, hlate⟩

/-- A submission that fails changes nothing exactly where it fails before the escrow, or at ids that
are exhausted and without a deposit.  In no case does it touch a record. -/
theorem unchanged_iff_not_leavesTrace (h : k.submit s c = .error e d)
    (ho : d.ledger.overflowed = false) :
    c.KeepsRecords d ∧ (c.Unchanged d ↔ ¬ k.LeavesTrace s c) := by
  rw [Keeper.submit_eq, bind_eq_error] at h
  rcases h with hprepare | ⟨x, c', hprepare, hstore⟩
  · have hd := ((prepare_ends s).of_error hprepare).unchanged
    exact ⟨hd.toKeepsRecords, iff_of_true hd (Keeper.not_leavesTrace hprepare)⟩
  · rw [Keeper.leavesTrace_iff hprepare]
    obtain ⟨-, -, l, log, hescrow, rfl⟩ := (prepare_ends s).of_ok hprepare
    rcases (storePrepared_ends s x).of_error hstore with
      ⟨rfl, e', hid⟩ | ⟨id, t, e', hid, -, rfl⟩
    -- The ids are exhausted, so what was escrowed is all that can have changed.
    · have hkeeps := Chain.keepsRecords_of_escrow log hescrow (.inl rfl)
      refine ⟨hkeeps, fun hd => ?_, fun hearly => ?_⟩
      · have hz := hescrow.isZero_of_balance ho fun denom => hd.balance _ denom
        simp [hz, show c.store.takeId = .error e' from hid]
      · obtain rfl := hescrow.eq_of_isZero (by simpa using (not_or.1 hearly).1)
        exact ⟨hkeeps, fun _ _ => rfl, rfl⟩
    -- An id was taken for a proposal that is not stored.
    · obtain ⟨hnext, rfl⟩ := Store.nextId_of_takeId hid
      have hkeeps := Chain.keepsRecords_of_escrow log hescrow (.inr ⟨id + 1, rfl⟩)
      refine ⟨hkeeps, iff_of_false (fun hd => ?_) (not_not.2 (.inr ⟨_, hid⟩))⟩
      have hsame := (Store.nextId_setNextId _ _).symm.trans (hd.nextId.trans hnext)
      simp at hsame

namespace Sample

theorem unpaid_unchanged :
    ∃ e d, keeper.submit submission start = .error e d ∧ d.ledger.overflowed = false ∧
      start.Unchanged d := by
  have hexact : (final (keeper.submit submission start)).ledger.overflowed = false := by
    decide +kernel
  obtain ⟨e, d, h⟩ : ∃ e d, keeper.submit submission start = .error e d :=
    exists_error (by decide +kernel)
  obtain ⟨_, _, hprepare⟩ : ∃ e d, keeper.prepare submission start = .error e d :=
    exists_error (by decide +kernel)
  rw [h] at hexact
  exact ⟨e, d, h, hexact,
    (unchanged_iff_not_leavesTrace h hexact).2.2 (Keeper.not_leavesTrace hprepare)⟩

def unwritable : Chain :=
  keeper.after [.incident (.fund proposer ⟨"stake", 100000000⟩), .incident (.failProposals true)]
    start

/-- The deposit is gone and the id is used up, though no proposal was stored. -/
theorem unwritable_not_unchanged :
    ∃ e d, keeper.submit submission unwritable = .error e d ∧ d.ledger.overflowed = false ∧
      ¬ unwritable.Unchanged d := by
  obtain ⟨e, d, h⟩ : ∃ e d, keeper.submit submission unwritable = .error e d :=
    exists_error (by decide +kernel)
  have hexact : (final (keeper.submit submission unwritable)).ledger.overflowed = false := by
    decide +kernel
  have hbefore : (unwritable.ledger.balance (.account proposer) "stake").toNat = 100000000 := by
    decide +kernel
  have hafter : ((final (keeper.submit submission unwritable)).ledger.balance
      (.account proposer) "stake").toNat = 0 := by decide +kernel
  rw [h] at hexact hafter
  refine ⟨e, d, h, hexact, fun hd => ?_⟩
  rw [final, hd.balance, hbefore] at hafter
  cases hafter

end Sample

end DaoGovernance
