import DaoGovernance.Proofs.Action
import DaoGovernance.Proofs.Ledger
import DaoGovernance.Settlement
import DaoGovernance.Verdict
import Mathlib

/-!
What settling a deposit does to the ledger.
-/

namespace DaoGovernance

open DaoGovernance.Action
open Ledger (Shifts flow)

variable {k : Keeper} {p : Proposal} {o : Outcome} {deposit : Coins} {l l' : Ledger}
  {s : Settlement}

theorem Params.heldFor_of_content {params : Params} {content : Content} (hf : content.Fits)
    (h : p.content = content.pack) : params.heldFor p = params.depositFor content := by
  rw [heldFor, h, Content.unpack_pack hf]

inductive Keeper.Settles (k : Keeper) (p : Proposal) (deposit : Coins) (l : Ledger) :
    Outcome → Settlement → Ledger → Prop
  | nothingHeld {o : Outcome} (hz : deposit.isZero = true) : Settles k p deposit l o .nothingHeld l
  | refunded {l' : Ledger} (hz : deposit.isZero = false)
      (h : l.toAccount k.moduleAccount p.proposer deposit = .ok l') :
      Settles k p deposit l .executed .refunded l'
  | refundFailed {e : BankError} (hz : deposit.isZero = false)
      (h : l.toAccount k.moduleAccount p.proposer deposit = .error e) :
      Settles k p deposit l .executed (.failed e) l
  | burned {o : Outcome} {l' : Ledger} (hz : deposit.isZero = false) (ho : o ≠ .executed)
      (h : l.burn k.moduleAccount deposit = .ok l') : Settles k p deposit l o .burned l'
  | burnFailed {o : Outcome} {e : BankError} (hz : deposit.isZero = false) (ho : o ≠ .executed)
      (h : l.burn k.moduleAccount deposit = .error e) : Settles k p deposit l o (.failed e) l

theorem settle_ends (k : Keeper) (p : Proposal) (o : Outcome) (deposit : Coins) (c : Chain) :
    Ends (k.settle p o deposit) c
      (fun s d => k.Settles p deposit c.ledger o s d.ledger ∧ { c with ledger := d.ledger }.Quiet d)
      fun _ _ => False := by
  have quiet (l : Ledger) (log : List Notice) :
      { c with ledger := l }.Quiet { c with ledger := l, log := log } :=
    ⟨rfl, id, rfl, rfl, rfl, rfl, rfl⟩
  rw [Keeper.settle]
  cases hz : deposit.isZero with
  | true => exact ⟨.nothingHeld hz, quiet _ _⟩
  | false =>
    rw [if_neg (by simp)]
    split
    · rename_i ho
      subst ho
      cases h : c.ledger.toAccount k.moduleAccount p.proposer deposit with
      | ok l' => exact .of_step (tryMove_of_ok h) ⟨.refunded hz h, quiet _ _⟩
      | error e => exact .of_step (tryMove_of_error h) ⟨.refundFailed hz h, quiet _ _⟩
    · rename_i ho
      cases h : c.ledger.burn k.moduleAccount deposit with
      | ok l' => exact .of_step (tryMove_of_ok h) ⟨.burned hz ho h, quiet _ _⟩
      | error e => exact .of_step (tryMove_of_error h) ⟨.burnFailed hz ho h, quiet _ _⟩

theorem Keeper.Settles.shifts (h : k.Settles p deposit l o s l') :
    ∃ lost gained, Shifts l l' lost gained ∧
      ∀ d, lost (.moduleAccount k.moduleAccount) d ≤ Coins.totalIn d deposit.list := by
  cases h with
  | nothingHeld => exact ⟨0, 0, .refl l, fun _ => Nat.zero_le _⟩
  | refunded _ h => exact ⟨_, _, Ledger.toAccount_shifts h, fun d => by simp⟩
  | refundFailed => exact ⟨0, 0, .refl l, fun _ => Nat.zero_le _⟩
  | burned _ _ h => exact ⟨_, _, Ledger.burn_shifts h, fun d => by simp⟩
  | burnFailed => exact ⟨0, 0, .refl l, fun _ => Nat.zero_le _⟩

end DaoGovernance
