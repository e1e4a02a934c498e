import DaoGovernance.Proofs.Effects
import DaoGovernance.Proofs.Run
import DaoGovernance.Proofs.Store.Consistent
import Mathlib

/-!
Every operation leaves a consistent store consistent, whatever fails on its way and wherever it
stops.
-/

namespace DaoGovernance

open DaoGovernance.Action

def Chain.Keeps (P : Store → Prop) (c d : Chain) : Prop := P c.store → P d.store

section Keeps

variable {P Q : Store → Prop} {α : Type} {c d : Chain}

instance : Std.Refl (Chain.Keeps P) := ⟨fun _ h => h⟩

instance : IsTrans Chain (Chain.Keeps P) := ⟨fun _ _ _ h k => k ∘ h⟩

instance : IgnoresLog (Chain.Keeps P) := ⟨fun _ _ h => h⟩

theorem Chain.Logs.keeps (h : c.Logs d) : c.Keeps P d := by
  rw [h]
  exact fun hc => hc

namespace Action.Within

theorem exists_keeps {ι : Type} {P : ι → Store → Prop} {x : Action α}
    (h : ∀ i, Within (Chain.Keeps (P i)) x) : Within (Chain.Keeps fun s => ∃ i, P i s) x :=
  fun c ⟨i, hc⟩ => ⟨i, h i c hc⟩

theorem keeps {x : Action α} (hx : Within (Chain.Keeps Q) x) (hc : Q c.store)
    (hQ : ∀ s, Q s → P s) : P (final (x c)).store := hQ _ (hx c hc)

end Action.Within

theorem write_keeps {g : Store → Except GovernanceError Store}
    (h : ∀ s t, P s → g s = .ok t → P t) : Within (Chain.Keeps P) (write g) :=
  .write fun _ _ hg hc => h _ _ hc hg

theorem emit_keeps (v : Event) : Within (Chain.Keeps P) (emit v) := fun _ hc => hc

end Keeps

/-! ### The end of a block -/

section Consistent

variable {k : Keeper} {params : Params} {n : UInt64} {p : Proposal} {c : Chain}

theorem Store.Consistent.switch {s : Store} (h : s.Consistent n) {f : MemoryStore → MemoryStore}
    (hf : ∀ m, (Store.memory m).Agrees (.memory (f m))) : (s.switch f).Consistent n := by
  cases s with
  | memory m => exact h.agrees (hf m) (.memory _)
  | tables t => exact h

theorem finalizing_consistent (hp : p.Fits) (hid : p.id.toNat < n.toNat) :
    HoldsOfFinalizing (fun _ x => Within (Chain.Keeps (Store.Consistent n)) x) p := by
  apply HoldsOfFinalizing.within
  · apply HoldsOfExecuting.within
    · exact fun _ _ hc => hc
    · exact fun _ _ hc => hc
    · intro c hc
      dsimp only [Chain.storeAtPermit]
      split
      · exact hc.switch fun _ => ⟨⟨rfl, rfl, rfl, rfl⟩, rfl⟩
      · exact hc
    · exact fun _ _ _ hs hc => hc.setLot hs
  · exact emit_keeps
  · intro t s
    have hp' : { p with tally := t, status := s }.Fits := hp
    exact write_keeps fun _ _ hs ht => hs.setProposal hp' hid ht

theorem endBlock_consistent : Within (Chain.Keeps (Store.Consistent n)) k.endBlock := by
  refine .bind (.read _) fun params c hc => ?_
  obtain ⟨rs, hrs, hasc, hm⟩ := Store.proposalRecords_eq hc.keyed.sound.proposalsKeyed
  have hdue : Due c _ := due_of_records hc.owned hasc.nodup_keys fun id p => (hm id p).1
  rw [bind_of_ok (read_eq_ok.2 ⟨hrs, rfl⟩), bind_of_ok (noteAll_apply _), bind_of_ok height_apply]
  have hall : ∀ p ∈ rs.filterMap (dueAt c.block.height), HoldsOfFinalizing
      (fun _ x => Within (Chain.Keeps (Store.Consistent n)) x) p := by
    intro p hp
    obtain ⟨b, hb, hdec⟩ := Store.View.proposal_eq_some.1 (hdue.stored p hp)
    exact finalizing_consistent (Proposal.fits_of_decode hdec) (hc.below p.id b hb)
  exact HoldsOfFinalizing.finalizeAll .within params hall _ hc

/-! ### Submissions, votes and params -/

theorem submit_consistent {s : Submission} (hs : s.Fits) :
    Within (Chain.Keeps fun t => ∃ n, t.Consistent n) (k.submit s) := by
  refine .of_ends fun c => ?_
  rw [Keeper.submit_eq]
  refine .bind ((prepare_ends s).mono (fun _ _ h => h) fun _ _ h => h.keeps) ?_
  rintro x _ - ⟨hcontent, -, l, log, -, rfl⟩
  refine (storePrepared_ends s x).mono ?_ ?_
  · rintro id _ ⟨s₁, s₂, log, ht, hset, rfl⟩ ⟨n, hc⟩
    obtain ⟨hid, hs₁⟩ := hc.takeId ht
    exact ⟨n + 1, hs₁.setProposal (hs.toProposal hcontent ..) hid hset⟩
  · rintro e _ (⟨rfl, -⟩ | ⟨id, s₁, e', ht, -, rfl⟩) ⟨n, hc⟩
    · exact ⟨n, hc⟩
    · exact ⟨n + 1, (hc.takeId ht).2⟩

theorem castVote_consistent (id : UInt64) (voter : String) (option : VoteOption) :
    Within (Chain.Keeps (Store.Consistent n)) (castVote id voter option) := by
  refine .bind (.check _) fun voter c hc => ?_
  cases hp : c.store.proposal id with
  | error e =>
    rw [bind_of_error (read_eq_error.2 ⟨hp, rfl⟩)]
    exact hc
  | ok p =>
    rw [bind_of_ok (read_eq_ok.2 ⟨hp, rfl⟩)]
    obtain ⟨b, hb, -⟩ := Store.View.proposal_eq_some.1 (Store.proposal_eq_ok.1 hp)
    -- When the vote is written, the proposal still has to be stored.
    refine Within.keeps (Q := fun s => s.Consistent n ∧ s.view.proposals id = some b) ?_ ⟨hc, hb⟩
      fun _ h => h.1
    have scanned (c : Chain) : c.Keeps (fun s => s.Consistent n ∧ s.view.proposals id = some b)
        { c with store := c.store.countScan } := fun ⟨hc, hb⟩ =>
      ⟨hc.countScan, by rw [Store.view_countScan, hb]⟩
    refine .bind (refuseInactive_within _ _) fun _ => .bind (refuseSecondVote_within _ _) fun _ => ?_
    dsimp only
    split
    · exact .throw_bind
    · refine .bind (positivePower_within scanned _) fun power => ?_
      refine .bind (write_keeps ?_) fun _ => .bind (emit_keeps _) fun _ => .note _
      rintro s _ ⟨hs, hb⟩ ⟨⟩
      exact ⟨hs.setVote hb, by rw [Store.setVote, Store.view_putVote, hb]⟩

theorem updateParams_consistent (authority : String) {p : Params} (hp : p.Fits) :
    Within (Chain.Keeps (Store.Consistent n)) (k.updateParams authority p) := by
  unfold Keeper.updateParams
  split
  · exact .throw_bind
  · exact .bind (write_keeps fun _ _ hs ht => hs.setParams hp ht) fun _ => .note _

/-! ### Runs -/

theorem Incident.consistent (i : Incident) (hc : c.store.Consistent n) :
    (i.apply c).store.Consistent n := by
  cases i with
  | failScan | failLots | failProposals => exact hc.switch fun _ => ⟨⟨rfl, rfl, rfl, rfl⟩, rfl⟩
  | _ => exact hc

theorem Operation.act_consistent {op : Operation} (h : op.Fits) :
    Within (Chain.Keeps fun s => ∃ n, s.Consistent n) (op.act k) := by
  cases op with
  | submit s => exact .map (submit_consistent h) _
  | vote id voter option => exact .map (.exists_keeps fun _ => castVote_consistent id voter option) _
  | endBlock => exact .map (.exists_keeps fun _ => endBlock_consistent) _
  | updateParams a p => exact .map (.exists_keeps fun _ => updateParams_consistent a h) _
  | moveTo => exact fun c hc => hc
  | incident i => exact fun c ⟨n, hc⟩ => ⟨n, i.consistent hc⟩

theorem Keeper.final_act (k : Keeper) (op : Operation) (c : Chain) :
    (k.moment op c).after = final (op.act k c) := by
  unfold moment
  split <;> simp only [final, *]

theorem Chain.Fresh.consistent {p : Params} (h : c.Fresh p) : ∃ n, c.store.Consistent n := by
  obtain ⟨s, hempty, hs⟩ := h.store
  exact ⟨_, hs ▸ hempty.consistent h.fits h.valid⟩

theorem consistent_after {ops : List Operation} (hops : ∀ op ∈ ops, op.Fits)
    (hc : ∃ n, c.store.Consistent n) : ∃ n, (k.after ops c).store.Consistent n := by
  refine Keeper.history_induction (P := fun _ c => ∃ n, c.store.Consistent n) hc ?_
  intro _ op c hop hc
  rw [Keeper.final_act]
  exact Operation.act_consistent (hops op hop) c hc

end Consistent

end DaoGovernance
