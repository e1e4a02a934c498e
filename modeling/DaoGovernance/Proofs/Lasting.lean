import DaoGovernance.Proofs.Consistency
import Mathlib

/-!
Properties of a store that no write ends.  Whatever the store holds and wherever an operation stops,
they hold after it if they held before.
-/

namespace DaoGovernance

open DaoGovernance.Action

def MemoryStore.Switched (m m' : MemoryStore) : Prop :=
  m' = { m with
    failingScans := m'.failingScans
    failLotWrites := m'.failLotWrites
    failProposalWrites := m'.failProposalWrites }

namespace Store

structure Lasting (P : Store → Prop) : Prop where
  setNextId (s : Store) (id : UInt64) : P s → P (s.setNextId id)
  putProposal {s t : Store} {id : UInt64} {b : Bytes} : s.putProposal id b = .ok t → P s → P t
  putVote (s : Store) (id : UInt64) (a : Address) (b : Bytes) : P s → P (s.putVote id a b)
  putLot {s t : Store} {a : Address} {id : UInt64} {b : Bytes} : s.putLot a id b = .ok t → P s → P t
  countScan (s : Store) : P s → P s.countScan
  switch (s : Store) {f : MemoryStore → MemoryStore} : (∀ m : MemoryStore, m.Switched (f m)) →
    P s → P (s.switch f)

variable {P : Store → Prop} {s t : Store}

theorem Lasting.takeId (hP : Lasting P) {id : UInt64} (h : s.takeId = .ok (id, t)) (hs : P s) :
    P t := by
  obtain ⟨-, rfl⟩ := nextId_of_takeId h
  exact hP.setNextId s _ hs

theorem params_lasting (b : Option Bytes) : Lasting fun s => s.getParams = b where
  setNextId s id h := by cases s <;> exact h
  putProposal hs h := by
    rw [getParams_eq] at *
    rw [(putProposal_becomes hs).view, h]
  putVote s id a d h := by cases s <;> exact h
  putLot hs h := by
    rw [getParams_eq] at *
    rw [(putLot_becomes hs).view, h]
  countScan s h := by cases s <;> exact h
  switch s f hf h := by
    cases s with
    | memory m => exact (congrArg MemoryStore.params (hf m)).trans h
    | tables t => exact h

end Store

variable {P : Store → Prop} {k : Keeper} {c : Chain}

/-! ### One operation -/

theorem submit_keeps (hP : Store.Lasting P) (s : Submission) :
    Within (Chain.Keeps P) (k.submit s) := by
  refine .of_ends fun c => ?_
  rw [Keeper.submit_eq]
  refine .bind ((prepare_ends s).mono (fun _ _ h => h) fun _ _ h => h.keeps) ?_
  rintro x _ - ⟨-, -, l, log, -, rfl⟩
  refine (storePrepared_ends s x).mono ?_ ?_
  · rintro id _ ⟨s₁, s₂, log, ht, hset, rfl⟩ hc
    exact hP.putProposal (Store.stored_eq_ok.1 hset) (hP.takeId ht hc)
  · rintro e _ (⟨rfl, -⟩ | ⟨id, s₁, e', ht, -, rfl⟩) hc
    · exact hc
    · exact hP.takeId ht hc

theorem castVote_keeps (hP : Store.Lasting P) (id : UInt64) (voter : String) (option : VoteOption) :
    Within (Chain.Keeps P) (castVote id voter option) := by
  refine .bind (.check _) fun voter => .bind (.read _) fun p => ?_
  refine .bind (refuseInactive_within _ _) fun _ => .bind (refuseSecondVote_within _ _) fun _ => ?_
  dsimp only
  split
  · exact .throw_bind
  · refine .bind (positivePower_within (fun c => hP.countScan c.store) _) fun power => ?_
    refine .bind (write_keeps ?_) fun _ => .bind (emit_keeps _) fun _ => .note _
    rintro s _ hs ⟨⟩
    exact hP.putVote s _ _ _ hs

theorem finalizing_keeps (hP : Store.Lasting P) (p : Proposal) :
    HoldsOfFinalizing (fun _ x => Within (Chain.Keeps P) x) p := by
  apply HoldsOfFinalizing.within
  · apply HoldsOfExecuting.within
    · exact fun _ _ hc => hc
    · exact fun _ _ hc => hc
    · intro c hc
      dsimp only [Chain.storeAtPermit]
      split
      · exact hP.switch _ (fun _ => rfl) hc
      · exact hc
    · exact fun _ _ _ hs => hP.putLot (Store.stored_eq_ok.1 hs)
  · exact emit_keeps
  · exact fun _ _ => write_keeps fun _ _ hs ht => hP.putProposal (Store.stored_eq_ok.1 ht) hs

theorem endBlock_keeps (hP : Store.Lasting P) : Within (Chain.Keeps P) k.endBlock :=
  .bind (.read _) fun params => .bind (.read _) fun _ => .bind (.noteAll _) fun _ =>
    .bind .height fun _ =>
      HoldsOfFinalizing.finalizeAll .within params fun p _ => finalizing_keeps hP p

theorem updateParams_keeps (authority : String) (p : Params)
    (hp : ∀ s, P s → P (s.putParams p.encode)) :
    Within (Chain.Keeps P) (k.updateParams authority p) := by
  unfold Keeper.updateParams
  split
  · exact .throw_bind
  · refine .bind (write_keeps fun s t hs ht => ?_) fun _ => .note _
    unfold Store.setParams at ht
    split at ht <;> cases ht
    exact hp s hs

theorem Incident.keeps (hP : Store.Lasting P) (i : Incident) : c.Keeps P (i.apply c) := by
  cases i with
  | failScan | failLots | failProposals => exact hP.switch _ fun _ => rfl
  | _ => exact fun hc => hc

theorem Operation.act_keeps (hP : Store.Lasting P) {op : Operation}
    (hop : ∀ a p, op = .updateParams a p → ∀ s, P s → P (s.putParams p.encode)) :
    Within (Chain.Keeps P) (op.act k) := by
  cases op with
  | submit s => exact .map (submit_keeps hP s) _
  | vote id voter option => exact .map (castVote_keeps hP id voter option) _
  | endBlock => exact .map (endBlock_keeps hP) _
  | updateParams a p => exact .map (updateParams_keeps a p (hop a p rfl)) _
  | moveTo => exact fun c hc => hc
  | incident i => exact fun c => i.keeps hP

/-! ### Loading a genesis -/

theorem load_keeps (hP : Store.Lasting P) (hparams : ∀ s b, P s → P (s.putParams b)) (g : Genesis) :
    Within (Chain.Keeps P) g.load := by
  refine HoldsOfLoading.load (H := fun _ x => Within (Chain.Keeps P) x) ⟨.within, ?_⟩ g
  refine fun w => write_keeps fun s t hs ht => ?_
  cases w with
  | params p =>
    simp only [Genesis.Step.run, Store.setParams] at ht
    split at ht <;> cases ht
    exact hparams s _ hs
  | proposal p => exact hP.putProposal (Store.stored_eq_ok.1 ht) hs
  | vote v =>
    cases ht
    exact hP.putVote s _ _ _ hs
  | lot l => exact hP.putLot (Store.stored_eq_ok.1 ht) hs
  | nextId id =>
    cases ht
    exact hP.setNextId s id hs

end DaoGovernance
