import DaoGovernance.Proofs.Genesis
import DaoGovernance.Proofs.Store.Listing
import Mathlib

/-!
Stores from which a genesis can be taken that is accepted again: every record can be read, the ids
of proposals are below the next id, and every vote is on a proposal that is stored.
-/

namespace DaoGovernance

namespace Store

structure View.Consistent (n : UInt64) (v : View) (lots : Address × UInt64 → Option Bytes) :
    Prop extends v.Tidy lots where
  nextId : v.nextId = n
  below : ∀ id b, v.proposals id = some b → id.toNat < n.toNat
  cast : ∀ id a b, v.votes (id, a) = some b → ∃ b', v.proposals id = some b'

structure Consistent (n : UInt64) (s : Store) : Prop extends s.view.Consistent n s.lotAt where
  keyed : s.Keyed

variable {s t : Store} {n m : UInt64} {p : Proposal}

theorem Consistent.tidy (h : s.Consistent n) : s.Tidy := ⟨h.toTidy, h.keyed⟩

theorem Becomes.consistent {v : View} {l : Address × UInt64 → Option Bytes} (hb : s.Becomes t v l)
    (hs : s.Keyed) (hv : v.Consistent n l) : t.Consistent n := by
  refine ⟨?_, hb.keyed hs⟩
  rw [hb.view, hb.lots]
  exact hv

namespace Consistent

theorem agrees (h : s.Consistent n) (ha : s.Agrees t) (ht : t.Keyed) : t.Consistent n where
  keyed := ht
  params := ha.params ▸ h.params
  proposals := ha.proposals ▸ h.proposals
  votes := ha.votes ▸ h.votes
  lots := ha.lots ▸ h.lots
  nextId := ha.nextId.trans h.nextId
  below := ha.proposals ▸ h.below
  cast := by
    rw [ha.votes, ha.proposals]
    exact h.cast

theorem setNextId (h : s.Consistent n) (hm : n.toNat ≤ m.toNat) : (s.setNextId m).Consistent m :=
  (setNextId_becomes s m).consistent h.keyed { h.toConsistent with
    nextId := rfl
    below := fun id b hb => (h.below id b hb).trans_le hm }

theorem setProposal (h : s.Consistent n) (hp : p.Fits) (hid : p.id.toNat < n.toNat)
    (hs : s.setProposal p = .ok t) : t.Consistent n := by
  refine (putProposal_becomes (stored_eq_ok.1 hs)).consistent h.keyed { h.toConsistent with
    proposals := h.proposals.update hp
    below := fun id b hb => ?_
    cast := fun id a b hb => ?_ }
  · dsimp only at hb
    rw [Function.update_apply] at hb
    split at hb
    · rename_i he
      exact he ▸ hid
    · exact h.below id b hb
  · obtain ⟨b', hb'⟩ := h.cast id a b hb
    dsimp only
    rw [Function.update_apply]
    split
    · exact ⟨_, rfl⟩
    · exact ⟨b', hb'⟩

theorem setVote {v : Vote} {b : Bytes} (h : s.Consistent n)
    (hstored : s.view.proposals v.proposal = some b) : (s.setVote v).Consistent n := by
  refine (putVote_becomes s v.proposal v.voter v.encode).consistent h.keyed { h.toConsistent with
    votes := h.votes.update (a := v) trivial
    cast := fun id a b' hb => ?_ }
  dsimp only at hb
  rw [Function.update_apply] at hb
  split at hb
  · rename_i he
    obtain ⟨rfl, -⟩ := Prod.mk.inj he
    exact ⟨b, hstored⟩
  · exact h.cast id a b' hb

theorem setLot {l : Lot} (h : s.Consistent n) (hs : s.setLot l = .ok t) : t.Consistent n :=
  (putLot_becomes (stored_eq_ok.1 hs)).consistent h.keyed { h.toConsistent with
    lots := h.lots.update (a := l) trivial }

theorem setParams {p : Params} (h : s.Consistent n) (hp : p.Fits) (hs : s.setParams p = .ok t) :
    t.Consistent n := by
  unfold Store.setParams at hs
  split at hs
  · cases hs
  · rename_i hvalid
    cases hs
    exact (putParams_becomes s p.encode).consistent h.keyed { h.toConsistent with
      params := ⟨p, rfl, hp, hvalid⟩ }

theorem takeId {id : UInt64} (h : s.Consistent n) (ht : s.takeId = .ok (id, t)) :
    id.toNat < (n + 1).toNat ∧ t.Consistent (n + 1) := by
  rcases takeId_eq h.keyed.sound with ⟨-, he⟩ | ⟨hlast, hi⟩
  · rw [he] at ht
    cases ht
  · rw [hi] at ht
    cases ht
    have hsucc := toNat_succ hlast
    rw [h.nextId] at hsucc ⊢
    exact ⟨by omega, h.setNextId (by omega)⟩

theorem countScan (h : s.Consistent n) : s.countScan.Consistent n :=
  (countScan_becomes s).consistent h.keyed h.toConsistent

end Consistent

theorem IsEmpty.consistent {p : Params} (h : s.IsEmpty) (hp : p.Fits) (hv : p.validate = .ok ()) :
    (s.putParams p.encode).Consistent s.view.nextId := by
  refine (putParams_becomes s p.encode).consistent h.keyed
    ⟨⟨⟨p, rfl, hp, hv⟩, ?_, ?_, ?_⟩, rfl, ?_, ?_⟩
  · rw [show s.view.proposals = fun _ => none from funext h.proposals]
    exact .empty
  · rw [show s.view.votes = fun _ => none from funext h.votes]
    exact .empty
  · rw [show s.lotAt = fun _ => none from funext h.lots]
    exact .empty
  · simp [h.proposals]
  · simp [h.votes]

end Store

end DaoGovernance
