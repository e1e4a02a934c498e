import DaoGovernance.Proofs.Action
import DaoGovernance.Voting
import Mathlib

/-!
What casting a vote does: all or nothing, and only to the record of that vote.
-/

namespace DaoGovernance

open DaoGovernance.Action

section Within

variable {R : Chain → Chain → Prop} [Std.Refl R] [IsTrans Chain R]

theorem scanLots_within (hscan : ∀ c : Chain, R c { c with store := c.store.countScan })
    (voter : Address) : Within R (scanLots voter) :=
  .bind (fun c => hscan c) fun _ => .read _

theorem refuseSecondVote_within (id : UInt64) (voter : Address) :
    Within R (refuseSecondVote id voter) := by
  refine .bind (.read _) fun v => ?_
  split
  · exact .throw
  · exact .pure

variable [IgnoresLog R]

theorem votingPower_within (hscan : ∀ c : Chain, R c { c with store := c.store.countScan })
    (voter : Address) (now : Height) : Within R (votingPower voter now) := by
  refine .bind (.read _) fun params => .bind .get fun c => ?_
  dsimp only
  split
  · exact .bind (.balance _ _) fun _ => .bind (.note _) fun _ => .pure
  · exact .bind (scanLots_within hscan _) fun _ => .bind (.check _) fun _ =>
      .bind (.note _) fun _ => .pure

theorem positivePower_within (hscan : ∀ c : Chain, R c { c with store := c.store.countScan })
    (voter : Address) : Within R (positivePower voter) := by
  refine .bind .height fun h => .bind (votingPower_within hscan _ _) fun power => ?_
  dsimp only
  split
  · exact .throw_bind
  · exact .pure

theorem refuseInactive_within (p : Proposal) (id : UInt64) : Within R (refuseInactive p id) := by
  unfold refuseInactive
  split
  · exact .bind (.note _) fun _ => .throw_bind
  · refine .bind .height fun _ => ?_
    split
    · exact .throw
    · exact .pure

end Within

theorem countScan_quiet (c : Chain) : c.Quiet { c with store := c.store.countScan } :=
  ⟨Store.view_countScan, Store.Sound.countScan, (Store.countScan_becomes _).lots, rfl, rfl, rfl,
    rfl⟩

theorem refuseInactive_eq_ok {p : Proposal} {id : UInt64} {c c' : Chain} {u : Unit}
    (h : refuseInactive p id c = .ok u c') :
    p.isOpen = true ∧ p.isClosedAt c.block.height = false ∧ c' = c := by
  unfold refuseInactive at h
  cases ho : p.isOpen with
  | false => simp [ho, bind_eq_ok] at h
  | true =>
    cases hc : p.isClosedAt c.block.height with
    | true => simp [ho, bind_eq_ok, hc] at h
    | false =>
      simp [ho, bind_eq_ok, hc] at h
      exact ⟨rfl, rfl, h.symm⟩

theorem refuseSecondVote_eq_ok {id : UInt64} {voter : Address} {c c' : Chain} {u : Unit}
    (h : refuseSecondVote id voter c = .ok u c') :
    c.store.view.votes (id, voter) = none ∧ c' = c := by
  obtain ⟨v, d, hr, h⟩ := bind_eq_ok.1 h
  obtain ⟨hv, rfl⟩ := read_eq_ok.1 hr
  cases v with
  | some v => simp at h
  | none =>
    simp at h
    exact ⟨Store.vote?_eq_none.1 hv, h.symm⟩

theorem positivePower_eq_ok {voter : Address} {c c' : Chain} {a : Amount}
    (h : positivePower voter c = .ok a c') :
    votingPower voter c.block.height c = .ok a c' ∧ a ≠ 0 := by
  obtain ⟨n, d, hn, h⟩ := bind_eq_ok.1 h
  simp only [height_apply, EStateM.Result.ok.injEq] at hn
  obtain ⟨rfl, rfl⟩ := hn
  obtain ⟨b, d, hb, h⟩ := bind_eq_ok.1 h
  dsimp only at h
  split at h
  · cases h
  · rename_i hz
    cases h
    exact ⟨hb, hz⟩

structure Casts (c : Chain) (v : Vote) (d : Chain) : Prop where
  isOpen : ∃ p, c.store.view.proposal v.proposal = some p ∧ p.isOpen = true ∧
    p.isClosedAt c.block.height = false
  first : c.store.view.votes (v.proposal, v.voter) = none
  chosen : v.option ≠ .unspecified
  power : ∃ c', votingPower v.voter c.block.height c = .ok v.power c'
  view : d.store.view = { c.store.view with
    votes := Function.update c.store.view.votes (v.proposal, v.voter) (some v.encode) }
  sound : c.store.Sound → d.store.Sound
  lots : d.store.lotAt = c.store.lotAt
  ledger : d.ledger = c.ledger
  registry : d.registry = c.registry
  faults : d.faults = c.faults
  block : d.block = c.block.emit (.voteCast v)

theorem castVote_ends (id : UInt64) (voter : String) (option : VoteOption) (c : Chain) :
    Ends (castVote id voter option) c (fun _ d => ∃ v, Casts c v d) fun _ d => c.Quiet d := by
  have quiet : ∀ (e : GovernanceError) d, c.Quiet d → c.Quiet d := fun _ _ h => h
  refine .within_bind (refl c) (.check _) quiet fun voter d h _ => ?_
  obtain ⟨-, rfl⟩ := check_eq_ok.1 h
  refine .within_bind (refl d) (.read _) quiet fun p d' h _ => ?_
  obtain ⟨hp, rfl⟩ := read_eq_ok.1 h
  refine .within_bind (refl d') (refuseInactive_within _ _) quiet fun _ d h _ => ?_
  obtain ⟨ho, hc, rfl⟩ := refuseInactive_eq_ok h
  refine .within_bind (refl d) (refuseSecondVote_within _ _) quiet fun _ d' h _ => ?_
  obtain ⟨hv, rfl⟩ := refuseSecondVote_eq_ok h
  dsimp only
  split
  · exact .within_bind (refl d') .throw quiet fun _ _ h => by simp at h
  · rename_i hoption
    refine .within_bind (refl d') (positivePower_within countScan_quiet _) quiet fun power d h hq => ?_
    obtain ⟨hpower, -⟩ := positivePower_eq_ok h
    refine ⟨⟨id, voter, option, power⟩, ⟨p, Store.proposal_eq_ok.1 hp, ho, hc⟩, hv, hoption,
      ⟨d, hpower⟩, ?_, ?_, ?_, hq.ledger, hq.registry, hq.faults, ?_⟩
    · exact hq.view ▸ Store.view_putVote id voter _
    · exact fun hs => (hq.sound hs).putVote id voter _
    · exact (Store.putVote_becomes _ id voter _).lots.trans hq.lots
    · exact hq.block ▸ rfl

end DaoGovernance
