import DaoGovernance.Proofs.Genesis
import DaoGovernance.Proofs.Tally
import Mathlib

/-!
No vote is lost, counted twice or weighed anew: the sums on a proposal whose voting was decided are
those of the votes that were cast on it, each with the power its voter had then.
-/

namespace DaoGovernance

variable {k : Keeper} {params : Params} {c d : Chain} {es : List Event}

def Event.castVote : Event → Option Vote
  | .voteCast v => some v
  | _ => none

def votesCast (es : List Event) : List Vote := es.filterMap Event.castVote

def votesCastOn (id : UInt64) (es : List Event) : List Vote :=
  (votesCast es).filter (·.proposal = id)

theorem votesCast_append_vote (v : Vote) :
    votesCast (es ++ [.voteCast v]) = votesCast es ++ [v] := by
  simp [votesCast, Event.castVote]

theorem votesCast_append_of_eq_none {e : Event} (h : e.castVote = none) :
    votesCast (es ++ [e]) = votesCast es := by simp [votesCast, h]

theorem votesCastOn_append_of_ne {id : UInt64} {v : Vote} (h : id ≠ v.proposal) :
    votesCastOn id (es ++ [.voteCast v]) = votesCastOn id es := by
  simp [votesCastOn, votesCast_append_vote, Ne.symm h]

theorem mem_votesCastOn {id : UInt64} {v : Vote} :
    v ∈ votesCastOn id es ↔ v ∈ votesCast es ∧ v.proposal = id := by
  simp [votesCastOn]

/-- The sums on a proposal that was decided are those of the votes, those on an open one are zero,
and no other status comes to rest. -/
def Proposal.Tallied (p : Proposal) (vs : List Vote) : Prop :=
  match p.status with
  | .rejected | .executed => p.tally.Counts vs
  | .failed => p.tally.Counts vs ∨ p.tally = .zero
  | .votingPeriod => p.tally = .zero
  | .passed | .unspecified => False

theorem Proposal.tallied_of_isOpen {p : Proposal} {vs : List Vote} (ho : p.isOpen = true) :
    p.Tallied vs ↔ p.tally = .zero := by
  have hs : p.status = .votingPeriod := of_decide_eq_true ho
  simp only [Tallied, hs]

/-- Each voter cast one vote on a proposal at most, the store has exactly the votes that were cast,
and the sums on the proposals are right. -/
structure Recorded (es : List Event) (c : Chain) : Prop where
  once : ((votesCast es).map fun v => (v.proposal, v.voter)).Nodup
  votes : ∀ id a b, c.store.view.votes (id, a) = some b ↔
    ∃ v ∈ votesCast es, v.proposal = id ∧ v.voter = a ∧ b = v.encode
  tallied : ∀ id p, c.store.view.proposal id = some p → p.Tallied (votesCastOn id es)

namespace Recorded

theorem congr {es' : List Event} (h : Recorded es c) (he : votesCast es' = votesCast es)
    (hp : d.store.view.proposals = c.store.view.proposals)
    (hv : d.store.view.votes = c.store.view.votes) : Recorded es' d := by
  refine ⟨he ▸ h.once, ?_, ?_⟩
  · rw [he, hv]
    exact h.votes
  · intro id p hid
    rw [Store.View.proposal_congr (congrFun hp id)] at hid
    rw [votesCastOn, he]
    exact h.tallied id p hid

theorem put {es' : List Event} {p : Proposal} (h : Recorded es c)
    (he : votesCast es' = votesCast es) (hf : p.Fits)
    (hp : d.store.view.proposals = (c.store.view.put p).proposals)
    (hv : d.store.view.votes = c.store.view.votes) (ht : p.Tallied (votesCastOn p.id es)) :
    Recorded es' d := by
  refine ⟨he ▸ h.once, ?_, ?_⟩
  · rw [he, hv]
    exact h.votes
  · intro id q hid
    rw [Store.View.proposal_congr (congrFun hp id)] at hid
    rw [votesCastOn, he]
    by_cases hne : id = p.id
    · subst hne
      rw [Store.View.proposal_put_self hf] at hid
      cases hid
      exact ht
    · rw [Store.View.proposal_put_of_ne hne] at hid
      exact h.tallied id q hid

theorem perm (h : Recorded es c) (hs : c.store.Sound) {id : UInt64} {vs : List Vote}
    (hvs : c.store.votes id = .ok vs) : vs.Perm (votesCastOn id es) := by
  rcases Store.votes_eq hs id (fun a b hb => by
    obtain ⟨v, -, -, ha, rfl⟩ := (h.votes id a b).1 hb
    exact ⟨v, Vote.decode_encode v, ha⟩) with ⟨e, he⟩ | ⟨ws, hws, hn, hm⟩
  · rw [he] at hvs
    cases hvs
  · rw [hws] at hvs
    cases hvs
    have honce : (votesCastOn id es).Nodup := h.once.of_map.filter _
    refine (List.perm_ext_iff_of_nodup hn.of_map honce).2 fun v => ?_
    rw [hm, mem_votesCastOn]
    constructor
    · rintro ⟨b, hb, hdec⟩
      obtain ⟨w, hw, hid, -, rfl⟩ := (h.votes _ _ _).1 hb
      rw [Vote.decode_encode] at hdec
      cases hdec
      exact ⟨hw, hid⟩
    · rintro ⟨hv, rfl⟩
      exact ⟨v.encode, (h.votes _ _ _).2 ⟨v, hv, rfl, rfl, rfl⟩, Vote.decode_encode v⟩

theorem casts {v : Vote} (h : Recorded es c) (hv : Casts c v d) :
    Recorded (es ++ [.voteCast v]) d := by
  refine ⟨?_, fun id a b => ?_, fun id p hp => ?_⟩
  · rw [votesCast_append_vote, List.map_append, List.nodup_append_comm]
    refine List.nodup_cons.2 ⟨fun hm => ?_, h.once⟩
    obtain ⟨w, hw, hwv⟩ := List.mem_map.1 hm
    rw [Prod.mk.injEq] at hwv
    have := (h.votes _ _ _).2 ⟨w, hw, hwv.1, hwv.2, rfl⟩
    rw [hv.first] at this
    cases this
  · rw [hv.view, votesCast_append_vote]
    by_cases hk : (id, a) = (v.proposal, v.voter)
    · cases hk
      simp only [Function.update_self, Option.some.injEq]
      constructor
      · rintro rfl
        exact ⟨v, by simp, rfl, rfl, rfl⟩
      · rintro ⟨w, hw, hid, ha, rfl⟩
        rcases List.mem_append.1 hw with hw | hw
        · have := (h.votes _ _ _).2 ⟨w, hw, hid, ha, rfl⟩
          rw [hv.first] at this
          cases this
        · rw [List.mem_singleton.1 hw]
    · simp only [Function.update_of_ne hk, h.votes]
      constructor
      · rintro ⟨w, hw, hrest⟩
        exact ⟨w, by simp [hw], hrest⟩
      · rintro ⟨w, hw, hid, ha, rfl⟩
        rcases List.mem_append.1 hw with hw | hw
        · exact ⟨w, hw, hid, ha, rfl⟩
        · rw [List.mem_singleton.1 hw] at hid ha
          exact absurd (by rw [hid, ha]) hk
  · have hsame : d.store.view.proposal id = c.store.view.proposal id :=
      Store.View.proposal_congr (by rw [hv.view])
    rw [hsame] at hp
    have ht := h.tallied id p hp
    by_cases hid : id = v.proposal
    -- Votes are cast on open proposals only, and there are no sums on these yet.
    · obtain ⟨q, hq, ho, -⟩ := hv.isOpen
      rw [← hid, hp] at hq
      cases hq
      exact (Proposal.tallied_of_isOpen ho).2 ((Proposal.tallied_of_isOpen ho).1 ht)
    · rwa [votesCastOn_append_of_ne hid]

theorem finalizes {p : Proposal} {s : Settled} (h : Recorded es c) (hw : c.WellKept)
    (hf : Finalizing k params p c s d) : Recorded (es ++ [s.event]) d := by
  refine h.put (votesCast_append_of_eq_none rfl)
    ((Store.View.fits_of_proposal hf.stored).finish _ _) (by rw [hf.view]) (by rw [hf.view]; rfl) ?_
  have hzero := (Proposal.tallied_of_isOpen hf.isOpen).1 (h.tallied _ _ hf.stored)
  have houtcome := hf.outcome
  rcases params.judge_cases p (c.store.votes p.id) with ⟨vs, hvs, hcounts⟩ | ⟨ht, e, hv⟩
  · have hcounts := hcounts.perm (h.perm hw.sound hvs)
    unfold Proposal.Tallied Proposal.finish
    cases s.finalized.outcome with
    | rejected => exact hcounts
    | executed => exact hcounts
    | failed => exact .inl hcounts
  · rw [hv] at houtcome
    rw [ht, show s.finalized.outcome = .failed from houtcome]
    exact .inr hzero

end Recorded

theorem recorded_invariant (k : Keeper) : Invariant k Operation.Fits Recorded := by
  apply Invariant.of_records
  · intro es c d h hs
    exact h.congr rfl hs.proposals hs.votes
  · intro es c d s p kind proposer hA _ h ho
    refine h.put (votesCast_append_of_eq_none rfl) (ho.fits hA) ho.proposals
      (by rw [ho.view]; rfl) ?_
    obtain ⟨content, params, snapshot, -, -, hp, -⟩ := ho.opened
    rw [hp]
    rfl
  · intro es c d v _ h hv
    exact h.casts hv
  · intro es c d params p s hw h hf
    exact h.finalizes hw hf

theorem Chain.Fresh.recorded {p : Params} (h : c.Fresh p) : Recorded [] c where
  once := List.nodup_nil
  votes id a b := by simp [h.votes, votesCast]
  tallied id q hq := by
    rw [h.proposal] at hq
    cases hq

theorem Changes.power {op : Operation} {fs : List Finalized} (h : Changes k c op es fs d) {v : Vote}
    (hv : .voteCast v ∈ es) : ∃ c', votingPower v.voter c.block.height c = .ok v.power c' := by
  cases h with
  | opened => simp at hv
  | cast h =>
    rw [List.mem_singleton, Event.voteCast.injEq] at hv
    exact hv ▸ h.power
  | ended => simp [Settled.event] at hv
  | _ => cases hv

/-- The sums on proposals, the votes they are sums of, and the powers of these. -/
structure Keeper.CountsVotes (k : Keeper) (ops : List Operation) (c : Chain) : Prop where
  tallied : ∀ id p, (k.after ops c).store.proposal id = .ok p →
    p.Tallied (votesCastOn id ((k.history ops c).flatMap Moment.events))
  once : ((votesCast ((k.history ops c).flatMap Moment.events)).map
    fun v => (v.proposal, v.voter)).Nodup
  power : ∀ m ∈ k.history ops c, ∀ v, .voteCast v ∈ m.events →
    ∃ c', votingPower v.voter m.before.block.height m.before = .ok v.power c'

theorem countsVotes_of_fresh (k : Keeper) {p : Params} {ops : List Operation} (hc : c.Fresh p)
    (hfits : ∀ op ∈ ops, op.Fits) : k.CountsVotes ops c := by
  have hw := hc.wellKept
  have h := (recorded_invariant k).run hfits hw hc.recorded
  refine ⟨fun id p hp => h.tallied id p (Store.proposal_eq_ok.1 hp), h.once, fun m hm v hv => ?_⟩
  obtain ⟨ops₁, op, -, -, rfl⟩ := Keeper.mem_history.1 hm
  rw [Keeper.moment_before]
  exact (changes_moment k (hw.after k ops₁) op).power hv

theorem sample_countsVotes :
    Sample.keeper.CountsVotes Sample.operations Sample.start ∧
      (votesCast ((Sample.keeper.history Sample.operations Sample.start).flatMap
        Moment.events)).map (fun v => (v.proposal, v.option, v.power)) = [(0, .yes, 5)] := by
  refine ⟨countsVotes_of_fresh _ Sample.start_fresh Sample.operations_fit, ?_⟩
  decide +kernel

end DaoGovernance
