import DaoGovernance.Proofs.Genesis
import DaoGovernance.Proofs.Store.Listing
import Mathlib

/-!
What loading a genesis leaves: every record that no later one of its list replaces, and nothing else,
each under its own key and all proposals below the next id.  No check keeps two votes of one voter on
one proposal, or any other two records of one key, apart, so that a genesis is loaded without loss
exactly where no key occurs twice.
-/

namespace DaoGovernance

open DaoGovernance.Action

variable {c d : Chain}

def Chain.Stores (c d : Chain) : Prop := ∃ s log, d = { c with store := s, log }

instance : Std.Refl Chain.Stores := ⟨fun c => ⟨c.store, c.log, rfl⟩⟩

instance : IsTrans Chain Chain.Stores where
  trans := by
    rintro c _ _ ⟨s, log, rfl⟩ ⟨t, log', rfl⟩
    exact ⟨t, log', rfl⟩

instance : IgnoresLog Chain.Stores := ⟨fun c _ => ⟨c.store, _, rfl⟩⟩

namespace Genesis

theorem load_stores (g : Genesis) : Within Chain.Stores g.load :=
  HoldsOfLoading.load (H := fun _ x => Within Chain.Stores x)
    ⟨.within, fun _ => .write fun c s _ => ⟨s, c.log, rfl⟩⟩ g

def paramsToWrite (g : Genesis) : Params :=
  match g.params.validate with
  | .ok () => g.params
  | .error _ => .default

theorem validate_paramsToWrite (g : Genesis) : g.paramsToWrite.validate = .ok () := by
  unfold paramsToWrite
  split
  · assumption
  · rfl

/-- The records of the genesis were written over those of the store, in the order of its lists. -/
def Fills (g : Genesis) (s t : Store) : Prop :=
  s.Becomes t { s.view with
    proposals := overwrite Proposal.id Proposal.encode s.view.proposals g.proposals
    votes := overwrite Vote.key Vote.encode s.view.votes g.votes
    params := some g.paramsToWrite.encode
    nextId := g.nextId } (overwrite Lot.key Lot.encode s.lotAt g.lots)

theorem writeProposals_ends (ps : List Proposal) :
    Ends (writeProposals ps) c
      (fun _ d => c.store.Becomes d.store { c.store.view with
        proposals := overwrite Proposal.id Proposal.encode c.store.view.proposals ps }
        c.store.lotAt)
      fun _ _ => c.store.view.failProposals = true := by
  induction ps generalizing c with
  | nil => exact .refl _
  | cons p ps ih =>
    rcases Store.setProposal_eq c.store p with ⟨hf, e, he⟩ | ⟨-, s, hs, -⟩
    · exact .of_fail (write_eq_error.2 ⟨he, rfl⟩) hf
    · have hb := Store.putProposal_becomes (Store.stored_eq_ok.1 hs)
      refine .of_step (a := ()) (write_eq_ok.2 ⟨s, hs, rfl⟩) (ih.mono ?_ ?_)
      · intro _ d hd
        rw [hb.view, hb.lots] at hd
        exact hb.trans hd
      · intro _ _ hf
        rwa [hb.view] at hf

theorem writeVotes_ends (vs : List Vote) :
    Ends (writeVotes vs) c
      (fun _ d => c.store.Becomes d.store { c.store.view with
        votes := overwrite Vote.key Vote.encode c.store.view.votes vs } c.store.lotAt)
      fun _ _ => False := by
  induction vs generalizing c with
  | nil => exact .refl _
  | cons v vs ih =>
    have hb := Store.putVote_becomes c.store v.proposal v.voter v.encode
    refine .of_step (a := ()) (write_eq_ok.2 ⟨c.store.setVote v, rfl, rfl⟩) (ih.mono ?_ ?_)
    · intro _ d hd
      rw [Store.setVote, hb.view, hb.lots] at hd
      exact hb.trans hd
    · exact fun _ _ h => h

theorem writeLots_ends (ls : List Lot) :
    Ends (writeLots ls) c
      (fun _ d => c.store.Becomes d.store c.store.view
        (overwrite Lot.key Lot.encode c.store.lotAt ls))
      fun _ _ => c.store.view.failLots = true := by
  induction ls generalizing c with
  | nil => exact .refl _
  | cons l ls ih =>
    rcases Store.setLot_eq c.store l with ⟨hf, e, he⟩ | ⟨-, s, hs, -⟩
    · exact .of_fail (write_eq_error.2 ⟨he, rfl⟩) hf
    · have hb := Store.putLot_becomes (Store.stored_eq_ok.1 hs)
      refine .of_step (a := ()) (write_eq_ok.2 ⟨s, hs, rfl⟩) (ih.mono ?_ ?_)
      · intro _ d hd
        rw [hb.view, hb.lots] at hd
        exact hb.trans hd
      · intro _ _ hf
        rwa [hb.view] at hf

theorem usableParams_ends (g : Genesis) :
    Ends g.usableParams c (fun p d => p = g.paramsToWrite ∧ d.store = c.store)
      fun _ _ => False := by
  unfold usableParams paramsToWrite
  cases g.params.validate with
  | ok u => exact ⟨rfl, rfl⟩
  | error e => exact ⟨rfl, rfl⟩

theorem load_ends (g : Genesis) :
    Ends g.load c (fun _ d => g.validate = .ok () ∧ g.Fills c.store d.store)
      fun _ _ => g.validate ≠ .ok () ∨ c.store.view.failProposals = true ∨
        c.store.view.failLots = true := by
  cases hg : g.validate with
  | error e => exact .of_fail (check_eq_error.2 ⟨hg, rfl⟩) (.inl nofun)
  | ok u =>
    refine .of_step (a := ()) (check_eq_ok.2 ⟨hg, rfl⟩) ?_
    refine .bind ((usableParams_ends g).mono (fun _ _ h => h) fun _ _ h => h.elim) ?_
    rintro _ c₁ - ⟨rfl, h₁⟩
    have hset : Store.setParams g.paramsToWrite c₁.store =
        .ok (c₁.store.putParams g.paramsToWrite.encode) := by
      rw [Store.setParams, validate_paramsToWrite]
    refine .of_step (a := ()) (write_eq_ok.2 ⟨_, hset, rfl⟩) ?_
    have hb := Store.putParams_becomes c₁.store g.paramsToWrite.encode
    rw [h₁] at hb ⊢
    refine .bind ((writeProposals_ends g.proposals).mono (fun _ _ h => h) fun _ _ h => ?_) ?_
    · rw [hb.view] at h
      exact .inr (.inl h)
    intro _ c₂ _ h₂
    dsimp only at h₂
    rw [hb.view, hb.lots] at h₂
    have hb := hb.trans h₂
    refine .bind ((writeVotes_ends g.votes).mono (fun _ _ h => h) fun _ _ h => h.elim) ?_
    intro _ c₃ _ h₃
    rw [hb.view, hb.lots] at h₃
    have hb := hb.trans h₃
    refine .bind ((writeLots_ends g.lots).mono (fun _ _ h => h) fun _ _ h => ?_) ?_
    · rw [hb.view] at h
      exact .inr (.inr h)
    intro _ c₄ _ h₄
    rw [hb.view, hb.lots] at h₄
    have hb := hb.trans h₄
    have h₅ := Store.setNextId_becomes c₄.store g.nextId
    rw [hb.view, hb.lots] at h₅
    exact .of_step (a := ()) (write_eq_ok.2 ⟨_, rfl, rfl⟩)
      (.of_step (note_apply _) ⟨rfl, hb.trans h₅⟩)

theorem load_eq_ok {g : Genesis} (hg : g.validate = .ok ())
    (hp : c.store.view.failProposals = false) (hl : c.store.view.failLots = false) :
    ∃ d, g.load c = .ok () d ∧ g.Fills c.store d.store := by
  have he := load_ends (c := c) g
  cases h : g.load c with
  | ok u d => exact ⟨d, rfl, (he.of_ok h).2⟩
  | error e d =>
    rcases he.of_error h with hf | hf | hf
    · exact absurd hg hf
    · rw [hp] at hf
      cases hf
    · rw [hl] at hf
      cases hf

/-! ### Into an empty store -/

/-- Lengths fit in a word, as those of all that is in memory do. -/
def Fits (g : Genesis) : Prop := g.params.Fits ∧ ∀ p ∈ g.proposals, p.Fits

theorem fits_paramsToWrite {g : Genesis} (h : g.params.Fits) : g.paramsToWrite.Fits := by
  unfold Genesis.paramsToWrite
  split
  · exact h
  · decide

theorem Fits.paramsToWrite {g : Genesis} (h : g.Fits) : g.paramsToWrite.Fits :=
  fits_paramsToWrite h.1

variable {g out : Genesis} {s t : Store}

theorem Fills.view_eq (hfill : g.Fills s t) (hs : s.IsEmpty) :
    t.view.proposals = overwrite Proposal.id Proposal.encode (fun _ => none) g.proposals ∧
    t.view.votes = overwrite Vote.key Vote.encode (fun _ => none) g.votes ∧
    t.lotAt = overwrite Lot.key Lot.encode (fun _ => none) g.lots := by
  rw [hfill.view, hfill.lots, show s.view.proposals = fun _ => none from funext hs.proposals,
    show s.view.votes = fun _ => none from funext hs.votes,
    show s.lotAt = fun _ => none from funext hs.lots]
  exact ⟨rfl, rfl, rfl⟩

theorem Fills.tidy (hfill : g.Fills s t) (hs : s.IsEmpty) (hfits : g.Fits) : t.Tidy := by
  obtain ⟨hp, hv, hl⟩ := hfill.view_eq hs
  refine ⟨⟨⟨g.paramsToWrite, by rw [hfill.view], hfits.paramsToWrite,
    g.validate_paramsToWrite⟩, ?_, ?_, ?_⟩, hfill.keyed hs.keyed⟩
  · rw [hp]
    exact RecordsOf.empty.overwrite hfits.2
  · rw [hv]
    exact RecordsOf.empty.overwrite fun _ _ => trivial
  · rw [hl]
    exact RecordsOf.empty.overwrite fun _ _ => trivial

theorem wellKept_of_load {u : Unit} (h : g.load c = .ok u d) (hempty : c.store.IsEmpty)
    (hsteady : c.faults.permitStopsWrites = false) : d.WellKept := by
  obtain ⟨hv, hfill⟩ := (load_ends g).of_ok h
  have hids := (validate_eq_ok.1 hv).1
  have hstored {id : UInt64} {b : Bytes} (hb : d.store.view.proposals id = some b) :
      ∃ p ∈ g.proposals, p.id = id ∧ p.encode = b := by
    rw [(hfill.view_eq hempty).1, overwrite_eq_some] at hb
    rcases hb with ⟨p, hp, hid, hb⟩ | ⟨-, hb⟩
    · exact ⟨p, (latest_sublist _ _).subset hp, hid, hb⟩
    · cases hb
  refine ⟨?_, (hfill.keyed hempty.keyed).sound, ?_, ?_⟩
  · obtain ⟨s, log, rfl⟩ := (load_stores g).of_ok h
    exact hsteady
  · intro id q hq
    obtain ⟨b, hb, hdec⟩ := Store.View.proposal_eq_some.1 hq
    obtain ⟨p, -, rfl, rfl⟩ := hstored hb
    exact Proposal.id_of_decode_encode hdec
  · intro id b hb
    obtain ⟨p, hp, rfl, -⟩ := hstored hb
    rw [hfill.view]
    exact hids p hp

structure HasLatest (g out : Genesis) : Prop where
  params : out.params = g.paramsToWrite
  proposals : out.proposals.Perm (latest Proposal.id g.proposals)
  votes : out.votes.Perm (latest Vote.key g.votes)
  lots : out.lots.Perm (latest Lot.key g.lots)
  nextId : out.nextId = g.nextId

theorem Tells.hasLatest (ht : out.Tells t) (hfill : g.Fills s t) (hs : s.IsEmpty)
    (hfits : g.Fits) : g.HasLatest out := by
  obtain ⟨hp, hv, hl⟩ := hfill.view_eq hs
  refine ⟨?_, ?_, ?_, ?_, ?_⟩
  · have he := ht.params
    rw [hfill.view, Option.some.injEq] at he
    have hd := Params.decode_encode ht.fits
    rw [← he, Params.decode_encode hfits.paramsToWrite] at hd
    exact (Except.ok.inj hd).symm
  · have hlist := ht.proposals
    rw [hp] at hlist
    exact hlist.perm_latest (fun _ => Proposal.decode_encode) hfits.2
  · have hlist := ht.votes
    rw [hv] at hlist
    exact hlist.perm_latest (fun v _ => v.decode_encode) fun _ _ => trivial
  · have hlist := ht.lots
    rw [hl] at hlist
    exact hlist.perm_latest (fun l _ => l.decode_encode) fun _ _ => trivial
  · rw [ht.nextId, hfill.view]

/-- `out` has all that `g` has, in any order, but for params that do not validate. -/
structure HasAll (g out : Genesis) : Prop where
  params : out.params = g.paramsToWrite
  proposals : out.proposals.Perm g.proposals
  votes : out.votes.Perm g.votes
  lots : out.lots.Perm g.lots
  nextId : out.nextId = g.nextId

/-- No two proposals have one id, no two votes are of one voter on one proposal, and no two lots are
of one voter from one proposal. -/
structure Distinct (g : Genesis) : Prop where
  proposals : (g.proposals.map Proposal.id).Nodup
  votes : (g.votes.map Vote.key).Nodup
  lots : (g.lots.map Lot.key).Nodup

theorem HasLatest.hasAll_iff (hl : g.HasLatest out) : g.HasAll out ↔ g.Distinct := by
  constructor
  · intro ha
    exact ⟨latest_perm_iff.1 (hl.proposals.symm.trans ha.proposals),
      latest_perm_iff.1 (hl.votes.symm.trans ha.votes),
      latest_perm_iff.1 (hl.lots.symm.trans ha.lots)⟩
  · intro hd
    exact ⟨hl.params, hl.proposals.trans (latest_perm_iff.2 hd.proposals),
      hl.votes.trans (latest_perm_iff.2 hd.votes), hl.lots.trans (latest_perm_iff.2 hd.lots),
      hl.nextId⟩

/-- What an accepted genesis left in an empty store is its last record of each key, which is all of
it exactly where no key occurs twice. -/
theorem hasAll_iff_distinct (hempty : c.store.IsEmpty) (hfits : g.Fits)
    (hload : g.load c = .ok () d) :
    ∃ out, d.store.toGenesis = .ok out ∧ g.HasLatest out ∧ (g.HasAll out ↔ g.Distinct) := by
  have hfill := ((load_ends g).of_ok hload).2
  obtain ⟨out, hout, ht⟩ := (hfill.tidy hempty hfits).toGenesis_eq
  have hl := ht.hasLatest hfill hempty hfits
  exact ⟨out, hout, hl, hl.hasAll_iff⟩

end Genesis

/-! ### A vote that is told twice -/

namespace Sample

def opened : Proposal :=
  submission.toProposal proposer (Content.addLabel "foo").pack 500 5 0 ⟨0⟩

def withVotes (vs : List Vote) : Genesis := ⟨.default, [opened], vs, [], 1⟩

theorem withVotes_fits (vs : List Vote) : (withVotes vs).Fits := by
  refine ⟨start_fresh.fits, fun p hp => ?_⟩
  rw [List.mem_singleton.1 hp]
  exact ⟨by decide, by decide, by decide, by decide⟩

theorem emptyMemory_isEmpty : Store.emptyMemory.IsEmpty := ⟨rfl, rfl, rfl, rfl, rfl⟩

theorem withVote_hasAll :
    ∃ d out, (withVotes [⟨0, proposer, .yes, 2⟩]).load (.fresh .emptyMemory) = .ok () d ∧
      d.store.toGenesis = .ok out ∧ (withVotes [⟨0, proposer, .yes, 2⟩]).HasAll out := by
  obtain ⟨d, hd, -⟩ := Genesis.load_eq_ok (c := .fresh .emptyMemory)
    (g := withVotes [⟨0, proposer, .yes, 2⟩]) rfl rfl rfl
  obtain ⟨out, hout, -, hiff⟩ := Genesis.hasAll_iff_distinct emptyMemory_isEmpty (withVotes_fits _) hd
  exact ⟨d, out, hd, hout, hiff.2 ⟨by decide, by decide, by decide⟩⟩

/-- Two votes of one voter on one proposal are accepted, and one of them is lost. -/
theorem withTwoVotes_not_hasAll :
    ∃ d out, (withVotes [⟨0, proposer, .yes, 2⟩, ⟨0, proposer, .no, 3⟩]).load
        (.fresh .emptyMemory) = .ok () d ∧
      d.store.toGenesis = .ok out ∧
      ¬ (withVotes [⟨0, proposer, .yes, 2⟩, ⟨0, proposer, .no, 3⟩]).HasAll out := by
  obtain ⟨d, hd, hfill⟩ := Genesis.load_eq_ok (c := .fresh .emptyMemory)
    (g := withVotes [⟨0, proposer, .yes, 2⟩, ⟨0, proposer, .no, 3⟩]) rfl rfl rfl
  have hfits := withVotes_fits [⟨0, proposer, .yes, 2⟩, ⟨0, proposer, .no, 3⟩]
  obtain ⟨out, hout, ht⟩ := (hfill.tidy emptyMemory_isEmpty hfits).toGenesis_eq
  have hl := ht.hasLatest hfill emptyMemory_isEmpty hfits
  refine ⟨d, out, hd, hout, fun hall => ?_⟩
  exact absurd (hl.hasAll_iff.1 hall).votes (by decide)

end Sample

end DaoGovernance
