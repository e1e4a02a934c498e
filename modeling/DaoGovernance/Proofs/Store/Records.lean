import DaoGovernance.Proofs.Store.View
import DaoGovernance.Store.Records
import Mathlib

/-!
Typed reads and writes of records as reads and changes of the view.
-/

namespace DaoGovernance.Store

variable {s s' : Store}

def View.proposal (v : View) (id : UInt64) : Option Proposal :=
  (v.proposals id).bind fun d => (Proposal.decode d).toOption

theorem View.proposal_eq_some {v : View} {id : UInt64} {p : Proposal} :
    v.proposal id = some p ↔ ∃ d, v.proposals id = some d ∧ Proposal.decode d = .ok p := by
  simp only [View.proposal, Option.bind_eq_some_iff]
  refine exists_congr fun d => and_congr_right fun _ => ?_
  cases Proposal.decode d <;> simp [Except.toOption]

theorem View.fits_of_proposal {v : View} {id : UInt64} {p : Proposal} (h : v.proposal id = some p) :
    p.Fits := by
  obtain ⟨d, -, hd⟩ := View.proposal_eq_some.1 h
  exact Proposal.fits_of_decode hd

/-! ### Reads -/

theorem stored_eq_ok {α : Type} {r : Except StoreError α} {a : α} : stored r = .ok a ↔ r = .ok a := by
  cases r <;> simp [stored]

theorem params_congr (h : s'.view.params = s.view.params) : s'.params = s.params := by
  simp only [params, params?, getParams_eq, h]

theorem params_eq {p : Params} (hp : p.Fits) (h : s.view.params = some p.encode) :
    s.params = .ok p := by
  simp only [params, params?, getParams_eq, h, decodeSome, Params.decode_encode hp]

theorem proposal_eq_ok {id : UInt64} {p : Proposal} :
    s.proposal id = .ok p ↔ s.view.proposal id = some p := by
  simp only [proposal, proposal?, getProposal_eq, View.proposal]
  cases h : s.view.proposals id with
  | none => simp [decodeSome]
  | some d => cases hd : Proposal.decode d <;> simp [decodeSome, hd, Except.toOption]

theorem vote?_eq_none {id : UInt64} {a : Address} :
    s.vote? id a = .ok none ↔ s.view.votes (id, a) = none := by
  simp only [vote?, getVote_eq]
  cases h : s.view.votes (id, a) with
  | none => simp [decodeSome]
  | some d => cases hd : Vote.decode d <;> simp [decodeSome, hd]

theorem vote?_eq_some {id : UInt64} {a : Address} {v : Vote} :
    s.vote? id a = .ok (some v) ↔ ∃ d, s.view.votes (id, a) = some d ∧ Vote.decode d = .ok v := by
  simp only [vote?, getVote_eq]
  cases s.view.votes (id, a) with
  | none => simp [decodeSome]
  | some d => cases hd : Vote.decode d <;> simp [decodeSome, hd]

theorem proposalRecords_eq (h : s.ProposalsKeyed) :
    ∃ rs, s.proposalRecords = .ok rs ∧ Ascending Prod.fst rs ∧
      ∀ id p, (id, .ok p) ∈ rs ↔ s.view.proposal id = some p := by
  obtain ⟨es, he, hasc, hm⟩ := allProposals_eq h
  refine ⟨es.map proposalRecord, ?_, ?_, ?_⟩
  · simp only [proposalRecords, he]
  · exact hasc.map fun _ _ _ _ h => h
  · intro id p
    simp only [List.mem_map, proposalRecord, Prod.exists, Prod.mk.injEq, hm, View.proposal_eq_some]
    constructor
    · rintro ⟨_, d, hd, rfl, hp⟩
      exact ⟨d, hd, hp⟩
    · rintro ⟨d, hd, hp⟩
      exact ⟨id, d, hd, rfl, hp⟩

theorem decodeAll_keyed {α κ : Type} {decode : Bytes → Except DecodeError α}
    {es : List (κ × Bytes)} (h : ∀ k d, (k, d) ∈ es → ∃ a, decode d = .ok a) :
    ∃ as : List (κ × α), decodeAll decode (es.map Prod.snd) = .ok (as.map Prod.snd) ∧
      as.map Prod.fst = es.map Prod.fst ∧
      ∀ k a, (k, a) ∈ as ↔ ∃ d, (k, d) ∈ es ∧ decode d = .ok a := by
  induction es with
  | nil => exact ⟨[], rfl, rfl, by simp⟩
  | cons e es ih =>
    obtain ⟨k, d⟩ := e
    obtain ⟨a, ha⟩ := h k d (by simp)
    obtain ⟨as, has, hks, hm⟩ := ih fun k d he => h k d (by simp [he])
    refine ⟨(k, a) :: as, ?_, by simp [hks], fun k' a' => ?_⟩
    · simp only [List.map_cons, decodeAll, ha, has]
    · rw [List.mem_cons, hm]
      constructor
      · rintro (he | ⟨d', hd', ha'⟩)
        · cases he
          exact ⟨d, by simp, ha⟩
        · exact ⟨d', by simp [hd'], ha'⟩
      · rintro ⟨d', hd', ha'⟩
        rcases List.mem_cons.1 hd' with he | hd'
        · cases he
          rw [ha] at ha'
          cases ha'
          exact .inl rfl
        · exact .inr ⟨d', hd', ha'⟩

theorem decodeAll_eq {α β κ : Type} (decode : Bytes → Except DecodeError α) (key : α → κ)
    (name : β → κ) (bytes : β → Bytes) {es : List β}
    (h : ∀ e ∈ es, ∃ a, decode (bytes e) = .ok a ∧ key a = name e) :
    ∃ as, decodeAll decode (es.map bytes) = .ok as ∧ as.map key = es.map name ∧
      ∀ a, a ∈ as ↔ ∃ e ∈ es, decode (bytes e) = .ok a := by
  have hpairs : ∀ k d, (k, d) ∈ es.map (fun e => (name e, bytes e)) →
      ∃ a, decode d = .ok a ∧ key a = k := by
    intro k d hkd
    obtain ⟨e, he, heq⟩ := List.mem_map.1 hkd
    cases heq
    exact h e he
  obtain ⟨as, has, hks, hm⟩ := decodeAll_keyed fun k d hkd => (hpairs k d hkd).imp fun _ ha => ha.1
  have hkeys : as.map (fun x => key x.2) = as.map Prod.fst := by
    refine List.map_congr_left fun x hx => ?_
    obtain ⟨d, hd, hx⟩ := (hm x.1 x.2).1 hx
    obtain ⟨a, ha, hk⟩ := hpairs x.1 d hd
    rw [ha] at hx
    cases hx
    exact hk
  rw [List.map_map] at has hks
  refine ⟨as.map Prod.snd, has, ?_, fun a => ?_⟩
  · rw [List.map_map]
    exact hkeys.trans hks
  · simp [hm]

theorem proposals_eq (h : s.Sound) (howned : ∀ id p, s.view.proposal id = some p → p.id = id)
    (hr : ∀ id d, s.view.proposals id = some d → ∃ p, Proposal.decode d = .ok p) :
    ∃ ps, s.proposals = .ok ps ∧ (ps.map (·.id)).Nodup ∧
      ∀ p, p ∈ ps ↔ s.view.proposal p.id = some p := by
  obtain ⟨es, he, hasc, hm⟩ := allProposals_eq h.proposalsKeyed
  obtain ⟨ps, hps, hk, hmem⟩ := decodeAll_eq Proposal.decode (·.id) Prod.fst Prod.snd
    fun (e : UInt64 × Bytes) (hes : e ∈ es) => by
      have hd := (hm e.1 e.2).1 hes
      obtain ⟨p, hp⟩ := hr e.1 e.2 hd
      exact ⟨p, hp, howned e.1 p (View.proposal_eq_some.2 ⟨e.2, hd, hp⟩)⟩
  refine ⟨ps, by simp only [proposals, he, hps], hk ▸ hasc.nodup_keys, fun p => ?_⟩
  rw [hmem, View.proposal_eq_some]
  constructor
  · rintro ⟨⟨id, d⟩, hes, hp⟩
    have hd := (hm id d).1 hes
    obtain rfl := howned id p (View.proposal_eq_some.2 ⟨d, hd, hp⟩)
    exact ⟨d, hd, hp⟩
  · rintro ⟨d, hd, hp⟩
    exact ⟨(p.id, d), (hm _ _).2 hd, hp⟩

theorem votes_eq (h : s.Sound) (id : UInt64)
    (hr : ∀ a d, s.view.votes (id, a) = some d → ∃ v, Vote.decode d = .ok v ∧ v.voter = a) :
    (∃ e, s.votes id = .error e) ∨
    ∃ vs, s.votes id = .ok vs ∧ (vs.map (·.voter)).Nodup ∧
      ∀ v, v ∈ vs ↔ ∃ d, s.view.votes (id, v.voter) = some d ∧ Vote.decode d = .ok v := by
  rcases votesOn_eq h.votesKeyed id with ⟨-, e, he⟩ | ⟨-, es, he, hasc, hm⟩
  · exact .inl ⟨.store e, by simp only [votes, he]⟩
  · obtain ⟨vs, hvs, hk, hmem⟩ := decodeAll_eq Vote.decode (·.voter) Prod.fst Prod.snd
      fun (e : Address × Bytes) (hes : e ∈ es) => hr e.1 e.2 ((hm e.1 e.2).1 hes)
    refine .inr ⟨vs, by simp only [votes, he, hvs], hk ▸ hasc.nodup_keys, fun v => ?_⟩
    rw [hmem]
    constructor
    · rintro ⟨⟨a, d⟩, hes, hv⟩
      have hd := (hm a d).1 hes
      obtain ⟨w, hw, rfl⟩ := hr a d hd
      rw [hv] at hw
      cases hw
      exact ⟨d, hd, hv⟩
    · rintro ⟨d, hd, hv⟩
      exact ⟨(v.voter, d), (hm _ _).2 hd, hv⟩

/-! ### Writes -/

namespace View

variable {v w : View} {p q : Proposal} {id : UInt64}

def put (v : View) (p : Proposal) : View :=
  { v with proposals := Function.update v.proposals p.id (some p.encode) }

theorem proposal_congr (h : w.proposals id = v.proposals id) : w.proposal id = v.proposal id := by
  rw [proposal, h, proposal]

theorem put_put (h : q.id = p.id) : (v.put p).put q = v.put q := by simp [View.put, h]

theorem proposals_put_self : (v.put p).proposals p.id = some p.encode := by simp [View.put]

theorem proposals_put_of_ne (h : id ≠ p.id) : (v.put p).proposals id = v.proposals id := by
  simp [View.put, h]

theorem proposal_put_self (h : p.Fits) : (v.put p).proposal p.id = some p :=
  proposal_eq_some.2 ⟨_, proposals_put_self, Proposal.decode_encode h⟩

theorem proposal_put_of_ne (h : id ≠ p.id) : (v.put p).proposal id = v.proposal id :=
  proposal_congr (proposals_put_of_ne h)

def Owned (v : View) : Prop := ∀ id p, v.proposal id = some p → p.id = id

theorem Owned.congr (h : v.Owned) (hv : w.proposals = v.proposals) : w.Owned := by
  intro id p hp
  rw [proposal_congr (congrFun hv id)] at hp
  exact h id p hp

theorem Owned.put (h : v.Owned) (p : Proposal) : (v.put p).Owned := by
  intro id q hq
  by_cases hid : id = p.id
  · subst hid
    obtain ⟨d, hd, hdec⟩ := proposal_eq_some.1 hq
    rw [proposals_put_self] at hd
    cases hd
    exact Proposal.id_of_decode_encode hdec
  · rw [proposal_put_of_ne hid] at hq
    exact h id q hq

end View

theorem setProposal_eq (s : Store) (p : Proposal) :
    (s.view.failProposals = true ∧ ∃ e, s.setProposal p = .error e) ∨
    (s.view.failProposals = false ∧ ∃ s', s.setProposal p = .ok s' ∧ (s.Sound → s'.Sound) ∧
      s'.view = s.view.put p) := by
  rcases putProposal_eq s p.id p.encode with ⟨hf, e, he⟩ | ⟨hf, s', hs, hv⟩
  · exact .inl ⟨hf, .store e, by rw [setProposal, he, stored]⟩
  · exact .inr ⟨hf, s', by rw [setProposal, hs, stored], hv⟩

theorem setLot_eq (s : Store) (l : Lot) :
    (s.view.failLots = true ∧ ∃ e, s.setLot l = .error e) ∨
    (s.view.failLots = false ∧ ∃ s', s.setLot l = .ok s' ∧ (s.Sound → s'.Sound) ∧
      s'.view = s.view) := by
  rcases putLot_eq s l.voter l.proposal l.encode with ⟨hf, e, he⟩ | ⟨hf, s', hs, hv⟩
  · exact .inl ⟨hf, .store e, by rw [setLot, he, stored]⟩
  · exact .inr ⟨hf, s', by rw [setLot, hs, stored], hv⟩

end DaoGovernance.Store
