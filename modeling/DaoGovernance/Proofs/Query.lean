import DaoGovernance.Proofs.Genesis.Loading
import DaoGovernance.Query
import Mathlib

/-!
Answers a page at a time.  Whoever asks for page after page gets all that a question selects, each
record once and in the order of the keys, whatever the limit; and no page is refused.
-/

namespace DaoGovernance

/-! ### Pages -/

theorem PageRequest.length_eq (r : PageRequest) :
    r.length = if r.limit = 0 then 100 else r.limit.toNat := by
  unfold length
  split <;> rfl

theorem pageSize_pos (limit : UInt64) : 0 < if limit = 0 then 100 else limit.toNat := by
  split
  · decide
  · rename_i h
    exact Nat.pos_of_ne_zero fun hz => h (UInt64.toNat_inj.1 hz)

section Pages

variable {α : Type}

/-- The pages from an offset on, up to the first that is empty; the limit zero stands for a hundred.
Past the last word no page can be asked for. -/
def pagesFrom (ask : PageRequest → Except GovernanceError (Page α)) (limit : UInt64)
    (offset : Nat) : Except GovernanceError (List (Page α)) :=
  if offset < UInt64.size then
    match ask ⟨.ofNat offset, limit⟩ with
    | .error e => .error e
    | .ok p =>
      if p.items.isEmpty then .ok [p]
      else
        match pagesFrom ask limit (offset + if limit = 0 then 100 else limit.toNat) with
        | .error e => .error e
        | .ok ps => .ok (p :: ps)
  else .ok []
termination_by UInt64.size - offset
decreasing_by
  have := pageSize_pos limit
  rw [dite_eq_ite]
  omega

/-- Every page is answered with its part of the list and the size of the whole, and the pages of any
limit, one after the other, are the list. -/
structure Covers (ask : PageRequest → Except GovernanceError (Page α)) (as : List α) : Prop where
  answers : ∀ r, ask r = .ok
    ⟨(as.drop r.offset.toNat).take (if r.limit = 0 then 100 else r.limit.toNat), as.length⟩
  pages : ∀ limit, ∃ ps, pagesFrom ask limit 0 = .ok ps ∧ ps.flatMap Page.items = as ∧
    (∀ p ∈ ps, p.total = as.length) ∧ (as.length < 2 ^ 63 → ∃ p ∈ ps.getLast?, p.items = [])

variable {as : List α} {limit : UInt64} {offset : Nat}

theorem items_ofList (as : List α) (limit : UInt64) (h : offset < UInt64.size) :
    (Page.ofList as ⟨.ofNat offset, limit⟩).items =
      (as.drop offset).take (if limit = 0 then 100 else limit.toNat) := by
  rw [Page.ofList, PageRequest.length_eq, UInt64.toNat_ofNat_of_lt' h]

theorem pagesFrom_ofList (limit : UInt64) (offset : Nat) (h : as.length ≤ UInt64.size) :
    ∃ ps, pagesFrom (fun r => .ok (.ofList as r)) limit offset = .ok ps ∧
      ps.flatMap Page.items = as.drop offset ∧ ∀ p ∈ ps, p.total = as.length := by
  fun_induction pagesFrom (fun r => .ok (.ofList as r)) limit offset with
  | case1 _ _ e he => cases he
  | case2 o ho p hp hempty =>
    cases hp
    have hnil := List.isEmpty_iff.1 hempty
    refine ⟨_, rfl, ?_, by simp [Page.ofList]⟩
    rw [List.flatMap_singleton, hnil]
    rw [items_ofList as limit ho, List.take_eq_nil_iff] at hnil
    exact (hnil.resolve_left (pageSize_pos limit).ne').symm
  | case3 o ho p hp hne e he ih =>
    obtain ⟨ps, hps, -⟩ := ih
    rw [he] at hps
    cases hps
  | case4 o ho p hp hne qs hqs ih =>
    obtain ⟨ps, hps, hitems, htotal⟩ := ih
    rw [hqs] at hps
    cases hps
    cases hp
    refine ⟨_, rfl, ?_, List.forall_mem_cons.2 ⟨rfl, htotal⟩⟩
    rw [List.flatMap_cons, hitems, items_ofList as limit ho, dite_eq_ite, ← List.drop_drop,
      List.take_append_drop]
  | case5 o ho =>
    exact ⟨[], rfl, (List.drop_eq_nil_of_le (h.trans (not_lt.1 ho))).symm, by simp⟩

theorem pagesFrom_ends {ps : List (Page α)} (h : as.length < 2 ^ 63) (ho : offset < UInt64.size)
    (hstep : offset = 0 ∨ (if limit = 0 then 100 else limit.toNat) ≤ offset)
    (hps : pagesFrom (fun r => .ok (.ofList as r)) limit offset = .ok ps) :
    ∃ p ∈ ps.getLast?, p.items = [] := by
  fun_induction pagesFrom (fun r => .ok (.ofList as r)) limit offset generalizing ps with
  | case1 _ _ e he => cases he
  | case2 o _ p hp hempty =>
    cases hps
    exact ⟨p, rfl, List.isEmpty_iff.1 hempty⟩
  | case3 => cases hps
  | case4 o _ p hp hne qs hqs ih =>
    cases hp
    cases hps
    have hlt : o < as.length := by
      by_contra hle
      apply hne
      rw [items_ofList as limit ho, List.drop_eq_nil_of_le (not_lt.1 hle), List.take_nil]
      rfl
    have hnext : (o + if limit = 0 then 100 else limit.toNat) < UInt64.size := by
      have hlength : (if limit = 0 then 100 else limit.toNat) < UInt64.size := by
        split
        · decide
        · exact limit.toNat_lt
      rw [UInt64.size] at *
      omega
    obtain ⟨p, hp, hnil⟩ := ih hnext (.inr (Nat.le_add_left _ _)) hqs
    exact ⟨p, by rw [List.getLast?_cons, Option.mem_def.1 hp]; rfl, hnil⟩
  | case5 o hno => exact absurd ho hno

theorem Covers.eq_of_first {ask : PageRequest → Except GovernanceError (Page α)} {bs : List α}
    (h : Covers ask as) (hb : ask ⟨0, limit⟩ = .ok ⟨bs, bs.length⟩) : as = bs := by
  rw [h.answers] at hb
  injection hb with hb
  injection hb with hitems hlength
  rw [← hitems, List.length_take, List.length_drop] at hlength
  rw [← hitems, List.take_of_length_le]
  · rfl
  · rw [List.length_drop]
    exact (Nat.le_of_eq hlength).trans (Nat.min_le_left _ _)

theorem covers_ofList (h : as.length ≤ UInt64.size) :
    Covers (fun r => .ok (.ofList as r)) as where
  answers r := by rw [Page.ofList, r.length_eq]
  pages limit := by
    obtain ⟨ps, hps, hitems, htotal⟩ := pagesFrom_ofList limit 0 h
    exact ⟨ps, hps, hitems, htotal, fun hlt => pagesFrom_ends hlt (by decide) (.inl rfl) hps⟩

end Pages

/-! ### Filters -/

namespace ProposalFilter

structure Selects (f : ProposalFilter) (p : Proposal) : Prop where
  proposer : f.proposer ≠ "" → Address.parse f.proposer = .ok p.proposer
  status : f.status ≠ .unspecified → p.status = f.status

variable {f : ProposalFilter} {p : Proposal}

theorem accepts_iff : f.accepts p = true ↔ f.Selects p := by
  have hproposer : f.proposer = p.proposer.text ↔ Address.parse f.proposer = .ok p.proposer :=
    ⟨fun h => h ▸ p.proposer.parse_text, fun h => (Address.text_of_parse h).symm⟩
  rw [accepts, Bool.and_eq_true, Bool.or_eq_true, Bool.or_eq_true, String.isEmpty_iff,
    decide_eq_true_eq, decide_eq_true_eq, decide_eq_true_eq, hproposer]
  constructor
  · rintro ⟨hp, hs⟩
    exact ⟨hp.resolve_left, fun h => (hs.resolve_left h).symm⟩
  · intro h
    exact ⟨or_iff_not_imp_left.2 h.proposer, or_iff_not_imp_left.2 fun hs => (h.status hs).symm⟩

theorem not_selects (hne : f.proposer ≠ "") (hv : Address.isValid f.proposer = false) :
    ¬ f.Selects p := by
  intro h
  have hp := h.proposer hne
  rw [Address.parse, dif_neg (by simp [hv])] at hp
  cases hp

end ProposalFilter

/-! ### Records -/

namespace Store

variable {s : Store}

theorem length_le_of_ids {α : Type} {es : List (UInt64 × α)} (h : Ascending Prod.fst es) :
    es.length ≤ UInt64.size := by
  have hn : ((es.map Prod.fst).map UInt64.toFin).Nodup :=
    h.nodup_keys.map fun _ _ => UInt64.toFin_inj.1
  have hle := hn.length_le_card
  rwa [List.length_map, List.length_map, Fintype.card_fin] at hle

structure ProposalsRead (s : Store) : Prop where
  keyed : s.ProposalsKeyed
  decodes : ∀ id d, s.getProposal id = some d → ∃ p, Proposal.decode d = .ok p

structure VotesRead (s : Store) (id : UInt64) : Prop where
  keyed : s.VotesKeyed
  scanned : s.view.failScan id = false
  decodes : ∀ a d, s.getVote id a = some d → ∃ v, Vote.decode d = .ok v
  /-- A list in memory has no more members than there are offsets. -/
  countable : ∀ es, s.votesOn id = .ok es → es.length ≤ UInt64.size

theorem ProposalsRead.covers (h : s.ProposalsRead) (f : ProposalFilter) :
    ∃ es : List (UInt64 × Proposal), Ascending Prod.fst es ∧
      (∀ id p, (id, p) ∈ es ↔ s.proposal id = .ok p ∧ f.Selects p) ∧
      Covers (fun r => s.proposalPage f r) (es.map Prod.snd) := by
  obtain ⟨es, hes, hasc, hm⟩ := allProposals_eq h.keyed
  have hdecodes (id d) (he : (id, d) ∈ es) : ∃ p, Proposal.decode d = .ok p :=
    h.decodes id d ((getProposal_eq s id).trans ((hm id d).1 he))
  obtain ⟨ps, hps, hks, hmem⟩ := decodeAll_keyed hdecodes
  have hread : s.proposals = .ok (ps.map Prod.snd) := by simp only [proposals, hes, hps]
  have hps : Ascending Prod.fst (ps.filter fun e => f.accepts e.2) :=
    (Ascending.keys_iff.1 (hks ▸ Ascending.keys_iff.2 hasc)).sublist List.filter_sublist
  refine ⟨ps.filter fun e => f.accepts e.2, hps, fun id p => ?_, ?_⟩
  · rw [List.mem_filter, hmem, ProposalFilter.accepts_iff, proposal_eq_ok, View.proposal_eq_some]
    simp only [hm]
  · have hpage : (fun r => s.proposalPage f r) =
        fun r => .ok (.ofList ((ps.filter fun e => f.accepts e.2).map Prod.snd) r) := by
      funext r
      simp only [proposalPage, hread, List.filter_map]
      rfl
    rw [hpage]
    exact covers_ofList (by rw [List.length_map]; exact length_le_of_ids hps)

theorem VotesRead.covers {id : UInt64} (h : s.VotesRead id) :
    ∃ es : List (Address × Vote), Ascending Prod.fst es ∧
      (∀ a v, (a, v) ∈ es ↔ s.vote? id a = .ok (some v)) ∧
      Covers (fun r => s.votePage id r) (es.map Prod.snd) := by
  rcases votesOn_eq h.keyed id with ⟨hon, -⟩ | ⟨-, es, hes, hasc, hm⟩
  · rw [h.scanned] at hon
    cases hon
  · have hdecodes (a d) (he : (a, d) ∈ es) : ∃ v, Vote.decode d = .ok v :=
      h.decodes a d ((getVote_eq s id a).trans ((hm a d).1 he))
    obtain ⟨vs, hvs, hks, hmem⟩ := decodeAll_keyed hdecodes
    have hread : s.votes id = .ok (vs.map Prod.snd) := by simp only [votes, hes, hvs]
    refine ⟨vs, Ascending.keys_iff.1 (hks ▸ Ascending.keys_iff.2 hasc), fun a v => ?_, ?_⟩
    · rw [hmem, vote?_eq_some]
      simp only [hm]
    · have hpage : (fun r => s.votePage id r) = fun r => .ok (.ofList (vs.map Prod.snd) r) := by
        funext r
        simp only [votePage, hread]
      have hlength := congrArg List.length hks
      rw [List.length_map, List.length_map] at hlength
      rw [hpage]
      exact covers_ofList (by rw [List.length_map, hlength]; exact h.countable es hes)

/-- Page after page, whoever asks for proposals gets those that the filter selects, in the order of
their ids, and whoever asks for the votes on a proposal gets them all, in the order of their
voters. -/
theorem pages_cover (s : Store) (f : ProposalFilter) (id : UInt64) :
    (s.ProposalsRead → ∃ es : List (UInt64 × Proposal), Ascending Prod.fst es ∧
      (∀ i p, (i, p) ∈ es ↔ s.proposal i = .ok p ∧ f.Selects p) ∧
      Covers (fun r => s.proposalPage f r) (es.map Prod.snd) ∧
      (f.proposer ≠ "" → Address.isValid f.proposer = false → es = [])) ∧
    (s.VotesRead id → ∃ es : List (Address × Vote), Ascending Prod.fst es ∧
      (∀ a v, (a, v) ∈ es ↔ s.vote? id a = .ok (some v)) ∧
      Covers (fun r => s.votePage id r) (es.map Prod.snd)) := by
  refine ⟨fun h => ?_, fun h => h.covers⟩
  obtain ⟨es, hasc, hm, hcovers⟩ := h.covers f
  refine ⟨es, hasc, hm, hcovers, fun hne hv => ?_⟩
  rw [List.eq_nil_iff_forall_not_mem]
  exact fun e he => ProposalFilter.not_selects hne hv ((hm e.1 e.2).1 he).2

end Store

namespace Sample

def numbered (id : UInt64) : Proposal := { opened with id := id }

def rejected : Proposal := { opened with id := 2, status := .rejected }

def firstVoter : Address := ⟨"dns1aaaaaaaa", by decide⟩

def lastVoter : Address := ⟨"dns1zzzzzzzzzz", by decide⟩

def polls : MemoryStore := { MemoryStore.empty with
  proposals := (((SortedMap.empty.insert 3 (numbered 3).encode).insert 2 rejected.encode).insert 1
    (numbered 1).encode).insert 0 opened.encode
  votes := ((SortedMap.empty.insert (0, lastVoter) (Vote.mk 0 lastVoter .no 3).encode).insert
    (0, firstVoter) (Vote.mk 0 firstVoter .abstain 1).encode).insert
    (0, proposer) (Vote.mk 0 proposer .yes 2).encode
  nextId := 4 }

theorem opened_fits : opened.Fits := ⟨by decide, by decide, by decide, by decide⟩

theorem numbered_fits (id : UInt64) : (numbered id).Fits := opened_fits

theorem rejected_fits : rejected.Fits := opened_fits

theorem polls_proposalsRead : (Store.memory polls).ProposalsRead where
  keyed := trivial
  decodes id d h := by
    change polls.proposals.get? id = some d at h
    simp only [polls, SortedMap.get?_insert] at h
    split_ifs at h <;> cases h
    · exact ⟨_, Proposal.decode_encode (numbered_fits 0)⟩
    · exact ⟨_, Proposal.decode_encode (numbered_fits 1)⟩
    · exact ⟨_, Proposal.decode_encode rejected_fits⟩
    · exact ⟨_, Proposal.decode_encode (numbered_fits 3)⟩

theorem polls_votesRead : (Store.memory polls).VotesRead 0 where
  keyed := trivial
  scanned := rfl
  decodes a d h := by
    change polls.votes.get? (0, a) = some d at h
    simp only [polls, SortedMap.get?_insert] at h
    split_ifs at h <;> cases h <;> exact ⟨_, Vote.decode_encode _⟩
  countable es h := by
    cases h
    decide

theorem polls_proposals : (Store.memory polls).proposals =
    .ok [opened, numbered 1, rejected, numbered 3] := by
  have h : polls.proposals.entries = [(0, opened.encode), (1, (numbered 1).encode),
      (2, rejected.encode), (3, (numbered 3).encode)] := by
    simp only [polls]
    rfl
  simp only [Store.proposals, Store.allProposals, h, List.map_cons, List.map_nil, Store.decodeAll,
    Proposal.decode_encode opened_fits, Proposal.decode_encode (numbered_fits _),
    Proposal.decode_encode rejected_fits]

theorem polls_votes : (Store.memory polls).votes 0 =
    .ok [⟨0, firstVoter, .abstain, 1⟩, ⟨0, proposer, .yes, 2⟩, ⟨0, lastVoter, .no, 3⟩] := by
  have h : (Store.memory polls).votesOn 0 =
      .ok [(firstVoter, (Vote.mk 0 firstVoter .abstain 1).encode),
        (proposer, (Vote.mk 0 proposer .yes 2).encode),
        (lastVoter, (Vote.mk 0 lastVoter .no 3).encode)] := by
    simp only [polls]
    rfl
  simp only [Store.votes, h, List.map_cons, List.map_nil, Store.decodeAll, Vote.decode_encode]

/-- The open ones come in two pages and an empty one, the votes one by one or all at once, and a
name that is no address has nothing. -/
theorem polls_pages_cover :
    (Store.memory polls).ProposalsRead ∧ (Store.memory polls).VotesRead 0 ∧
    pagesFrom (fun r => (Store.memory polls).proposalPage ⟨"", .votingPeriod⟩ r) 2 0 =
      .ok [⟨[opened, numbered 1], 3⟩, ⟨[numbered 3], 3⟩, ⟨[], 3⟩] ∧
    pagesFrom (fun r => (Store.memory polls).votePage 0 r) 1 0 =
      .ok [⟨[⟨0, firstVoter, .abstain, 1⟩], 3⟩, ⟨[⟨0, proposer, .yes, 2⟩], 3⟩,
        ⟨[⟨0, lastVoter, .no, 3⟩], 3⟩, ⟨[], 3⟩] ∧
    pagesFrom (fun r => (Store.memory polls).votePage 0 r) 0 0 =
      .ok [⟨[⟨0, firstVoter, .abstain, 1⟩, ⟨0, proposer, .yes, 2⟩, ⟨0, lastVoter, .no, 3⟩], 3⟩,
        ⟨[], 3⟩] ∧
    Covers (fun r => (Store.memory polls).proposalPage ⟨"nobody", .unspecified⟩ r) [] := by
  obtain ⟨hopen, hvotes⟩ := (Store.memory polls).pages_cover ⟨"", .votingPeriod⟩ 0
  obtain ⟨es, -, -, hes, -⟩ := hopen polls_proposalsRead
  obtain ⟨vs, -, -, hvs⟩ := hvotes polls_votesRead
  obtain ⟨none, -, -, hnone, hempty⟩ :=
    ((Store.memory polls).pages_cover ⟨"nobody", .unspecified⟩ 0).1 polls_proposalsRead
  have hfirst : (Store.memory polls).proposalPage ⟨"", .votingPeriod⟩ ⟨0, 0⟩ =
      .ok ⟨[opened, numbered 1, numbered 3], 3⟩ := by
    simp only [Store.proposalPage, polls_proposals]
    rfl
  have hfirst' : (Store.memory polls).votePage 0 ⟨0, 0⟩ = .ok
      ⟨[⟨0, firstVoter, .abstain, 1⟩, ⟨0, proposer, .yes, 2⟩, ⟨0, lastVoter, .no, 3⟩], 3⟩ := by
    simp only [Store.votePage, polls_votes]
    rfl
  rw [hes.eq_of_first hfirst] at hes
  rw [hvs.eq_of_first hfirst'] at hvs
  refine ⟨polls_proposalsRead, polls_votesRead, ?_, ?_, ?_, ?_⟩
  · simp [pagesFrom, hes.answers, UInt64.size]
  · simp [pagesFrom, hvs.answers, UInt64.size]
  · simp [pagesFrom, hvs.answers, UInt64.size]
  · rwa [hempty (by decide) (by decide)] at hnone

end Sample

end DaoGovernance
