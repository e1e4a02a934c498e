import DaoGovernance.Genesis.Basic
import DaoGovernance.Proofs.Latest
import DaoGovernance.Proofs.Store.Contents
import DaoGovernance.Proofs.Store.Records
import Mathlib

/-!
Stores all of whose records can be read, each under the key that its own fields name.  What is taken
from such a store lists each record once.
-/

namespace DaoGovernance

abbrev Vote.key (v : Vote) : UInt64 × Address := (v.proposal, v.voter)

abbrev Lot.key (l : Lot) : Address × UInt64 := (l.voter, l.proposal)

/-! ### Records and lists of them -/

section Records

variable {α β κ : Type} {key : α → κ} {encode : α → Bytes} {P : α → Prop}
  {f : κ → Option Bytes} {as bs : List α}

def RecordsOf (key : α → κ) (encode : α → Bytes) (P : α → Prop) (f : κ → Option Bytes) : Prop :=
  ∀ k b, f k = some b → ∃ a, key a = k ∧ P a ∧ encode a = b

structure Lists (key : α → κ) (encode : α → Bytes) (P : α → Prop) (f : κ → Option Bytes)
    (as : List α) : Prop where
  nodup : (as.map key).Nodup
  mem : ∀ a, a ∈ as ↔ P a ∧ f (key a) = some (encode a)

theorem RecordsOf.empty : RecordsOf key encode P fun _ => none := nofun

theorem RecordsOf.mono {Q : α → Prop} (h : RecordsOf key encode P f) (hPQ : ∀ a, P a → Q a) :
    RecordsOf key encode Q f := by
  intro k b hb
  obtain ⟨a, hk, ha, he⟩ := h k b hb
  exact ⟨a, hk, hPQ a ha, he⟩

theorem RecordsOf.update [DecidableEq κ] (h : RecordsOf key encode P f) {a : α} (ha : P a) :
    RecordsOf key encode P (Function.update f (key a) (some (encode a))) := by
  intro k b hb
  rw [Function.update_apply] at hb
  split at hb
  · rename_i hk
    cases hb
    exact ⟨a, hk.symm, ha, rfl⟩
  · exact h k b hb

theorem RecordsOf.overwrite [DecidableEq κ] (h : RecordsOf key encode P f)
    (has : ∀ a ∈ as, P a) : RecordsOf key encode P (overwrite key encode f as) := by
  induction as generalizing f with
  | nil => exact h
  | cons a as ih =>
    obtain ⟨ha, has⟩ := List.forall_mem_cons.1 has
    exact ih (h.update ha) has

theorem RecordsOf.lists (h : RecordsOf key encode P f)
    {decode : Bytes → Except DecodeError α} (hdec : ∀ a, P a → decode (encode a) = .ok a)
    (es : List β) (name : β → κ) (bytes : β → Bytes) (hn : (es.map name).Nodup)
    (hm : ∀ k b, f k = some b ↔ ∃ e ∈ es, name e = k ∧ bytes e = b) :
    ∃ as, Store.decodeAll decode (es.map bytes) = .ok as ∧ Lists key encode P f as := by
  have recorded : ∀ e ∈ es, ∃ a, key a = name e ∧ P a ∧ encode a = bytes e :=
    fun e he => h _ _ ((hm _ _).2 ⟨e, he, rfl, rfl⟩)
  obtain ⟨as, has, hk, hmem⟩ := Store.decodeAll_eq decode key name bytes fun e he => by
    obtain ⟨a, hk, hP, hb⟩ := recorded e he
    exact ⟨a, hb ▸ hdec a hP, hk⟩
  refine ⟨as, has, hk ▸ hn, fun a => ?_⟩
  rw [hmem, hm]
  constructor
  · rintro ⟨e, he, hd⟩
    obtain ⟨a', hk, hP, hb⟩ := recorded e he
    rw [← hb, hdec a' hP] at hd
    cases hd
    exact ⟨hP, e, he, hk.symm, hb.symm⟩
  · rintro ⟨hP, e, he, -, hb⟩
    exact ⟨e, he, hb ▸ hdec a hP⟩

variable [DecidableEq κ]

theorem Lists.overwrite_eq (h : Lists key encode P f as) (hf : RecordsOf key encode P f) :
    overwrite key encode (fun _ => none) as = f := by
  funext k
  apply Option.ext
  intro b
  rw [overwrite_eq_some, latest_eq_self h.nodup]
  constructor
  · rintro (⟨a, ha, rfl, rfl⟩ | ⟨-, hb⟩)
    · exact ((h.mem a).1 ha).2
    · cases hb
  · intro hb
    obtain ⟨a, rfl, hP, rfl⟩ := hf k b hb
    exact .inl ⟨a, (h.mem a).2 ⟨hP, hb⟩, rfl, rfl⟩

theorem Lists.perm_latest (h : Lists key encode P (overwrite key encode (fun _ => none) bs) as)
    {decode : Bytes → Except DecodeError α}
    (hdec : ∀ a, P a → decode (encode a) = .ok a) (hbs : ∀ b ∈ bs, P b) :
    as.Perm (latest key bs) := by
  have hn : as.Nodup := .of_map key h.nodup
  have hn' : (latest key bs).Nodup := .of_map key (nodup_map_latest key bs)
  rw [List.perm_ext_iff_of_nodup hn hn']
  intro a
  rw [h.mem, overwrite_eq_some]
  constructor
  · rintro ⟨hP, ⟨b, hb, -, he⟩ | ⟨-, hb⟩⟩
    · have hd := hdec b (hbs b ((latest_sublist key bs).subset hb))
      rw [he, hdec a hP] at hd
      cases hd
      exact hb
    · cases hb
  · intro ha
    exact ⟨hbs a ((latest_sublist key bs).subset ha), .inl ⟨a, ha, rfl, rfl⟩⟩

end Records

/-! ### Readable stores -/

structure Store.View.Tidy (v : View) (lots : Address × UInt64 → Option Bytes) : Prop where
  params : ∃ p : Params, v.params = some p.encode ∧ p.Fits ∧ p.validate = .ok ()
  proposals : RecordsOf Proposal.id Proposal.encode Proposal.Fits v.proposals
  votes : RecordsOf Vote.key Vote.encode (fun _ => True) v.votes
  lots : RecordsOf Lot.key Lot.encode (fun _ => True) lots

theorem Store.View.Tidy.owned {v : View} {l : Address × UInt64 → Option Bytes} (h : v.Tidy l) :
    v.Owned := by
  intro id p hp
  obtain ⟨b, hb, hdec⟩ := View.proposal_eq_some.1 hp
  obtain ⟨q, rfl, hq, rfl⟩ := h.proposals id b hb
  rw [Proposal.decode_encode hq] at hdec
  cases hdec
  rfl

structure Store.Tidy (s : Store) : Prop extends s.view.Tidy s.lotAt where
  keyed : s.Keyed

structure Genesis.Tells (g : Genesis) (s : Store) : Prop where
  params : s.view.params = some g.params.encode
  fits : g.params.Fits
  valid : g.params.validate = .ok ()
  proposals : Lists Proposal.id Proposal.encode Proposal.Fits s.view.proposals g.proposals
  votes : Lists Vote.key Vote.encode (fun _ => True) s.view.votes g.votes
  lots : Lists Lot.key Lot.encode (fun _ => True) s.lotAt g.lots
  nextId : g.nextId = s.view.nextId

namespace Store.Tidy

variable {s : Store}

theorem proposals_eq (h : s.Tidy) : ∃ ps, s.proposals = .ok ps ∧
    Lists Proposal.id Proposal.encode Proposal.Fits s.view.proposals ps := by
  obtain ⟨es, hes, hasc, hm⟩ := allProposals_eq h.keyed.sound.proposalsKeyed
  obtain ⟨ps, hps, hl⟩ := h.proposals.lists (fun _ => Proposal.decode_encode) es Prod.fst
    Prod.snd hasc.nodup_keys fun id b => by simp [← hm]
  exact ⟨ps, by simp only [Store.proposals, hes, hps], hl⟩

theorem everyVote_eq (h : s.Tidy) : ∃ vs, s.everyVote = .ok vs ∧
    Lists Vote.key Vote.encode (fun _ => True) s.view.votes vs := by
  obtain ⟨es, hes, hasc, hm⟩ := allVotes_eq h.keyed.sound.votesKeyed
  obtain ⟨vs, hvs, hl⟩ := h.votes.lists (fun v _ => v.decode_encode) es
    (fun e => (e.1, e.2.1)) (·.2.2) hasc.nodup_keys fun k b => by simp [← hm, Prod.ext_iff]
  exact ⟨vs, by simp only [everyVote, hes, hvs], hl⟩

theorem everyLot_eq (h : s.Tidy) : ∃ ls, s.everyLot = .ok ls ∧
    Lists Lot.key Lot.encode (fun _ => True) s.lotAt ls := by
  obtain ⟨es, hes, hlist, hm⟩ := allLots_eq h.keyed.lots
  obtain ⟨ls, hls, hl⟩ := h.lots.lists (fun l _ => l.decode_encode) es
    (fun e => (e.1, e.2.1)) (·.2.2) hlist.nodup_keys fun k b => by simp [← hm, Prod.ext_iff]
  exact ⟨ls, by simp only [everyLot, hes, hls], hl⟩

theorem toGenesis_eq (h : s.Tidy) : ∃ g, s.toGenesis = .ok g ∧ g.Tells s := by
  obtain ⟨p, hp, hfits, hvalid⟩ := h.params
  obtain ⟨ps, hps, hlp⟩ := h.proposals_eq
  obtain ⟨vs, hvs, hlv⟩ := h.everyVote_eq
  obtain ⟨ls, hls, hll⟩ := h.everyLot_eq
  have hparams : s.paramsOrDefault = .ok p := by
    simp only [paramsOrDefault, params?, getParams_eq, hp, decodeSome, Params.decode_encode hfits,
      Option.getD_some]
  refine ⟨⟨p, ps, vs, ls, s.view.nextId⟩, ?_, ⟨hp, hfits, hvalid, hlp, hlv, hll, rfl⟩⟩
  rw [toGenesis, hparams, hps, hvs, hls, h.keyed.sound.nextId_eq]
  rfl

end Store.Tidy

theorem Store.ListsAlike.toGenesis_eq {s t : Store} (h : s.ListsAlike t)
    (hn : t.nextId = s.nextId) : t.toGenesis = s.toGenesis := by
  simp only [Store.toGenesis, Store.paramsOrDefault, Store.params?, Store.proposals,
    Store.everyVote, Store.everyLot, h.params, h.proposals, h.votes, h.lots, hn]

end DaoGovernance
