import DaoGovernance.Proofs.Store.Order
import DaoGovernance.Store.Basic
import Mathlib

/-!
What the records of a store are, whatever keeps them.  Every operation is a change of the view at
one place, and a scan lists what the view has, in the order of its keys.
-/

namespace DaoGovernance

open KeyOrder (before)

def Table.KeyedBy {α : Type} (key : α → Bytes) (t : Table) : Prop :=
  ∀ e ∈ t.entries, ∃ a, e.1 = key a

namespace Table

variable {α : Type} {key : α → Bytes} {t : Table}

theorem KeyedBy.empty : KeyedBy key SortedMap.empty := by simp [KeyedBy]

theorem KeyedBy.insert (h : t.KeyedBy key) (a : α) (v : Bytes) :
    KeyedBy key (t.insert (key a) v) := by
  intro e he
  rcases SortedMap.key_of_mem_put he with rfl | he
  · exact ⟨a, rfl⟩
  · exact h e he

theorem exists_map {es : List (Bytes × Bytes)} (h : ∀ e ∈ es, ∃ a, e.1 = key a) :
    ∃ as : List (α × Bytes), es = as.map fun x => (key x.1, x.2) := by
  induction es with
  | nil => exact ⟨[], rfl⟩
  | cons e es ih =>
    obtain ⟨a, ha⟩ := h e (by simp)
    obtain ⟨as, rfl⟩ := ih fun f hf => h f (by simp [hf])
    exact ⟨(a, e.2) :: as, by simp [← ha]⟩

theorem scan_map {β : Type} {toKey : Bytes → Except KeyError α} {f : α → Bytes → β}
    (h : ∀ a, toKey (key a) = .ok a) (as : List (α × Bytes)) :
    TableStore.scan toKey f (as.map fun x => (key x.1, x.2)) =
      .ok (as.map fun x => f x.1 x.2) := by
  induction as with
  | nil => rfl
  | cons x as ih => simp only [List.map_cons, TableStore.scan, h, TableStore.keyed, ih]

theorem KeyedBy.exists_entries {κ : Type} [KeyOrder κ] {r : α → κ} (h : t.KeyedBy key)
    (hinj : Function.Injective key)
    (hr : ∀ a b, before (key a) (key b) = before (r a) (r b)) :
    ∃ es : List (α × Bytes), t.entries = es.map (fun e => (key e.1, e.2)) ∧
      Ascending (fun e => r e.1) es ∧ ∀ a v, (a, v) ∈ es ↔ t.get? (key a) = some v := by
  obtain ⟨es, hes⟩ := exists_map h
  refine ⟨es, hes, ?_, fun a v => ?_⟩
  · have hs := t.sorted
    rw [hes, List.pairwise_map] at hs
    exact hs.imp fun {e f} hef => (hr e.1 f.1).symm.trans hef
  · simp only [SortedMap.get?_eq_some_iff, hes, List.mem_map, Prod.mk.injEq, hinj.eq_iff,
      Prod.exists, exists_eq_right_right, exists_eq_right]

end Table

namespace SortedMap

variable {κ ν : Type} [KeyOrder κ]

theorem ascending (m : SortedMap κ ν) : Ascending Prod.fst m.entries := m.sorted

theorem get?_insert_eq [DecidableEq κ] (m : SortedMap κ ν) (k : κ) (v : ν) :
    (m.insert k v).get? = Function.update m.get? k (some v) := by
  funext k'
  rw [get?_insert, Function.update_apply]
  by_cases h : k' = k
  · simp [h]
  · rw [if_neg h, if_neg]
    simpa using Ne.symm h

end SortedMap

def slice {ι κ ν : Type} [DecidableEq ι] (i : ι) (es : List ((ι × κ) × ν)) : List (κ × ν) :=
  (es.filter fun e => e.1.1 = i).map fun e => (e.1.2, e.2)

def unpaired {ι κ ν : Type} (es : List ((ι × κ) × ν)) : List (ι × κ × ν) :=
  es.map fun e => (e.1.1, e.1.2, e.2)

section Unpaired

variable {ι κ ν ρ : Type} {es : List ((ι × κ) × ν)}

theorem mem_unpaired {i : ι} {k : κ} {v : ν} : (i, k, v) ∈ unpaired es ↔ ((i, k), v) ∈ es := by
  simp [unpaired]

theorem ascending_unpaired [KeyOrder ρ] {r : ι × κ → ρ} (h : Ascending (fun e => r e.1) es) :
    Ascending (fun e => r (e.1, e.2.1)) (unpaired es) :=
  h.map fun _ _ _ _ hef => hef

end Unpaired

section Slice

variable {ι κ ν : Type} [DecidableEq ι] {i : ι} {es : List ((ι × κ) × ν)}

theorem mem_slice {k : κ} {v : ν} : (k, v) ∈ slice i es ↔ ((i, k), v) ∈ es := by
  simp only [slice, List.mem_map, List.mem_filter, decide_eq_true_eq, Prod.mk.injEq]
  constructor
  · rintro ⟨⟨⟨j, k⟩, v⟩, ⟨he, rfl⟩, rfl, rfl⟩
    exact he
  · intro he
    exact ⟨_, ⟨he, rfl⟩, rfl, rfl⟩

theorem ascending_slice {ρ : Type} [KeyOrder κ] [KeyOrder ρ] {r : ι × κ → ρ}
    (h : Ascending (fun e => r e.1) es)
    (hr : ∀ k k', before (r (i, k)) (r (i, k')) = before k k') :
    Ascending Prod.fst (slice i es) := by
  have under : ∀ e ∈ es.filter fun e => e.1.1 = i, e.1 = (i, e.1.2) := by
    intro e he
    rw [← of_decide_eq_true (List.mem_filter.1 he).2]
  apply (h.sublist List.filter_sublist).map
  intro e he f hf hef
  rwa [under e he, under f hf, hr] at hef

theorem Table.under_eq {key : ι × κ → Bytes} {start : Bytes} {es : List ((ι × κ) × Bytes)}
    {t : Table} (ht : t.entries = es.map fun e => (key e.1, e.2))
    (hstart : ∀ k, start.isPrefixOf (key k) = true ↔ k.1 = i) :
    TableStore.under start t = (es.filter fun e => e.1.1 = i).map fun e => (key e.1, e.2) := by
  rw [TableStore.under, ht, List.filter_map]
  congr 2
  funext e
  rw [Bool.eq_iff_iff, decide_eq_true_eq]
  exact hstart e.1

end Slice

namespace Store

structure View where
  proposals : UInt64 → Option Bytes
  votes : UInt64 × Address → Option Bytes
  params : Option Bytes
  nextId : UInt64
  failScan : UInt64 → Bool
  failLots : Bool
  failProposals : Bool

structure View.Agrees (v w : View) : Prop where
  proposals : w.proposals = v.proposals
  votes : w.votes = v.votes
  params : w.params = v.params
  nextId : w.nextId = v.nextId

def view : Store → View
  | .memory s => {
      proposals := s.proposals.get?
      votes := s.votes.get?
      params := s.params
      nextId := s.nextId
      failScan := s.failingScans.contains
      failLots := s.failLotWrites
      failProposals := s.failProposalWrites }
  | .tables t => {
      proposals := t.getProposal
      votes := fun k => t.getVote k.1 k.2
      params := t.getParams
      nextId := match t.nextId with
        | .ok id => id
        | .error _ => 0
      failScan := fun _ => false
      failLots := false
      failProposals := false }

def Sound : Store → Prop
  | .memory _ => True
  | .tables t => t.proposals.KeyedBy Key.ofId ∧
      t.votes.KeyedBy (fun k : UInt64 × Address => Key.ofVote k.1 k.2) ∧
      ∀ bs, t.info.get? TableStore.sequenceKey = some bs → bs.length = 8

def ProposalsKeyed : Store → Prop
  | .memory _ => True
  | .tables t => t.proposals.KeyedBy Key.ofId

def VotesKeyed : Store → Prop
  | .memory _ => True
  | .tables t => t.votes.KeyedBy fun k : UInt64 × Address => Key.ofVote k.1 k.2

variable {s s' : Store}

theorem Sound.proposalsKeyed (h : s.Sound) : s.ProposalsKeyed := by
  cases s with
  | memory s => trivial
  | tables t => exact h.1

theorem Sound.votesKeyed (h : s.Sound) : s.VotesKeyed := by
  cases s with
  | memory s => trivial
  | tables t => exact h.2.1

@[simp] theorem getProposal_eq (s : Store) (id : UInt64) :
    s.getProposal id = s.view.proposals id := by
  cases s <;> rfl

@[simp] theorem getVote_eq (s : Store) (id : UInt64) (a : Address) :
    s.getVote id a = s.view.votes (id, a) := by
  cases s <;> rfl

@[simp] theorem getParams_eq (s : Store) : s.getParams = s.view.params := by cases s <;> rfl

theorem Sound.nextId_eq (h : s.Sound) : s.nextId = .ok s.view.nextId := by
  cases s with
  | memory s => rfl
  | tables t =>
    have hid : ∃ id, t.nextId = .ok id := by
      rw [TableStore.nextId]
      split
      · rename_i bs hbs
        exact ⟨_, by rw [Key.toId, if_pos (h.2.2 bs hbs)]; rfl⟩
      · exact ⟨0, rfl⟩
    obtain ⟨id, hid⟩ := hid
    simp [nextId, view, hid]

/-! ### Writes -/

theorem nextId_setNextId (s : Store) (id : UInt64) : (s.setNextId id).nextId = .ok id := by
  cases s with
  | memory => rfl
  | tables => simp [setNextId, nextId, TableStore.nextId, TableStore.setNextId, TableStore.keyed]

theorem view_setNextId (id : UInt64) : (s.setNextId id).view = { s.view with nextId := id } := by
  cases s with
  | memory s => rfl
  | tables t =>
    have hid : (t.setNextId id).nextId = .ok id := nextId_setNextId (.tables t) id
    simp only [setNextId, view, hid]
    rfl

theorem Sound.setNextId (h : s.Sound) (id : UInt64) : (s.setNextId id).Sound := by
  cases s with
  | memory s => trivial
  | tables t =>
    refine ⟨h.1, h.2.1, ?_⟩
    intro bs hbs
    simp only [TableStore.setNextId, SortedMap.get?_insert_self, Option.some.injEq] at hbs
    rw [← hbs, Key.length_ofId]

theorem putProposal_eq (s : Store) (id : UInt64) (d : Bytes) :
    (s.view.failProposals = true ∧ ∃ e, s.putProposal id d = .error e) ∨
    (s.view.failProposals = false ∧ ∃ s', s.putProposal id d = .ok s' ∧ (s.Sound → s'.Sound) ∧
      s'.view = { s.view with proposals := Function.update s.view.proposals id (some d) }) := by
  cases s with
  | memory s =>
    cases hf : s.failProposalWrites with
    | true =>
      refine .inl ⟨hf, ?_⟩
      simp only [putProposal, MemoryStore.putProposal, hf]
      exact ⟨_, rfl⟩
    | false =>
      refine .inr ⟨hf, .memory (s.overwriteProposal id d), ?_, fun _ => trivial, ?_⟩
      · simp only [putProposal, MemoryStore.putProposal, hf]
        rfl
      · simp [view, MemoryStore.overwriteProposal, SortedMap.get?_insert_eq]
  | tables t =>
    refine .inr ⟨rfl, .tables (t.putProposal id d), rfl, ?_, ?_⟩
    · exact fun h => ⟨h.1.insert id d, h.2⟩
    · have hp : (t.putProposal id d).getProposal = Function.update t.getProposal id (some d) := by
        funext j
        simp only [TableStore.getProposal, TableStore.putProposal, SortedMap.get?_insert_eq,
          Function.update_apply, Key.ofId_injective.eq_iff]
      simp only [view, hp]
      rfl

theorem view_putProposal {id : UInt64} {d : Bytes} (h : s.putProposal id d = .ok s') :
    s'.view = { s.view with proposals := Function.update s.view.proposals id (some d) } ∧
      (s.Sound → s'.Sound) := by
  rcases putProposal_eq s id d with ⟨-, e, he⟩ | ⟨-, s'', hs, hsound, hv⟩
  · rw [he] at h
    cases h
  · rw [hs] at h
    cases h
    exact ⟨hv, hsound⟩

theorem view_putVote (id : UInt64) (a : Address) (d : Bytes) :
    (s.putVote id a d).view =
      { s.view with votes := Function.update s.view.votes (id, a) (some d) } := by
  cases s with
  | memory s => simp [putVote, MemoryStore.putVote, view, SortedMap.get?_insert_eq]
  | tables t =>
    have hv : (fun k : UInt64 × Address => (t.putVote id a d).getVote k.1 k.2) =
        Function.update (fun k : UInt64 × Address => t.getVote k.1 k.2) (id, a) (some d) := by
      funext k
      have := Key.ofVote_injective.eq_iff (a := k) (b := (id, a))
      simp only [TableStore.getVote, TableStore.putVote, SortedMap.get?_insert_eq,
        Function.update_apply, this]
    simp only [putVote, view, hv]
    rfl

theorem Sound.putVote (h : s.Sound) (id : UInt64) (a : Address) (d : Bytes) :
    (s.putVote id a d).Sound := by
  cases s with
  | memory s => trivial
  | tables t => exact ⟨h.1, h.2.1.insert (id, a) d, h.2.2⟩

theorem view_putParams (d : Bytes) :
    (s.putParams d).view = { s.view with params := some d } := by
  cases s with
  | memory s => rfl
  | tables t =>
    have hp : (t.putParams d).getParams = some d := by
      simp [TableStore.getParams, TableStore.putParams]
    simp only [putParams, view, hp]
    rfl

theorem Sound.putParams (h : s.Sound) (d : Bytes) : (s.putParams d).Sound := by
  cases s with
  | memory s => trivial
  | tables t => exact h

theorem putLot_eq (s : Store) (a : Address) (id : UInt64) (d : Bytes) :
    (s.view.failLots = true ∧ ∃ e, s.putLot a id d = .error e) ∨
    (s.view.failLots = false ∧ ∃ s', s.putLot a id d = .ok s' ∧ (s.Sound → s'.Sound) ∧
      s'.view = s.view) := by
  cases s with
  | memory s =>
    cases hf : s.failLotWrites with
    | true =>
      refine .inl ⟨hf, ?_⟩
      simp only [putLot, MemoryStore.putLot, hf]
      exact ⟨_, rfl⟩
    | false =>
      refine .inr ⟨hf, .memory { s with lots := s.lots.insert (a, id) d }, ?_, ?_, rfl⟩
      · simp only [putLot, MemoryStore.putLot, hf]
        rfl
      · exact fun _ => trivial
  | tables t => exact .inr ⟨rfl, .tables (t.putLot a id d), rfl, fun h => h, rfl⟩

theorem view_putLot {a : Address} {id : UInt64} {d : Bytes} (h : s.putLot a id d = .ok s') :
    s'.view = s.view ∧ (s.Sound → s'.Sound) := by
  rcases putLot_eq s a id d with ⟨-, e, he⟩ | ⟨-, s'', hs, hsound, hv⟩
  · rw [he] at h
    cases h
  · rw [hs] at h
    cases h
    exact ⟨hv, hsound⟩

theorem view_countScan : s.countScan.view = s.view := by cases s <;> rfl

theorem Sound.countScan (h : s.Sound) : s.countScan.Sound := by
  cases s with
  | memory s => trivial
  | tables t => exact h

theorem takeId_of_nextId {id : UInt64} (h : s.nextId = .ok id) :
    s.takeId = if id = 0xFFFFFFFFFFFFFFFF then .error .idsExhausted
      else .ok (id, s.setNextId (id + 1)) := by
  cases s with
  | memory s =>
    cases h
    simp only [takeId, MemoryStore.takeId]
    split <;> rfl
  | tables t =>
    simp only [takeId, TableStore.takeId, show t.nextId = .ok id from h]
    split <;> rfl

theorem takeId_eq (h : s.Sound) :
    (s.view.nextId = 0xFFFFFFFFFFFFFFFF ∧ s.takeId = .error .idsExhausted) ∨
    (s.view.nextId ≠ 0xFFFFFFFFFFFFFFFF ∧
      s.takeId = .ok (s.view.nextId, s.setNextId (s.view.nextId + 1))) := by
  rw [takeId_of_nextId h.nextId_eq]
  by_cases hlast : s.view.nextId = 0xFFFFFFFFFFFFFFFF
  · exact .inl ⟨hlast, if_pos hlast⟩
  · exact .inr ⟨hlast, if_neg hlast⟩

theorem nextId_of_takeId {id : UInt64} (h : s.takeId = .ok (id, s')) :
    s.nextId = .ok id ∧ s' = s.setNextId (id + 1) := by
  cases hn : s.nextId with
  | ok i =>
    rw [takeId_of_nextId hn] at h
    split at h
    · cases h
    · cases h
      exact ⟨rfl, rfl⟩
  | error e =>
    cases s with
    | memory => cases hn
    | tables t =>
      simp only [takeId, TableStore.takeId, show t.nextId = .error e from hn] at h
      cases h

/-! ### Scans -/

theorem allProposals_eq (h : s.ProposalsKeyed) :
    ∃ es, s.allProposals = .ok es ∧ Ascending Prod.fst es ∧
      ∀ id d, (id, d) ∈ es ↔ s.view.proposals id = some d := by
  cases s with
  | memory s => exact ⟨_, rfl, s.proposals.ascending, fun id d => s.proposals.get?_eq_some_iff.symm⟩
  | tables t =>
    obtain ⟨es, hes, hasc, hm⟩ := Table.KeyedBy.exists_entries h Key.ofId_injective Key.before_ofId
    refine ⟨es, ?_, hasc, hm⟩
    rw [allProposals, TableStore.allProposals, hes, Table.scan_map Key.toId_ofId, List.map_id']

theorem VotesKeyed.exists_entries {t : TableStore} (h : (tables t).VotesKeyed) :
    ∃ es : List ((UInt64 × Address) × Bytes),
      t.votes.entries = es.map (fun e => (Key.ofVote e.1.1 e.1.2, e.2)) ∧
      Ascending Prod.fst es ∧ ∀ k v, (k, v) ∈ es ↔ t.getVote k.1 k.2 = some v :=
  Table.KeyedBy.exists_entries (r := id) h Key.ofVote_injective fun k l =>
    Key.before_ofVote k.1 l.1 k.2 l.2

theorem votesOn_eq (h : s.VotesKeyed) (id : UInt64) :
    (s.view.failScan id = true ∧ ∃ e, s.votesOn id = .error e) ∨
    (s.view.failScan id = false ∧ ∃ es, s.votesOn id = .ok es ∧ Ascending Prod.fst es ∧
      ∀ a d, (a, d) ∈ es ↔ s.view.votes (id, a) = some d) := by
  have rank : ∀ a b : Address, before (id, a) (id, b) = before a b := by
    intro a b
    rw [KeyOrder.before_pair, KeyOrder.irrefl, KeyOrder.same_self, Bool.true_and, Bool.false_or]
  cases s with
  | memory s =>
    cases hf : s.failingScans.contains id with
    | true =>
      refine .inl ⟨hf, ?_⟩
      simp only [votesOn, MemoryStore.votesOn, hf]
      exact ⟨_, rfl⟩
    | false =>
      have hasc := ascending_slice (r := fun k => k) s.votes.ascending rank
      refine .inr ⟨hf, slice id s.votes.entries, ?_, hasc, ?_⟩
      · simp only [votesOn, MemoryStore.votesOn, hf]
        rfl
      · intro a d
        rw [mem_slice]
        exact s.votes.get?_eq_some_iff.symm
  | tables t =>
    obtain ⟨es, hes, hasc, hm⟩ := h.exists_entries
    refine .inr ⟨rfl, slice id es, ?_, ascending_slice (r := fun k => k) hasc rank, ?_⟩
    · simp only [votesOn, TableStore.votesOn]
      rw [Table.under_eq hes fun k => Key.ofId_isPrefixOf_ofVote]
      exact Table.scan_map (fun k : UInt64 × Address => Key.toVote_ofVote k.1 k.2) _
    · intro a d
      rw [mem_slice]
      exact hm (id, a) d

theorem votesOn_of_failScan {id : UInt64} (h : s.view.failScan id = true) :
    s.votesOn id =
      .error (.backend ("injected vote scan failure for proposal " ++ Text.decimal id.toNat)) := by
  cases s with
  | memory s =>
    have h : s.failingScans.contains id = true := h
    simp only [votesOn, MemoryStore.votesOn, h]
    rfl
  | tables t => cases h

theorem votesOn_congr {id : UInt64} (hs : s.VotesKeyed) (hs' : s'.VotesKeyed)
    (hv : ∀ a, s'.view.votes (id, a) = s.view.votes (id, a))
    (hf : s'.view.failScan id = s.view.failScan id) : s'.votesOn id = s.votesOn id := by
  rcases votesOn_eq hs id with ⟨hon, -⟩ | ⟨hoff, es, hes, hasc, hm⟩
  · rw [votesOn_of_failScan hon, votesOn_of_failScan (hf.trans hon)]
  · rcases votesOn_eq hs' id with ⟨hon, -⟩ | ⟨-, fs, hfs, hasc', hm'⟩
    · rw [hf, hoff] at hon
      cases hon
    · rw [hes, hfs, hasc'.eq_of_mem_iff hasc]
      intro ⟨a, d⟩
      rw [hm, hm', hv]

theorem allVotes_eq (h : s.VotesKeyed) :
    ∃ es, s.allVotes = .ok es ∧ Ascending (fun e => (e.1, e.2.1)) es ∧
      ∀ id a d, (id, a, d) ∈ es ↔ s.view.votes (id, a) = some d := by
  cases s with
  | memory s =>
    refine ⟨unpaired s.votes.entries, rfl, ?_, fun id a d => ?_⟩
    · exact ascending_unpaired (r := fun k => k) s.votes.ascending
    · rw [mem_unpaired]
      exact s.votes.get?_eq_some_iff.symm
  | tables t =>
    obtain ⟨es, hes, hasc, hm⟩ := h.exists_entries
    refine ⟨unpaired es, ?_, ascending_unpaired (r := fun k => k) hasc, fun id a d => ?_⟩
    · rw [allVotes, TableStore.allVotes, hes]
      exact Table.scan_map (fun k : UInt64 × Address => Key.toVote_ofVote k.1 k.2) _
    · rw [mem_unpaired]
      exact hm (id, a) d

end Store

end DaoGovernance
