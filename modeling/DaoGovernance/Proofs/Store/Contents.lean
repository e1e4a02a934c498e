import DaoGovernance.Proofs.Store.View
import Mathlib

/-!
Lots of a store, and all that it holds.  Stores that hold the same answer every read alike, but that
each lists all lots in an order of its own.
-/

namespace DaoGovernance

open KeyOrder (before)

namespace Store

variable {s s' t : Store} {a : Address} {id : UInt64} {d : Bytes}

/-! ### Lots -/

def lotAt : Store → Address × UInt64 → Option Bytes
  | .memory s => s.lots.get?
  | .tables t => fun k => t.lots.get? (Key.ofLot k.1 k.2)

def LotsKeyed : Store → Prop
  | .memory _ => True
  | .tables t => t.lots.KeyedBy fun k : Address × UInt64 => Key.ofLot k.1 k.2

def isOnTables : Store → Bool
  | .memory _ => false
  | .tables _ => true

/-- In memory lots stand by the text of the voter, in tables by its length first. -/
def ListsLots : Store → List (Address × UInt64 × Bytes) → Prop
  | .memory _ => Ascending fun e => (e.1.text, e.2.1)
  | .tables _ => Ascending fun e => Key.lotRank (e.1, e.2.1)

theorem ListsLots.nodup_keys {es : List (Address × UInt64 × Bytes)} (h : s.ListsLots es) :
    (es.map fun e => (e.1, e.2.1)).Nodup := by
  cases s with
  | memory =>
    apply List.Nodup.of_map fun k : Address × UInt64 => (k.1.text, k.2)
    rw [List.map_map]
    exact Ascending.nodup_keys h
  | tables =>
    apply List.Nodup.of_map Key.lotRank
    rw [List.map_map]
    exact Ascending.nodup_keys h

theorem ListsLots.nodup {es : List (Address × UInt64 × Bytes)} (h : s.ListsLots es) : es.Nodup :=
  .of_map _ h.nodup_keys

theorem LotsKeyed.exists_entries {t : TableStore} (h : (tables t).LotsKeyed) :
    ∃ es : List ((Address × UInt64) × Bytes),
      t.lots.entries = es.map (fun e => (Key.ofLot e.1.1 e.1.2, e.2)) ∧
      Ascending (fun e => Key.lotRank e.1) es ∧
      ∀ k v, (k, v) ∈ es ↔ (tables t).lotAt k = some v :=
  Table.KeyedBy.exists_entries h Key.ofLot_injective Key.before_ofLot

theorem lotsOf_eq (h : s.LotsKeyed) (a : Address) :
    ∃ es, s.lotsOf a = .ok es ∧ Ascending Prod.fst es ∧
      ∀ id d, (id, d) ∈ es ↔ s.lotAt (a, id) = some d := by
  cases s with
  | memory s =>
    refine ⟨slice a s.lots.entries, rfl, ?_, fun id d => ?_⟩
    · apply ascending_slice (r := fun k => k) s.lots.ascending
      simp [KeyOrder.before_pair, KeyOrder.irrefl]
    · rw [mem_slice]
      exact s.lots.get?_eq_some_iff.symm
  | tables t =>
    obtain ⟨es, hes, hasc, hm⟩ := h.exists_entries
    refine ⟨slice a es, ?_, ?_, fun id d => ?_⟩
    · simp only [lotsOf, TableStore.lotsOf]
      rw [Table.under_eq hes fun k => Key.ofVoter_isPrefixOf_ofLot]
      exact Table.scan_map (fun k : Address × UInt64 => Key.toLot_ofLot k.1 k.2) _
    · apply ascending_slice (r := Key.lotRank) hasc
      simp [Key.lotRank, KeyOrder.before_pair, KeyOrder.irrefl]
    · rw [mem_slice]
      exact hm (a, id) d

theorem allLots_eq (h : s.LotsKeyed) :
    ∃ es, s.allLots = .ok es ∧ s.ListsLots es ∧
      ∀ a id d, (a, id, d) ∈ es ↔ s.lotAt (a, id) = some d := by
  cases s with
  | memory s =>
    refine ⟨unpaired s.lots.entries, rfl, ?_, fun a id d => ?_⟩
    · exact ascending_unpaired (r := fun k : Address × UInt64 => (k.1.text, k.2)) s.lots.ascending
    · rw [mem_unpaired]
      exact s.lots.get?_eq_some_iff.symm
  | tables t =>
    obtain ⟨es, hes, hasc, hm⟩ := h.exists_entries
    refine ⟨unpaired es, ?_, ascending_unpaired hasc, fun a id d => ?_⟩
    · rw [allLots, TableStore.allLots, hes]
      exact Table.scan_map (fun k : Address × UInt64 => Key.toLot_ofLot k.1 k.2) _
    · rw [mem_unpaired]
      exact hm (a, id) d

theorem hasAnyLot_eq (h : s.LotsKeyed) : s.hasAnyLot = true ↔ ∃ k d, s.lotAt k = some d := by
  have nonempty {α β : Type} {es : List (α × β)} : (!es.isEmpty) = true ↔ ∃ a b, (a, b) ∈ es := by
    rw [Bool.not_eq_true', List.isEmpty_eq_false_iff_exists_mem, Prod.exists]
  cases s with
  | memory s =>
    simp only [lotAt, SortedMap.get?_eq_some_iff]
    exact nonempty
  | tables t =>
    obtain ⟨es, hes, -, hm⟩ := h.exists_entries
    simp only [← hm, hasAnyLot, SortedMap.isEmpty, hes, List.isEmpty_map]
    exact nonempty

/-! ### Writes -/

structure Keyed (s : Store) : Prop where
  sound : s.Sound
  lots : s.LotsKeyed

theorem Keyed.memory (s : MemoryStore) : (Store.memory s).Keyed := ⟨trivial, trivial⟩

structure Becomes (s t : Store) (v : View) (l : Address × UInt64 → Option Bytes) : Prop where
  keyed : s.Keyed → t.Keyed
  isOnTables : t.isOnTables = s.isOnTables
  view : t.view = v
  lots : t.lotAt = l

theorem Becomes.refl (s : Store) : s.Becomes s s.view s.lotAt := ⟨id, rfl, rfl, rfl⟩

theorem Becomes.trans {v w : View} {l m : Address × UInt64 → Option Bytes} (h : s.Becomes s' v l)
    (k : s'.Becomes t w m) : s.Becomes t w m :=
  ⟨k.keyed ∘ h.keyed, k.isOnTables.trans h.isOnTables, k.view, k.lots⟩

theorem setNextId_becomes (s : Store) (id : UInt64) :
    s.Becomes (s.setNextId id) { s.view with nextId := id } s.lotAt := by
  cases s <;> exact ⟨fun h => ⟨h.sound.setNextId id, h.lots⟩, rfl, view_setNextId id, rfl⟩

theorem putVote_becomes (s : Store) (id : UInt64) (a : Address) (d : Bytes) :
    s.Becomes (s.putVote id a d)
      { s.view with votes := Function.update s.view.votes (id, a) (some d) } s.lotAt := by
  cases s <;> exact ⟨fun h => ⟨h.sound.putVote id a d, h.lots⟩, rfl, view_putVote id a d, rfl⟩

theorem putParams_becomes (s : Store) (d : Bytes) :
    s.Becomes (s.putParams d) { s.view with params := some d } s.lotAt := by
  cases s <;> exact ⟨fun h => ⟨h.sound.putParams d, h.lots⟩, rfl, view_putParams d, rfl⟩

theorem countScan_becomes (s : Store) : s.Becomes s.countScan s.view s.lotAt := by
  cases s <;> exact ⟨fun h => ⟨h.sound.countScan, h.lots⟩, rfl, view_countScan, rfl⟩

theorem putProposal_becomes (h : s.putProposal id d = .ok s') :
    s.Becomes s' { s.view with proposals := Function.update s.view.proposals id (some d) }
      s.lotAt := by
  obtain ⟨hv, hsound⟩ := view_putProposal h
  cases s with
  | memory s =>
    simp only [putProposal, MemoryStore.putProposal] at h
    split at h
    · cases h
    · cases h
      exact ⟨fun h => ⟨hsound h.sound, h.lots⟩, rfl, hv, rfl⟩
  | tables t =>
    cases h
    exact ⟨fun h => ⟨hsound h.sound, h.lots⟩, rfl, hv, rfl⟩

theorem putLot_becomes (h : s.putLot a id d = .ok s') :
    s.Becomes s' s.view (Function.update s.lotAt (a, id) (some d)) := by
  obtain ⟨hv, hsound⟩ := view_putLot h
  cases s with
  | memory s =>
    simp only [putLot, MemoryStore.putLot] at h
    split at h
    · cases h
    · cases h
      exact ⟨fun h => ⟨hsound h.sound, h.lots⟩, rfl, hv, SortedMap.get?_insert_eq _ _ _⟩
  | tables t =>
    cases h
    refine ⟨fun h => ⟨hsound h.sound, h.lots.insert (a, id) d⟩, rfl, hv, ?_⟩
    funext k
    have := Key.ofLot_injective.eq_iff (a := k) (b := (a, id))
    simp only [lotAt, TableStore.putLot, SortedMap.get?_insert_eq, Function.update_apply, this]

/-! ### Stores that hold the same -/

structure ListsAlike (s t : Store) : Prop where
  proposals : t.allProposals = s.allProposals
  votes : t.allVotes = s.allVotes
  lots : t.allLots = s.allLots
  params : t.getParams = s.getParams

theorem ListsAlike.refl (s : Store) : s.ListsAlike s := ⟨rfl, rfl, rfl, rfl⟩

theorem listsAlike_setNextId (s : Store) (id : UInt64) : s.ListsAlike (s.setNextId id) := by
  cases s <;> exact ⟨rfl, rfl, rfl, rfl⟩

structure Agrees (s t : Store) : Prop extends View.Agrees s.view t.view where
  lots : t.lotAt = s.lotAt

namespace Agrees

theorem getProposal (h : s.Agrees t) (id : UInt64) : t.getProposal id = s.getProposal id := by
  rw [getProposal_eq, getProposal_eq, h.proposals]

theorem getVote (h : s.Agrees t) (id : UInt64) (a : Address) : t.getVote id a = s.getVote id a := by
  rw [getVote_eq, getVote_eq, h.votes]

theorem getParams (h : s.Agrees t) : t.getParams = s.getParams := by
  rw [getParams_eq, getParams_eq, h.params]

theorem nextId_eq (h : s.Agrees t) (hs : s.Keyed) (ht : t.Keyed) : t.nextId = s.nextId := by
  rw [hs.sound.nextId_eq, ht.sound.nextId_eq, h.nextId]

theorem allProposals (h : s.Agrees t) (hs : s.Keyed) (ht : t.Keyed) :
    t.allProposals = s.allProposals := by
  obtain ⟨es, hes, hasc, hm⟩ := allProposals_eq hs.sound.proposalsKeyed
  obtain ⟨fs, hfs, hasc', hm'⟩ := allProposals_eq ht.sound.proposalsKeyed
  rw [hes, hfs, hasc'.eq_of_mem_iff hasc]
  intro ⟨id, d⟩
  rw [hm, hm', h.proposals]

theorem allVotes (h : s.Agrees t) (hs : s.Keyed) (ht : t.Keyed) : t.allVotes = s.allVotes := by
  obtain ⟨es, hes, hasc, hm⟩ := allVotes_eq hs.sound.votesKeyed
  obtain ⟨fs, hfs, hasc', hm'⟩ := allVotes_eq ht.sound.votesKeyed
  rw [hes, hfs, hasc'.eq_of_mem_iff hasc]
  intro ⟨id, a, d⟩
  rw [hm, hm', h.votes]

theorem votesOn (h : s.Agrees t) (hs : s.Keyed) (ht : t.Keyed) {id : UInt64}
    (hf : s.view.failScan id = false) (hf' : t.view.failScan id = false) :
    t.votesOn id = s.votesOn id :=
  votesOn_congr hs.sound.votesKeyed ht.sound.votesKeyed (fun a => congrFun h.votes (id, a))
    (hf'.trans hf.symm)

theorem lotsOf (h : s.Agrees t) (hs : s.Keyed) (ht : t.Keyed) (a : Address) :
    t.lotsOf a = s.lotsOf a := by
  obtain ⟨es, hes, hasc, hm⟩ := lotsOf_eq hs.lots a
  obtain ⟨fs, hfs, hasc', hm'⟩ := lotsOf_eq ht.lots a
  rw [hes, hfs, hasc'.eq_of_mem_iff hasc]
  intro ⟨id, d⟩
  rw [hm, hm', h.lots]

theorem hasAnyLot (h : s.Agrees t) (hs : s.Keyed) (ht : t.Keyed) : t.hasAnyLot = s.hasAnyLot := by
  rw [Bool.eq_iff_iff, hasAnyLot_eq hs.lots, hasAnyLot_eq ht.lots, h.lots]

theorem allLots (h : s.Agrees t) (hs : s.Keyed) (ht : t.Keyed) :
    ∃ es fs, s.allLots = .ok es ∧ t.allLots = .ok fs ∧ es.Perm fs ∧ s.ListsLots es ∧
      t.ListsLots fs := by
  obtain ⟨es, hes, hlist, hm⟩ := allLots_eq hs.lots
  obtain ⟨fs, hfs, hlist', hm'⟩ := allLots_eq ht.lots
  refine ⟨es, fs, hes, hfs, ?_, hlist, hlist'⟩
  rw [List.perm_ext_iff_of_nodup hlist.nodup hlist'.nodup]
  intro ⟨a, id, d⟩
  rw [hm, hm', h.lots]

theorem allLots_eq (h : s.Agrees t) (hs : s.Keyed) (ht : t.Keyed)
    (hb : t.isOnTables = s.isOnTables) : t.allLots = s.allLots := by
  obtain ⟨es, hes, hlist, hm⟩ := Store.allLots_eq hs.lots
  obtain ⟨fs, hfs, hlist', hm'⟩ := Store.allLots_eq ht.lots
  have hmem : ∀ e, e ∈ fs ↔ e ∈ es := by
    intro ⟨a, id, d⟩
    rw [hm, hm', h.lots]
  rw [hes, hfs]
  cases s with
  | memory =>
    cases t with
    | memory => rw [Ascending.eq_of_mem_iff hlist' hlist hmem]
    | tables => cases hb
  | tables =>
    cases t with
    | memory => cases hb
    | tables => rw [Ascending.eq_of_mem_iff hlist' hlist hmem]

theorem listsAlike (h : s.Agrees t) (hs : s.Keyed) (ht : t.Keyed)
    (hb : t.isOnTables = s.isOnTables) : s.ListsAlike t :=
  ⟨h.allProposals hs ht, h.allVotes hs ht, h.allLots_eq hs ht hb, h.getParams⟩

theorem becomes {s' t' : Store} {v w : View} {l : Address × UInt64 → Option Bytes}
    (hs : s.Becomes s' v l) (ht : t.Becomes t' w l) (h : v.Agrees w) : s'.Agrees t' := by
  refine ⟨?_, ht.lots.trans hs.lots.symm⟩
  rw [hs.view, ht.view]
  exact h

end Agrees

end Store

end DaoGovernance
