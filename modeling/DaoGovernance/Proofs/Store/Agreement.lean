import DaoGovernance.Proofs.Store.Contents
import Mathlib

/-!
The store in memory and the tables answer every sequence of requests alike, through any closing and
opening of the tables, except that each lists all lots in its own order.
-/

namespace DaoGovernance

/-! ### Requests -/

/-- A request to a store.  Between the others the tables may be closed and opened again. -/
inductive Request
  | takeId
  | nextId
  | setNextId (id : UInt64)
  | putProposal (id : UInt64) (data : Bytes)
  | getProposal (id : UInt64)
  | allProposals
  | putVote (id : UInt64) (voter : Address) (data : Bytes)
  | getVote (id : UInt64) (voter : Address)
  | votesOn (id : UInt64)
  | allVotes
  | putLot (voter : Address) (id : UInt64) (data : Bytes)
  | lotsOf (voter : Address)
  | hasAnyLot
  | allLots
  | putParams (data : Bytes)
  | getParams
  | reopen (mapSize : UInt64)

inductive Answer
  | done
  | failed (error : StoreError)
  | id (id : UInt64)
  | flag (b : Bool)
  | record (data : Option Bytes)
  | records (es : List (UInt64 × Bytes))
  | votes (es : List (Address × Bytes))
  | allVotes (es : List (UInt64 × Address × Bytes))
  | allLots (es : List (Address × UInt64 × Bytes))

namespace Answer

def ofExcept {α : Type} (f : α → Answer) : Except StoreError α → Answer
  | .ok a => f a
  | .error e => .failed e

/-- The same answer, or the same lots, first by the text of the voter and then by its length. -/
def Agrees : Answer → Answer → Prop
  | .allLots es, .allLots fs => es.Perm fs ∧ Ascending (fun e => (e.1.text, e.2.1)) es ∧
      Ascending (fun e => Key.lotRank (e.1, e.2.1)) fs
  | a, b => a = b

end Answer

def TableStore.reopen (t : TableStore) (mapSize : UInt64) : Except TableError TableStore :=
  match { t with openSize := none }.attach mapSize with
  | .ok t => Prod.fst <$> t.upgrade
  | .error e => .error e

namespace Store

def reopen (mapSize : UInt64) : Store → Except StoreError Store
  | .memory s => .ok (.memory s)
  | .tables t =>
    match t.reopen mapSize with
    | .ok t => .ok (.tables t)
    | .error e => .error e.toStoreError

def written (s : Store) : Except StoreError Store → Answer × Store
  | .ok s' => (.done, s')
  | .error e => (.failed e, s)

def serve (s : Store) : Request → Answer × Store
  | .takeId =>
    match s.takeId with
    | .ok (id, s') => (.id id, s')
    | .error e => (.failed e, s)
  | .nextId => (.ofExcept .id s.nextId, s)
  | .setNextId id => (.done, s.setNextId id)
  | .putProposal id d => s.written (s.putProposal id d)
  | .getProposal id => (.record (s.getProposal id), s)
  | .allProposals => (.ofExcept .records s.allProposals, s)
  | .putVote id a d => (.done, s.putVote id a d)
  | .getVote id a => (.record (s.getVote id a), s)
  | .votesOn id => (.ofExcept .votes (s.votesOn id), s)
  | .allVotes => (.ofExcept .allVotes s.allVotes, s)
  | .putLot a id d => s.written (s.putLot a id d)
  | .lotsOf a => (.ofExcept .records (s.lotsOf a), s.countScan)
  | .hasAnyLot => (.flag s.hasAnyLot, s)
  | .allLots => (.ofExcept .allLots s.allLots, s)
  | .putParams d => (.done, s.putParams d)
  | .getParams => (.record s.getParams, s)
  | .reopen size => s.written (s.reopen size)

def answers (s : Store) : List Request → List Answer
  | [] => []
  | r :: rs => (s.serve r).1 :: (s.serve r).2.answers rs

end Store

/-- Tables open with whole pages only. -/
def Request.Regular : Request → Prop
  | .reopen size => size % TableStore.pageSize = 0
  | _ => True

/-! ### One request -/

def Answer.isAllLots : Answer → Bool
  | .allLots _ => true
  | _ => false

theorem Answer.Agrees.refl {a : Answer} (h : a.isAllLots = false) : a.Agrees a := by
  cases a with
  | allLots es => cases h
  | _ => rfl

theorem Answer.ofExcept_agrees {α : Type} {f : α → Answer} (h : ∀ a, (f a).isAllLots = false)
    {x y : Except StoreError α} (hxy : y = x) : (ofExcept f x).Agrees (ofExcept f y) := by
  subst hxy
  cases y with
  | ok a => exact Agrees.refl (h a)
  | error e => exact Agrees.refl rfl

theorem TableStore.upgrade_eq {t : TableStore}
    (h : t.schema = .ok 0 ∨ t.schema = .ok currentSchema) :
    ∃ info found, t.upgrade = .ok ({ t with info }, found) ∧
      info.get? sequenceKey = t.info.get? sequenceKey ∧
      { t with info }.schema = .ok currentSchema := by
  rcases h with h | h
  · refine ⟨t.info.insert schemaKey (littleEndian 4 1), some 0, ?_, ?_, ?_⟩
    · rw [upgrade, h]
      rfl
    · exact SortedMap.get?_insert_of_ne _ _ (by decide)
    · rw [schema, SortedMap.get?_insert_self]
      rfl
  · refine ⟨t.info, none, ?_, rfl, h⟩
    rw [upgrade, h]
    rfl

namespace Store

variable {m m' : MemoryStore} {t t' : TableStore}

structure Alike (m : MemoryStore) (t : TableStore) : Prop where
  agrees : (memory m).Agrees (.tables t)
  keyed : (tables t).Keyed
  working : m.failingScans = [] ∧ m.failLotWrites = false ∧ m.failProposalWrites = false
  schema : t.schema = .ok 0 ∨ t.schema = .ok TableStore.currentSchema

namespace Alike

theorem empty : Alike .empty .empty where
  agrees := ⟨⟨rfl, rfl, rfl, rfl⟩, rfl⟩
  keyed := ⟨⟨.empty, .empty, nofun⟩, .empty⟩
  working := ⟨rfl, rfl, rfl⟩
  schema := .inl rfl

theorem write (h : Alike m t) {v w : View} {l l' : Address × UInt64 → Option Bytes}
    (hm : (memory m).Becomes (.memory m') v l) (ht : (tables t).Becomes (.tables t') w l')
    (hvw : v.Agrees w) (hl : l' = l)
    (hw : m'.failingScans = m.failingScans ∧ m'.failLotWrites = m.failLotWrites ∧
      m'.failProposalWrites = m.failProposalWrites)
    (hinfo : t'.info.get? TableStore.schemaKey = t.info.get? TableStore.schemaKey) :
    Alike m' t' := by
  subst hl
  refine ⟨.becomes hm ht hvw, ht.keyed h.keyed, ?_, ?_⟩
  · rw [hw.1, hw.2.1, hw.2.2]
    exact h.working
  · rw [TableStore.schema, hinfo]
    exact h.schema

theorem setNextId (h : Alike m t) (id : UInt64) :
    Alike { m with nextId := id } (t.setNextId id) := by
  have ha := h.agrees
  apply h.write (setNextId_becomes _ id) (setNextId_becomes _ id)
  · exact ⟨ha.proposals, ha.votes, ha.params, rfl⟩
  · exact ha.lots
  · exact ⟨rfl, rfl, rfl⟩
  · exact SortedMap.get?_insert_of_ne _ _ (by decide)

theorem info (h : Alike m t) {info : Table} {size : Option UInt64}
    (hseq : info.get? TableStore.sequenceKey = t.info.get? TableStore.sequenceKey)
    (hschema : { t with info, openSize := size }.schema = .ok TableStore.currentSchema) :
    Alike m { t with info, openSize := size } where
  agrees := by
    refine ⟨⟨h.agrees.proposals, h.agrees.votes, h.agrees.params, ?_⟩, h.agrees.lots⟩
    rw [← h.agrees.nextId]
    simp only [view, TableStore.nextId, hseq]
  keyed := ⟨⟨h.keyed.sound.1, h.keyed.sound.2.1, hseq ▸ h.keyed.sound.2.2⟩, h.keyed.lots⟩
  working := h.working
  schema := .inr hschema

theorem reopen (h : Alike m t) {size : UInt64} (hsize : size % TableStore.pageSize = 0) :
    ∃ t', (tables t).reopen size = .ok (.tables t') ∧ Alike m t' := by
  have hattach : { t with openSize := none }.attach size =
      .ok { t with openSize := some size } := by
    rw [TableStore.attach, if_neg (not_not.2 hsize)]
  obtain ⟨info, found, hup, hseq, hschema⟩ :=
    TableStore.upgrade_eq (t := { t with openSize := some size }) h.schema
  refine ⟨{ t with info, openSize := some size }, ?_, h.info hseq hschema⟩
  rw [Store.reopen, TableStore.reopen, hattach]
  simp only [hup]
  rfl

end Alike

def ServeAlike (m : MemoryStore) (t : TableStore) (r : Request) : Prop :=
  ∃ m' t', ((memory m).serve r).1.Agrees ((tables t).serve r).1 ∧
    ((memory m).serve r).2 = .memory m' ∧ ((tables t).serve r).2 = .tables t' ∧ Alike m' t'

theorem ServeAlike.of_done {r : Request} (hm : (memory m).serve r = (.done, .memory m'))
    (ht : (tables t).serve r = (.done, .tables t')) (h : Alike m' t') : ServeAlike m t r := by
  refine ⟨m', t', ?_, ?_, ?_, h⟩
  · rw [hm, ht]
    rfl
  · rw [hm]
  · rw [ht]

namespace Alike

theorem serve_takeId (h : Alike m t) : ServeAlike m t .takeId := by
  have hnext : (tables t).view.nextId = (memory m).view.nextId := h.agrees.nextId
  rcases takeId_eq (s := memory m) trivial with ⟨hlast, hm⟩ | ⟨hlast, hm⟩ <;>
    rcases takeId_eq h.keyed.sound with ⟨hlast', ht⟩ | ⟨hlast', ht⟩
  · refine ⟨m, t, ?_, ?_, ?_, h⟩
    · rw [Store.serve, Store.serve, hm, ht]
      rfl
    · rw [Store.serve, hm]
    · rw [Store.serve, ht]
  · exact absurd (hnext.trans hlast) hlast'
  · exact absurd (hnext.symm.trans hlast') hlast
  · rw [hnext] at ht
    refine ⟨_, _, ?_, ?_, ?_, h.setNextId ((memory m).view.nextId + 1)⟩
    · rw [Store.serve, Store.serve, hm, ht]
      rfl
    · rw [Store.serve, hm]
      rfl
    · rw [Store.serve, ht]
      rfl

theorem serve_putProposal (h : Alike m t) (id : UInt64) (d : Bytes) :
    ServeAlike m t (.putProposal id d) := by
  have hput : (memory m).putProposal id d = .ok (.memory (m.overwriteProposal id d)) := by
    simp only [putProposal, MemoryStore.putProposal, h.working.2.2]
    rfl
  have ha := h.agrees
  have halike : Alike (m.overwriteProposal id d) (t.putProposal id d) :=
    h.write (putProposal_becomes hput) (putProposal_becomes rfl)
      ⟨by rw [ha.proposals], ha.votes, ha.params, ha.nextId⟩ ha.lots ⟨rfl, rfl, rfl⟩ rfl
  refine .of_done ?_ rfl halike
  rw [Store.serve, hput]
  rfl

theorem serve_putVote (h : Alike m t) (id : UInt64) (a : Address) (d : Bytes) :
    ServeAlike m t (.putVote id a d) := by
  have ha := h.agrees
  refine .of_done rfl rfl (h.write (putVote_becomes _ id a d) (putVote_becomes _ id a d) ?_ ha.lots
    ⟨rfl, rfl, rfl⟩ rfl)
  exact ⟨ha.proposals, by rw [ha.votes], ha.params, ha.nextId⟩

theorem serve_putLot (h : Alike m t) (a : Address) (id : UInt64) (d : Bytes) :
    ServeAlike m t (.putLot a id d) := by
  have hput : (memory m).putLot a id d =
      .ok (.memory { m with lots := m.lots.insert (a, id) d }) := by
    simp only [putLot, MemoryStore.putLot, h.working.2.1]
    rfl
  have halike : Alike { m with lots := m.lots.insert (a, id) d } (t.putLot a id d) :=
    h.write (putLot_becomes hput) (putLot_becomes rfl) h.agrees.toAgrees
      (by rw [h.agrees.lots]) ⟨rfl, rfl, rfl⟩ rfl
  refine .of_done ?_ rfl halike
  rw [Store.serve, hput]
  rfl

theorem serve_putParams (h : Alike m t) (d : Bytes) : ServeAlike m t (.putParams d) := by
  have ha := h.agrees
  refine .of_done rfl rfl (h.write (putParams_becomes _ d) (putParams_becomes _ d) ?_ ha.lots
    ⟨rfl, rfl, rfl⟩ rfl)
  exact ⟨ha.proposals, ha.votes, rfl, ha.nextId⟩

theorem serve_votesOn (h : Alike m t) (id : UInt64) : ServeAlike m t (.votesOn id) := by
  refine ⟨m, t, Answer.ofExcept_agrees (fun _ => rfl) ?_, rfl, rfl, h⟩
  refine h.agrees.votesOn (.memory m) h.keyed ?_ rfl
  simp only [view, h.working.1]
  rfl

theorem serve_lotsOf (h : Alike m t) (a : Address) : ServeAlike m t (.lotsOf a) := by
  refine ⟨_, t, ?_, rfl, rfl, h.write (countScan_becomes _) (.refl _) h.agrees.toAgrees
    h.agrees.lots ⟨rfl, rfl, rfl⟩ rfl⟩
  exact Answer.ofExcept_agrees (fun _ => rfl) (h.agrees.lotsOf (.memory m) h.keyed a)

theorem serve_allLots (h : Alike m t) : ServeAlike m t .allLots := by
  obtain ⟨es, fs, hes, hfs, hp, hlist, hlist'⟩ := h.agrees.allLots (.memory m) h.keyed
  refine ⟨m, t, ?_, rfl, rfl, h⟩
  rw [Store.serve, Store.serve, hes, hfs]
  exact ⟨hp, hlist, hlist'⟩

theorem serve_reopen (h : Alike m t) {size : UInt64} (hsize : size % TableStore.pageSize = 0) :
    ServeAlike m t (.reopen size) := by
  obtain ⟨t', ht, halike⟩ := h.reopen hsize
  refine .of_done rfl ?_ halike
  rw [Store.serve, ht]
  rfl

theorem serve (h : Alike m t) {r : Request} (hr : r.Regular) : ServeAlike m t r := by
  have hm : (memory m).Keyed := .memory m
  have ha := h.agrees
  -- Whoever only reads finds the same on both sides, which then stay as they are.
  have read {r : Request} (hagrees : ((memory m).serve r).1.Agrees ((tables t).serve r).1)
      (hm : ((memory m).serve r).2 = .memory m) (ht : ((tables t).serve r).2 = .tables t) :
      ServeAlike m t r := ⟨m, t, hagrees, hm, ht, h⟩
  cases r with
  | takeId => exact h.serve_takeId
  | nextId => exact read (Answer.ofExcept_agrees (fun _ => rfl) (ha.nextId_eq hm h.keyed)) rfl rfl
  | setNextId id => exact .of_done rfl rfl (h.setNextId id)
  | putProposal id d => exact h.serve_putProposal id d
  | getProposal id => exact read (congrArg Answer.record (ha.getProposal id).symm) rfl rfl
  | allProposals =>
    exact read (Answer.ofExcept_agrees (fun _ => rfl) (ha.allProposals hm h.keyed)) rfl rfl
  | putVote id a d => exact h.serve_putVote id a d
  | getVote id a => exact read (congrArg Answer.record (ha.getVote id a).symm) rfl rfl
  | votesOn id => exact h.serve_votesOn id
  | allVotes => exact read (Answer.ofExcept_agrees (fun _ => rfl) (ha.allVotes hm h.keyed)) rfl rfl
  | putLot a id d => exact h.serve_putLot a id d
  | lotsOf a => exact h.serve_lotsOf a
  | hasAnyLot => exact read (congrArg Answer.flag (ha.hasAnyLot hm h.keyed).symm) rfl rfl
  | allLots => exact h.serve_allLots
  | putParams d => exact h.serve_putParams d
  | getParams => exact read (congrArg Answer.record ha.getParams.symm) rfl rfl
  | reopen size => exact h.serve_reopen hr

end Alike

theorem Alike.answers (h : Alike m t) {rs : List Request} (hrs : ∀ r ∈ rs, r.Regular) :
    List.Forall₂ Answer.Agrees ((memory m).answers rs) ((tables t).answers rs) := by
  induction rs generalizing m t with
  | nil => exact .nil
  | cons r rs ih =>
    obtain ⟨hr, hrs⟩ := List.forall_mem_cons.1 hrs
    obtain ⟨m', t', hr, hm, ht, h'⟩ := h.serve hr
    rw [Store.answers, Store.answers, hm, ht]
    exact .cons hr (ih h' hrs)

/-- The store in memory and the tables are the same store. -/
theorem answers_agree {rs : List Request} (hrs : ∀ r ∈ rs, r.Regular) :
    List.Forall₂ Answer.Agrees (emptyMemory.answers rs) (emptyTables.answers rs) :=
  Alike.empty.answers hrs

end Store

/-! ### A few requests -/

namespace Sample

def voter : Address := ⟨"dns1zzzzzzzz", by decide⟩

def longerVoter : Address := ⟨"dns1pppppppppp", by decide⟩

def requests : List Request := [
  .reopen 4096,
  .takeId,
  .putLot longerVoter 0 [1],
  .putLot voter 7 [2],
  .reopen 8192,
  .putProposal 0 [3],
  .allProposals,
  .allLots,
  .setNextId 0xFFFFFFFFFFFFFFFF,
  .takeId]

theorem requests_agree :
    (∀ r ∈ requests, r.Regular) ∧
      List.Forall₂ Answer.Agrees (Store.emptyMemory.answers requests)
        (Store.emptyTables.answers requests) := by
  have hregular : ∀ r ∈ requests, r.Regular := by
    intro r hr
    fin_cases hr <;> first | rfl | trivial
  exact ⟨hregular, Store.answers_agree hregular⟩

end Sample

end DaoGovernance
