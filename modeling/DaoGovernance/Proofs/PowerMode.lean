import DaoGovernance.Proofs.Lots
import DaoGovernance.Proofs.Opening
import DaoGovernance.Proofs.Store.Agreement
import Mathlib

/-!
Once there is a lot, voting power is counted in lots for good, whatever happens to the chain; and
from then on no vote depends on what any account has.
-/

namespace DaoGovernance

open DaoGovernance.Action

/-! ### The first lot is never the last -/

theorem SortedMap.isEmpty_insert {κ ν : Type} [KeyOrder κ] (m : SortedMap κ ν) (k : κ) (v : ν) :
    (m.insert k v).isEmpty = false := by
  cases h : m.entries with
  | nil => simp [isEmpty, insert, h, put]
  | cons e es =>
    simp only [isEmpty, insert, h, put]
    split
    · rfl
    · split <;> rfl

namespace Store

def HasLots (s : Store) : Prop := s.hasAnyLot = true

theorem hasLots_lasting : Lasting HasLots where
  setNextId s id h := by cases s <;> exact h
  putProposal {s t id b} hs h := by
    cases s with
    | memory m =>
      simp only [putProposal, MemoryStore.putProposal] at hs
      split at hs <;> cases hs
      exact h
    | tables u =>
      cases hs
      exact h
  putVote s id a b h := by cases s <;> exact h
  putLot {s t a id b} hs h := by
    cases s with
    | memory m =>
      simp only [putLot, MemoryStore.putLot] at hs
      split at hs <;> cases hs
      simp [HasLots, hasAnyLot, SortedMap.isEmpty_insert]
    | tables u =>
      cases hs
      simp [HasLots, hasAnyLot, TableStore.putLot, SortedMap.isEmpty_insert]
  countScan s h := by cases s <;> exact h
  switch s f hf h := by
    cases s with
    | memory m =>
      have hlots := congrArg MemoryStore.lots (hf m)
      simpa only [HasLots, hasAnyLot, switch, hlots] using h
    | tables t => exact h

theorem hasLots_putParams (s : Store) (b : Bytes) (h : s.HasLots) : (s.putParams b).HasLots := by
  cases s <;> exact h

theorem SameTables.hasLots {s t : Store} (h : s.SameTables t) (hs : s.HasLots) : t.HasLots := by
  cases s with
  | memory m =>
    cases h
    exact hs
  | tables u =>
    cases t with
    | memory m => cases h
    | tables u' =>
      have h : u.SameRecords u' := h
      simpa only [HasLots, hasAnyLot, h.lots] using hs

end Store

/-! ### Whatever happens -/

theorem TableStore.reopen_eq_ok {t t' : TableStore} {size : UInt64}
    (h : t.reopen size = .ok t') : t.SameRecords t' := by
  unfold reopen at h
  split at h
  · rename_i t₁ hattach
    cases hup : t₁.upgrade with
    | error e =>
      rw [hup] at h
      cases h
    | ok r =>
      rw [hup] at h
      cases h
      have hclosed := (Opened.kept (t := t) none).sameRecords
      rw [attach_eq_ok hattach] at hup
      exact (hclosed.trans (Opened.kept _).sameRecords).trans (upgrade_eq_ok hup).1
  · cases h

theorem openKeeper_keepsLots (cfg : Config) (file : GenesisFile) :
    Within (Chain.Keeps Store.HasLots) (Host.openKeeper cfg file) := by
  refine .bind (.check _) fun _ => .bind ?_ fun _ => .bind (.check _) fun k => .bind ?_ fun _ => ?_
  · exact Host.openTables_within.mono fun _ _ h => h.store.hasLots
  · refine .bind .get fun c => ?_
    split
    · exact .bind (.check _) fun g =>
        load_keeps Store.hasLots_lasting Store.hasLots_putParams g
    · exact .pure
  · exact .bind (.note _) fun _ => .pure

namespace Store

variable {s t : Store}

theorem written_hasLots (hs : s.HasLots) {x : Except StoreError Store}
    (h : ∀ t, x = .ok t → t.HasLots) : (s.written x).2.HasLots := by
  cases x with
  | ok t => exact h t rfl
  | error e => exact hs

theorem serve_hasLots (h : s.HasLots) (r : Request) : (s.serve r).2.HasLots := by
  cases r with
  | takeId =>
    rw [serve]
    split
    · rename_i ht
      exact hasLots_lasting.takeId ht h
    · exact h
  | setNextId id => exact hasLots_lasting.setNextId s id h
  | putProposal id b => exact written_hasLots h fun _ ht => hasLots_lasting.putProposal ht h
  | putVote id a b => exact hasLots_lasting.putVote s id a b h
  | putLot a id b => exact written_hasLots h fun _ ht => hasLots_lasting.putLot ht h
  | lotsOf a => exact hasLots_lasting.countScan s h
  | putParams b => exact hasLots_putParams s b h
  | reopen size =>
    refine written_hasLots h fun t ht => ?_
    cases s with
    | memory m =>
      cases ht
      exact h
    | tables u =>
      simp only [reopen] at ht
      split at ht
      · rename_i u' hu
        cases ht
        exact SameTables.hasLots (s := .tables u) (t := .tables u') (TableStore.reopen_eq_ok hu) h
      · cases ht
  | _ => exact h

end Store

/-- What can happen to a chain: an operation of some keeper, a genesis that is loaded, a keeper that
is opened, or a request to the store itself. -/
inductive Happening
  | operation (k : Keeper) (op : Operation)
  | load (g : Genesis)
  | openKeeper (cfg : Config) (file : GenesisFile)
  | request (r : Request)

namespace Happening

def apply (c : Chain) : Happening → Chain
  | .operation k op => (k.moment op c).after
  | .load g => final (g.load c)
  | .openKeeper cfg file => final (Host.openKeeper cfg file c)
  | .request r => { c with store := (c.store.serve r).2 }

theorem hasLots {c : Chain} (h : c.store.HasLots) (x : Happening) : (x.apply c).store.HasLots := by
  cases x with
  | operation k op =>
    rw [apply, Keeper.final_act]
    exact Operation.act_keeps Store.hasLots_lasting (fun _ _ _ s => s.hasLots_putParams _) c h
  | load g => exact load_keeps Store.hasLots_lasting Store.hasLots_putParams g c h
  | openKeeper cfg file => exact openKeeper_keepsLots cfg file c h
  | request r => exact Store.serve_hasLots h r

end Happening

/-! ### Two banks -/

/-- The chains have one store, with a lot in it, and one block; ledgers, registries and what fails of
them may be any two. -/
structure Chain.SameBallots (c d : Chain) : Prop where
  store : d.store = c.store
  block : d.block = c.block
  lots : c.store.HasLots

section Respects

variable {α : Type}

theorem read_respects_ballots (g : Store → Except GovernanceError α) :
    Respects Chain.SameBallots (read g) :=
  .read fun _ _ h => by rw [h.store]

theorem note_respects_ballots (n : Notice) : Respects Chain.SameBallots (note n) :=
  fun _ _ h => .ok ⟨h.store, h.block, h.lots⟩

theorem height_respects_ballots : Respects Chain.SameBallots height :=
  .of_get (fun _ _ h => by rw [h.block]) .pure

theorem scanLots_respects_ballots (voter : Address) : Respects Chain.SameBallots (scanLots voter) := by
  refine .bind (fun c d h => .ok ⟨?_, h.block, ?_⟩) fun _ => read_respects_ballots _
  · exact congrArg Store.countScan h.store
  · exact Store.hasLots_lasting.countScan _ h.lots

theorem votingPower_respects_ballots (voter : Address) (now : Height) :
    Respects Chain.SameBallots (votingPower voter now) := by
  refine .bind (read_respects_ballots _) fun params => ?_
  let counted : Action Amount :=
    scanLots voter >>= fun lots => check (lotPower lots now params.decay) >>= fun power =>
      note (.powerComputed voter now power) >>= fun _ => pure power
  refine .of_get_eq (x := counted) (fun c d h => ?_) ?_
  · have hc : PowerMode.ofStore c.store = .lots := if_pos h.lots
    have hd : PowerMode.ofStore d.store = .lots := h.store ▸ hc
    simp only [hc, hd]
    exact ⟨rfl, rfl⟩
  · refine .bind (scanLots_respects_ballots _) fun lots => .bind (.check _) fun power => ?_
    exact .bind (note_respects_ballots _) fun _ => .pure _

theorem positivePower_respects_ballots (voter : Address) :
    Respects Chain.SameBallots (positivePower voter) := by
  refine .bind height_respects_ballots fun now => ?_
  refine .bind (votingPower_respects_ballots _ _) fun power => ?_
  dsimp only
  split
  · exact .throw_bind _
  · exact .pure _

theorem refuseInactive_respects_ballots (p : Proposal) (id : UInt64) :
    Respects Chain.SameBallots (refuseInactive p id) := by
  unfold refuseInactive
  split
  · exact .bind (note_respects_ballots _) fun _ => .throw_bind _
  · refine .bind height_respects_ballots fun _ => ?_
    split
    · exact .throw _
    · exact .pure _

theorem refuseSecondVote_respects_ballots (id : UInt64) (voter : Address) :
    Respects Chain.SameBallots (refuseSecondVote id voter) := by
  refine .bind (read_respects_ballots _) fun v => ?_
  split
  · exact .throw _
  · exact .pure _

theorem setVote_respects_ballots (v : Vote) :
    Respects Chain.SameBallots (write fun s => .ok (s.setVote v)) :=
  fun c _ h => .ok ⟨congrArg (fun s : Store => s.setVote v) h.store, h.block,
    Store.hasLots_lasting.putVote c.store _ _ _ h.lots⟩

theorem emit_respects_ballots (e : Event) : Respects Chain.SameBallots (emit e) :=
  fun _ _ h => .ok ⟨h.store, congrArg (Block.emit · e) h.block, h.lots⟩

theorem castVote_respects_ballots (id : UInt64) (voter : String) (option : VoteOption) :
    Respects Chain.SameBallots (castVote id voter option) := by
  refine .bind (.check _) fun voter => .bind (read_respects_ballots _) fun p => ?_
  refine .bind (refuseInactive_respects_ballots _ _) fun _ => ?_
  refine .bind (refuseSecondVote_respects_ballots _ _) fun _ => ?_
  dsimp only
  split
  · exact .throw_bind _
  · exact .bind (positivePower_respects_ballots _) fun _ =>
      .bind (setVote_respects_ballots _) fun _ => .bind (emit_respects_ballots _) fun _ =>
        note_respects_ballots _

end Respects

/-! ### Votes beside two banks -/

def Incident.SparesStore (i : Incident) : Prop := ∀ c, (i.apply c).store = c.store

/-- The same vote or the same new block; or whatever happens to the banks. -/
inductive Operation.SameBallot : Operation → Operation → Prop
  | vote (id : UInt64) (voter : String) (option : VoteOption) :
      SameBallot (.vote id voter option) (.vote id voter option)
  | moveTo (h : Height) : SameBallot (.moveTo h) (.moveTo h)
  | incident {i j : Incident} (hi : i.SparesStore) (hj : j.SparesStore) :
      SameBallot (.incident i) (.incident j)

structure Moment.SameVotes (m n : Moment) : Prop where
  result : n.result = m.result
  events : n.events = m.events
  store : n.after.store = m.after.store

theorem Incident.block_apply (i : Incident) (c : Chain) : (i.apply c).block = c.block := by
  cases i <;> rfl

variable {c d : Chain} {k k' : Keeper}

theorem Operation.SameBallot.alike {op op' : Operation} (h : op.SameBallot op')
    (hcd : c.SameBallots d) : Alike Chain.SameBallots (op.act k c) (op'.act k' d) := by
  cases h with
  | vote id voter option => exact (castVote_respects_ballots id voter option).map _ c d hcd
  | moveTo h => exact .ok ⟨hcd.store, congrArg (Block.moveTo · h) hcd.block, hcd.lots⟩
  | @incident i j hi hj =>
    refine .ok ⟨?_, ?_, ?_⟩
    · rw [hi, hj, hcd.store]
    · rw [i.block_apply, j.block_apply, hcd.block]
    · rw [hi]
      exact hcd.lots

theorem Keeper.moment_sameVotes {op op' : Operation} (hcd : c.SameBallots d)
    (h : Alike Chain.SameBallots (op.act k c) (op'.act k' d)) :
    (k.moment op c).SameVotes (k'.moment op' d) ∧
      (k.moment op c).after.SameBallots (k'.moment op' d).after := by
  unfold Keeper.moment
  generalize op.act k c = r at h ⊢
  generalize op'.act k' d = s at h ⊢
  cases h with
  | ok h | error h =>
    refine ⟨⟨rfl, ?_, h.store⟩, h⟩
    simp only [Moment.events, h.block, hcd.block]

theorem Keeper.history_sameVotes {ops ops' : List Operation}
    (hops : List.Forall₂ Operation.SameBallot ops ops') (hcd : c.SameBallots d) :
    List.Forall₂ Moment.SameVotes (k.history ops c) (k'.history ops' d) := by
  induction hops generalizing c d with
  | nil => exact .nil
  | cons h _ ih =>
    obtain ⟨hm, hcd⟩ := Keeper.moment_sameVotes hcd (h.alike hcd)
    exact .cons hm (ih hcd)

/-- Once a store has a lot, power is counted in lots whatever happens; and two keepers of one such
store answer all votes alike, whatever the banks have and whatever happens to them. -/
theorem lots_decide (h : c.store.HasLots) :
    (∀ xs : List Happening, PowerMode.ofStore (xs.foldl Happening.apply c).store = .lots) ∧
    ∀ (k k' : Keeper) (d : Chain) (ops ops' : List Operation), d.store = c.store →
      d.block = c.block → List.Forall₂ Operation.SameBallot ops ops' →
        List.Forall₂ Moment.SameVotes (k.history ops c) (k'.history ops' d) := by
  constructor
  · intro xs
    suffices hlots : (xs.foldl Happening.apply c).store.HasLots from if_pos hlots
    induction xs generalizing c with
    | nil => exact h
    | cons x xs ih => exact ih (Happening.hasLots h x)
  · intro k k' d ops ops' hstore hblock hops
    exact Keeper.history_sameVotes hops ⟨hstore, hblock, h⟩

namespace Sample

def counted : Chain := loaded ⟨.default, [opened], [], [⟨proposer, 0, 9, ⟨0⟩⟩], 1⟩

def countedRich : Chain := (Incident.fund keeper.authority ⟨"udnsc", 1000⟩).apply counted

def ballots (i : Incident) : List Operation :=
  [.incident i, .vote 0 keeper.authority.text .no, .vote 0 proposer.text .yes]

theorem ballots_same {i j : Incident} (hi : i.SparesStore) (hj : j.SparesStore) :
    List.Forall₂ Operation.SameBallot (ballots i) (ballots j) :=
  .cons (.incident hi hj) (.cons (.vote ..) (.cons (.vote ..) .nil))

end Sample

theorem counted_lots_decide :
    PowerMode.ofStore ([.operation Sample.keeper .endBlock, .load (Sample.withVotes []),
      .request (.reopen 0)].foldl Happening.apply Sample.counted).store = .lots ∧
    ∃ ms ns, ms = Sample.keeper.history (Sample.ballots (.failBalance true)) Sample.counted ∧
      ns = Sample.keeper.history (Sample.ballots (.fund Sample.proposer ⟨"udnsc", 5⟩))
        Sample.countedRich ∧
      ms.map (fun m => (m.result.toOption, m.events)) =
        [(some .done, []), (none, []),
          (some .done, [.voteCast ⟨0, Sample.proposer, .yes, 9⟩])] ∧
      List.Forall₂ Moment.SameVotes ms ns := by
  have h := lots_decide (c := Sample.counted) (by unfold Store.HasLots; decide +kernel)
  have hrich : Sample.countedRich.store = Sample.counted.store ∧
      Sample.countedRich.block = Sample.counted.block := ⟨rfl, rfl⟩
  refine ⟨h.1 _, _, _, rfl, rfl, by decide +kernel, ?_⟩
  exact h.2 _ _ _ _ _ hrich.1 hrich.2 (Sample.ballots_same (fun _ => rfl) fun _ => rfl)

end DaoGovernance
