import DaoGovernance.Proofs.Consistency
import DaoGovernance.Proofs.Genesis.Loading
import Mathlib

/-!
From the store to a genesis and back.  What is taken from a store that a run left is accepted again,
and loading it into an empty store rebuilds every record, so that the same genesis is taken from
there.
-/

namespace DaoGovernance

open DaoGovernance.Action

variable {k : Keeper} {c : Chain} {g : Genesis} {s t e : Store} {n : UInt64}

namespace Genesis

theorem Tells.validate_eq_ok (ht : g.Tells s) (hs : s.Consistent n) : g.validate = .ok () := by
  rw [Genesis.validate_eq_ok]
  constructor
  · intro p hp
    rw [ht.nextId, hs.nextId]
    exact hs.below p.id _ ((ht.proposals.mem p).1 hp).2
  · intro v hv
    obtain ⟨b, hb⟩ := hs.cast _ _ _ ((ht.votes.mem v).1 hv).2
    obtain ⟨p, hid, hp, rfl⟩ := hs.proposals _ b hb
    exact ⟨p, (ht.proposals.mem p).2 ⟨hp, hid ▸ hb⟩, hid⟩

theorem Tells.paramsToWrite_eq (ht : g.Tells s) : g.paramsToWrite = g.params := by
  rw [paramsToWrite, ht.valid]

theorem Tells.agrees (ht : g.Tells s) (hs : s.Tidy) (hfill : g.Fills e t) (he : e.IsEmpty) :
    s.Agrees t := by
  obtain ⟨hp, hv, hl⟩ := hfill.view_eq he
  refine ⟨⟨?_, ?_, ?_, ?_⟩, ?_⟩
  · rw [hp, ht.proposals.overwrite_eq hs.proposals]
  · rw [hv, ht.votes.overwrite_eq hs.votes]
  · rw [hfill.view, ht.params, ht.paramsToWrite_eq]
  · rw [hfill.view, ht.nextId]
  · rw [hl, ht.lots.overwrite_eq hs.lots]

theorem Fills.consistent (hfill : g.Fills s t) (hs : s.IsEmpty) (hfits : g.Fits)
    (hvalid : g.validate = .ok ()) : t.Consistent g.nextId := by
  obtain ⟨hp, hv, -⟩ := hfill.view_eq hs
  obtain ⟨hids, hvotes⟩ := validate_eq_ok.1 hvalid
  refine { hfill.tidy hs hfits with
    nextId := by rw [hfill.view]
    below := fun id b hb => ?_
    cast := fun id a b hb => ?_ }
  · rw [hp, overwrite_eq_some] at hb
    rcases hb with ⟨p, hp, rfl, -⟩ | ⟨-, hb⟩
    · exact hids p ((latest_sublist _ _).subset hp)
    · cases hb
  · rw [hv, overwrite_eq_some] at hb
    rcases hb with ⟨v, hv, hkey, -⟩ | ⟨-, hb⟩
    · obtain ⟨rfl, rfl⟩ := Prod.mk.inj hkey
      obtain ⟨p, hmem, hid⟩ := hvotes v ((latest_sublist _ _).subset hv)
      have hin : v.proposal ∈ (latest Proposal.id g.proposals).map Proposal.id :=
        mem_map_latest.2 (hid ▸ List.mem_map_of_mem hmem)
      obtain ⟨q, hq, hid⟩ := List.mem_map.1 hin
      exact ⟨q.encode, by rw [hp, overwrite_eq_some]; exact .inl ⟨q, hq, hid, rfl⟩⟩
    · cases hb

theorem consistent_of_load {d : Chain} {u : Unit} (h : g.load c = .ok u d)
    (hempty : c.store.IsEmpty) (hfits : g.Fits) : ∃ n, d.store.Consistent n := by
  obtain ⟨hvalid, hfill⟩ := (load_ends g).of_ok h
  exact ⟨_, hfill.consistent hempty hfits hvalid⟩

/-- The genesis can be loaded into an empty store, and makes it list what `s` lists. -/
def Rebuilds (g : Genesis) (s : Store) (c : Chain) : Prop :=
  ∃ d, g.load c = .ok () d ∧ s.ListsAlike d.store ∧ d.store.nextId = s.nextId ∧
    d.store.toGenesis = .ok g

theorem Tells.rebuilds (ht : g.Tells s) (hs : s.Consistent n) (hg : s.toGenesis = .ok g)
    (hempty : c.store.IsEmpty) (hkind : c.store.isOnTables = s.isOnTables)
    (hp : c.store.view.failProposals = false) (hl : c.store.view.failLots = false) :
    g.Rebuilds s c := by
  obtain ⟨d, hd, hfill⟩ := load_eq_ok (ht.validate_eq_ok hs) hp hl
  have hkeyed := hfill.keyed hempty.keyed
  have ha := ht.agrees hs.tidy hfill hempty
  have hlists := ha.listsAlike hs.keyed hkeyed (hfill.isOnTables.trans hkind)
  have hnext := ha.nextId_eq hs.keyed hkeyed
  exact ⟨d, hd, hlists, hnext, (hlists.toGenesis_eq hnext).trans hg⟩

end Genesis

/-- From every store that a run leaves a genesis can be taken that is accepted again and rebuilds the
store.  The run starts with valid params and nothing else. -/
theorem exists_rebuilds_after {p : Params} {ops : List Operation} (hempty : e.IsEmpty)
    (hstore : c.store = e.putParams p.encode) (hfits : p.Fits) (hvalid : p.validate = .ok ())
    (hops : ∀ op ∈ ops, op.Fits) :
    ∃ g, (k.after ops c).store.toGenesis = .ok g ∧ g.validate = .ok () ∧
      ∀ fresh : Chain, fresh.store.IsEmpty →
        fresh.store.isOnTables = (k.after ops c).store.isOnTables →
        fresh.store.view.failProposals = false → fresh.store.view.failLots = false →
        g.Rebuilds (k.after ops c).store fresh := by
  have hstart := hempty.consistent hfits hvalid
  obtain ⟨n, hn⟩ := consistent_after (k := k) hops ⟨_, hstore ▸ hstart⟩
  obtain ⟨g, hg, ht⟩ := hn.tidy.toGenesis_eq
  exact ⟨g, hg, ht.validate_eq_ok hn, fun fresh => ht.rebuilds hn hg⟩

namespace Sample

def granting : List Operation := [
  .incident (.fund proposer ⟨"stake", 10000000⟩),
  .incident (.fund proposer ⟨"udnsc", 5⟩),
  .submit ⟨proposer.text, "Grant", "",
    some (Content.requestTokens proposer.text ⟨[⟨"udnsc", 7⟩]⟩ "Work").pack, .empty⟩,
  .vote 0 proposer.text .yes,
  .moveTo ⟨501⟩,
  .endBlock]

theorem granting_fit : ∀ op ∈ granting, op.Fits := by
  intro op hop
  fin_cases hop <;> try exact trivial
  refine ⟨by decide, by decide, ?_⟩
  rintro e ⟨⟩
  decide

theorem granting_rebuilds :
    ∃ g, (keeper.after granting start).store.toGenesis = .ok g ∧
      (g.proposals.length, g.votes.length, g.lots.length) = (1, 1, 1) ∧ g.validate = .ok () ∧
      g.Rebuilds (keeper.after granting start).store (.fresh .emptyMemory) := by
  obtain ⟨g, hg, hv, hr⟩ := exists_rebuilds_after (k := keeper) (c := start) emptyMemory_isEmpty rfl
    start_fresh.fits start_fresh.valid granting_fit
  have hcount : (keeper.after granting start).store.toGenesis.toOption.map (fun g =>
      (g.proposals.length, g.votes.length, g.lots.length)) = some (1, 1, 1) := by decide +kernel
  rw [hg] at hcount
  exact ⟨g, hg, Option.some.inj hcount, hv, hr _ emptyMemory_isEmpty (by decide +kernel) rfl rfl⟩

end Sample

end DaoGovernance
