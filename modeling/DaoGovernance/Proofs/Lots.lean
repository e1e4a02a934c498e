import DaoGovernance.Proofs.Genesis.Export
import Mathlib

/-!
Lots are written once.  No check keeps the lots of a genesis off the ids that are still to be taken
or that open proposals have, so that these lots, and no others, may be written over.
-/

namespace DaoGovernance

open DaoGovernance.Action

variable {k : Keeper} {params : Params} {c c' d : Chain} {p : Proposal} {l : Lot}
  {key : Address × UInt64}

/-! ### Grants -/

def Proposal.Earns (denom : String) (p : Proposal) : Prop :=
  ∃ recipient amount activity,
    p.content.unpack = .ok (.requestTokens recipient amount activity) ∧ amount.amountOf denom ≠ 0

structure Lot.Pays (denom : String) (l : Lot) (p : Proposal) : Prop where
  proposal : l.proposal = p.id
  content : ∃ amount activity,
    p.content.unpack = .ok (.requestTokens l.voter.text amount activity) ∧
      l.initial = amount.amountOf denom
  positive : l.initial ≠ 0

theorem Lot.Pays.congr {denom : String} {q : Proposal} (h : l.Pays denom p) (hid : q.id = p.id)
    (hcontent : q.content = p.content) : l.Pays denom q :=
  ⟨h.proposal.trans hid.symm, hcontent ▸ h.content, h.positive⟩

theorem Finalizes.lots {s : Settled} (h : Finalizes k params p c s d) :
    d.store.lotAt = c.store.lotAt ∧ (s.finalized.outcome = .executed →
      c.store.view.failLots = false → ¬ p.Earns params.votingDenom) ∨
    ∃ l : Lot, s.finalized.outcome = .executed ∧ l.Pays params.votingDenom p ∧
      l.granted = c.block.height ∧
      d.store.lotAt = Function.update c.store.lotAt l.key (some l.encode) := by
  by_cases ho : s.finalized.outcome = .executed
  · obtain ⟨content, hunpack, henacts⟩ := h.enacts ho
    cases henacts with
    | permitted _ hl =>
      refine .inl ⟨hl, fun _ _ => ?_⟩
      rintro ⟨r, amount, activity, hunpack', -⟩
      rw [hunpack] at hunpack'
      cases hunpack'
    | paid hn hk =>
      refine .inl ⟨hk.lots, fun _ hw => ?_⟩
      rintro ⟨r, amount, activity, hunpack', hpositive⟩
      rw [hunpack] at hunpack'
      cases hunpack'
      rcases hn with hzero | hfail
      · exact hpositive hzero
      · rw [hfail] at hw
        cases hw
    | @granted a amount activity l hl hz _ hlots =>
      subst hl
      exact .inr ⟨_, ho, ⟨rfl, ⟨amount, activity, hunpack, rfl⟩, hz⟩, rfl, hlots⟩
  · exact .inl ⟨(h.grants.kept ho).lots, fun h => absurd h ho⟩

/-! ### Lots that may be written over -/

/-- A lot under this key may be written: its id is still to be taken, or it is that of an open
proposal that asks for tokens for its voter. -/
def Chain.Exposed (c : Chain) (key : Address × UInt64) : Prop :=
  c.store.view.nextId.toNat ≤ key.2.toNat ∨
    ∃ p amount activity, c.HasOpen key.2 p ∧
      p.content.unpack = .ok (.requestTokens key.1.text amount activity)

/-- From `c` to `d` only exposed lots were written, and these are exposed no more. -/
structure Chain.Shelters (c d : Chain) : Prop where
  exposed : ∀ key, d.Exposed key → c.Exposed key
  lots : ∀ key, d.store.lotAt key = c.store.lotAt key ∨ c.Exposed key ∧ ¬ d.Exposed key

namespace Chain.Shelters

theorem trans (h : c.Shelters c') (k : c'.Shelters d) : c.Shelters d := by
  refine ⟨fun key he => h.exposed key (k.exposed key he), fun key => ?_⟩
  rcases k.lots key with hsame | ⟨he, hn⟩
  · rcases h.lots key with hsame' | ⟨he, hn⟩
    · exact .inl (hsame.trans hsame')
    · exact .inr ⟨he, fun hd => hn (k.exposed key hd)⟩
  · exact .inr ⟨h.exposed key he, hn⟩

theorem of_same (hn : c.store.view.nextId.toNat ≤ d.store.view.nextId.toNat)
    (hv : d.store.view.proposals = c.store.view.proposals)
    (hl : d.store.lotAt = c.store.lotAt) : c.Shelters d := by
  refine ⟨fun key he => ?_, fun key => .inl (congrFun hl key)⟩
  rcases he with hlate | ⟨p, amount, activity, ⟨hp, ho⟩, hunpack⟩
  · exact .inl (hn.trans hlate)
  · rw [Store.View.proposal_congr (congrFun hv _)] at hp
    exact .inr ⟨p, amount, activity, ⟨hp, ho⟩, hunpack⟩

protected theorem refl (c : Chain) : c.Shelters c := of_same (Nat.le_refl _) rfl rfl

theorem opens {s : Submission} (hs : s.Fits) (ho : Opens k s c p d) : c.Shelters d := by
  refine ⟨fun key he => ?_, fun key => .inl (congrFun ho.lots key)⟩
  have hid := ho.id_eq
  rcases he with hlate | ⟨q, amount, activity, hq, hunpack⟩
  · rw [ho.nextId, hid] at hlate
    exact .inl (by omega)
  · rcases ho.hasOpen hs hq with ⟨hnew, -⟩ | hq
    · rw [Exposed, hnew, hid]
      exact .inl (Nat.le_refl _)
    · exact .inr ⟨q, amount, activity, hq, hunpack⟩

theorem finalizing {s : Settled} (hw : c.WellKept) (hf : Finalizing k params p c s d) :
    c.Shelters d := by
  -- The id of `p` was taken before and its voting is over, so no lot of it is exposed any more.
  have hshrink : ∀ key, d.Exposed key → c.Exposed key ∧ key.2 ≠ p.id := by
    intro key he
    rcases he with hlate | ⟨q, amount, activity, hq, hunpack⟩
    · rw [hf.nextId] at hlate
      refine ⟨.inl hlate, fun hid => ?_⟩
      obtain ⟨b, hb, -⟩ := Store.View.proposal_eq_some.1 hf.stored
      rw [hid] at hlate
      exact absurd (hw.below p.id b hb) (by omega)
    · obtain ⟨hid, hq⟩ := hf.hasOpen hq
      exact ⟨.inr ⟨q, amount, activity, hq, hunpack⟩, hid⟩
  refine ⟨fun key he => (hshrink key he).1, fun key => ?_⟩
  rcases hf.lots with ⟨hl, -⟩ | ⟨l, -, hpays, -, hl⟩
  · exact .inl (congrFun hl key)
  · by_cases hkey : key = l.key
    · subst hkey
      obtain ⟨amount, activity, hunpack, -⟩ := hpays.content
      have hopen : c.HasOpen l.proposal p := hpays.proposal ▸ ⟨hf.stored, hf.isOpen⟩
      refine .inr ⟨.inr ⟨p, amount, activity, hopen, hunpack⟩, fun he => ?_⟩
      exact (hshrink _ he).2 hpays.proposal
    · rw [hl]
      exact .inl (Function.update_of_ne hkey _ _)

end Chain.Shelters

theorem shelters_invariant (k : Keeper) (c : Chain) :
    Invariant k Operation.Fits fun _ d => c.Shelters d := by
  apply Invariant.of_records
  · intro _ c' d h hs
    exact h.trans (.of_same hs.nextId hs.proposals hs.lots)
  · intro _ c' d s p _ _ hA _ h ho
    exact h.trans (.opens hA ho)
  · intro _ c' d v _ h hv
    exact h.trans (.of_same (by rw [hv.view]) (by rw [hv.view]) hv.lots)
  · intro _ c' d params p s hw h hf
    exact h.trans (.finalizing hw hf)

/-! ### From a genesis on -/

namespace Genesis

variable {g : Genesis} {s t : Store}

/-- The genesis has a lot under the key, which may be written over. -/
def Exposes (g : Genesis) (key : Address × UInt64) : Prop :=
  (∃ l ∈ g.lots, l.key = key) ∧ (g.nextId.toNat ≤ key.2.toNat ∨
    ∃ p ∈ g.proposals, p.id = key.2 ∧ p.isOpen = true ∧
      ∃ amount activity, p.content.unpack = .ok (.requestTokens key.1.text amount activity))

theorem Fills.mem_proposals (hfill : g.Fills s t) (hs : s.IsEmpty) (hfits : g.Fits) {id : UInt64}
    (hp : t.view.proposal id = some p) : p ∈ g.proposals ∧ p.id = id := by
  obtain ⟨b, hb, hdec⟩ := Store.View.proposal_eq_some.1 hp
  rw [(hfill.view_eq hs).1, overwrite_eq_some] at hb
  rcases hb with ⟨q, hq, rfl, rfl⟩ | ⟨-, hb⟩
  · have hq := (latest_sublist _ _).subset hq
    rw [Proposal.decode_encode (hfits.2 q hq)] at hdec
    cases hdec
    exact ⟨hq, rfl⟩
  · cases hb

theorem Fills.exposes (hfill : g.Fills s c.store) (hs : s.IsEmpty) (hfits : g.Fits) {b : Bytes}
    (hb : c.store.lotAt key = some b) (he : c.Exposed key) : g.Exposes key := by
  constructor
  · rw [(hfill.view_eq hs).2.2, overwrite_eq_some] at hb
    rcases hb with ⟨l, hl, hkey, -⟩ | ⟨-, hb⟩
    · exact ⟨l, (latest_sublist _ _).subset hl, hkey⟩
    · cases hb
  · rcases he with hlate | ⟨p, amount, activity, ⟨hp, ho⟩, hunpack⟩
    · rw [hfill.view] at hlate
      exact .inl hlate
    · obtain ⟨hmem, hid⟩ := hfill.mem_proposals hs hfits hp
      exact .inr ⟨p, hmem, hid, ho, amount, activity, hunpack⟩

end Genesis

/-- A lot that is stored at some point of a run is stored ever after, unless the genesis that the
run started from exposes it. -/
theorem lots_stay_of_load {g : Genesis} {u : Unit} {ops₁ ops₂ : List Operation}
    (hload : g.load c = .ok u d) (hempty : c.store.IsEmpty)
    (hsteady : c.faults.permitStopsWrites = false) (hfits : g.Fits)
    (hops : ∀ op ∈ ops₁ ++ ops₂, op.Fits) :
    ∃ ls ls', (k.after ops₁ d).store.everyLot = .ok ls ∧
      (k.after (ops₁ ++ ops₂) d).store.everyLot = .ok ls' ∧ (ls'.map Lot.key).Nodup ∧
      ∀ l ∈ ls, ¬ g.Exposes l.key → l ∈ ls' := by
  obtain ⟨hvalid, hfill⟩ := (Genesis.load_ends g).of_ok hload
  have hops₁ : ∀ op ∈ ops₁, op.Fits := fun op hop => hops op (by simp [hop])
  have hops₂ : ∀ op ∈ ops₂, op.Fits := fun op hop => hops op (by simp [hop])
  have hw := Genesis.wellKept_of_load hload hempty hsteady
  have hstart := hfill.consistent hempty hfits hvalid
  obtain ⟨n, hmid⟩ := consistent_after (k := k) hops₁ ⟨_, hstart⟩
  obtain ⟨m, hend⟩ := consistent_after (k := k) hops₂ ⟨_, hmid⟩
  obtain ⟨ls, hls, hlist⟩ := hmid.tidy.everyLot_eq
  obtain ⟨ls', hls', hlist'⟩ := hend.tidy.everyLot_eq
  rw [Keeper.after_append]
  refine ⟨ls, ls', hls, hls', hlist'.nodup, fun l hl hsafe => ?_⟩
  have hbefore := (shelters_invariant k d).run hops₁ hw (.refl d)
  have hafter := (shelters_invariant k (k.after ops₁ d)).run hops₂ (hw.after k ops₁) (.refl _)
  have hstored := ((hlist.mem l).1 hl).2
  rw [hlist'.mem]
  refine ⟨trivial, ?_⟩
  rcases hafter.lots l.key with hsame | ⟨he, -⟩
  · rw [hsame, hstored]
  -- A lot that is still exposed was there from the start.
  · rcases hbefore.lots l.key with hsame | ⟨-, hn⟩
    · rw [hsame] at hstored
      exact absurd (hfill.exposes hempty hfits hstored (hbefore.exposed _ he)) hsafe
    · exact absurd he hn

/-! ### A lot of a genesis -/

namespace Sample

def withLot (next : UInt64) : Genesis := ⟨.default, [], [], [⟨proposer, 0, 9, ⟨0⟩⟩], next⟩

def loaded (g : Genesis) : Chain := final (g.load (.fresh .emptyMemory))

theorem load_accepted {g : Genesis} (h : g.validate = .ok ()) :
    g.load (.fresh .emptyMemory) = .ok () (loaded g) := by
  obtain ⟨d, hd, -⟩ := Genesis.load_eq_ok (c := .fresh .emptyMemory) h rfl rfl
  rw [loaded, hd]
  rfl

theorem withLot_fits (next : UInt64) : (withLot next).Fits :=
  ⟨start_fresh.fits, fun p hp => by simp [withLot] at hp⟩

theorem withLot_not_exposes {next : UInt64} (h : next ≠ 0) : ¬ (withLot next).Exposes key := by
  rintro ⟨⟨l, hl, rfl⟩, hlate | ⟨p, hp, -⟩⟩
  · rw [List.mem_singleton.1 hl] at hlate
    exact h (UInt64.toNat_inj.1 (Nat.le_zero.1 hlate))
  · cases hp

def grantingNext : List Operation := granting.set 3 (.vote 1 proposer.text .yes)

theorem grantingNext_fit : ∀ op ∈ grantingNext, op.Fits := by
  intro op hop
  rcases List.mem_or_eq_of_mem_set hop with hop | rfl
  · exact granting_fit op hop
  · exact trivial

theorem withLot_stays :
    ∃ ls ls', (keeper.after [] (loaded (withLot 1))).store.everyLot = .ok ls ∧
      (keeper.after ([] ++ grantingNext) (loaded (withLot 1))).store.everyLot = .ok ls' ∧
      ls = [⟨proposer, 0, 9, ⟨0⟩⟩] ∧ ls' = [⟨proposer, 0, 9, ⟨0⟩⟩, ⟨proposer, 1, 7, ⟨501⟩⟩] ∧
      ∀ l ∈ ls, l ∈ ls' := by
  have hops : ∀ op ∈ [] ++ grantingNext, op.Fits := grantingNext_fit
  obtain ⟨ls, ls', hls, hls', -, hstay⟩ := lots_stay_of_load (k := keeper)
    (load_accepted (g := withLot 1) rfl) emptyMemory_isEmpty rfl (withLot_fits 1) hops
  have hfirst : (keeper.after [] (loaded (withLot 1))).store.everyLot.toOption =
      some [⟨proposer, 0, 9, ⟨0⟩⟩] := by decide +kernel
  have hlast : (keeper.after ([] ++ grantingNext) (loaded (withLot 1))).store.everyLot.toOption =
      some [⟨proposer, 0, 9, ⟨0⟩⟩, ⟨proposer, 1, 7, ⟨501⟩⟩] := by decide +kernel
  rw [hls] at hfirst
  rw [hls'] at hlast
  exact ⟨ls, ls', hls, hls', Option.some.inj hfirst, Option.some.inj hlast,
    fun l hl => hstay l hl (withLot_not_exposes (by decide))⟩

/-- The id of the lot is taken once more, and the grant writes over the lot. -/
theorem withLot_lost :
    (withLot 0).load (.fresh .emptyMemory) = .ok () (loaded (withLot 0)) ∧
      (loaded (withLot 0)).store.everyLot.toOption = some [⟨proposer, 0, 9, ⟨0⟩⟩] ∧
      (keeper.after granting (loaded (withLot 0))).store.everyLot.toOption =
        some [⟨proposer, 0, 7, ⟨501⟩⟩] :=
  ⟨load_accepted rfl, by decide +kernel, by decide +kernel⟩

end Sample

end DaoGovernance
