import DaoGovernance.Proofs.Closing
import DaoGovernance.Proofs.Escrow
import DaoGovernance.Proofs.Filing
import Mathlib

/-!
Whether a proposal can be finalized at all.  Its voting ends a voting period after its submission, and
is over at any later height; but where the sum stops at the last height there is, no height is later.
-/

namespace DaoGovernance

open DaoGovernance.Action

variable {k : Keeper} {params : Params} {c d : Chain} {p : Proposal} {s : Settled}

/-! ### The end of a voting -/

/-- Some height is after the voting. -/
def Proposal.Expires (p : Proposal) : Prop := ∃ h, p.isClosedAt h = true

theorem Proposal.expires_iff : p.Expires ↔ p.votingEnd.number.toNat < 2 ^ 64 - 1 := by
  simp only [Expires, isClosedAt, Height.isAfter, decide_eq_true_eq, UInt64.lt_iff_toNat_lt]
  constructor
  · rintro ⟨h, hlt⟩
    have := h.number.toNat_lt
    omega
  · intro hlt
    exact ⟨.last, hlt⟩

theorem Submission.Describes.expires_iff {s : Submission} {content : Content}
    (h : s.Describes c params content p) :
    p.Expires ↔ c.block.height.number.toNat + params.votingPeriod.toNat < 2 ^ 64 - 1 := by
  rw [Proposal.expires_iff, h.votingEnd, min_lt_iff, or_iff_left (lt_irrefl _)]

/-! ### One pass -/

/-- The pass at `c` finalized `p` and settled its deposit as `s` tells. -/
structure Keeper.Concludes (k : Keeper) (p : Proposal) (c : Chain) (s : Settled) (d : Chain) :
    Prop where
  passes : k.endBlock c = .ok ((k.settledAt c).map (·.finalized)) d
  mem : s ∈ k.settledAt c
  id : s.finalized.id = p.id
  stored : ∃ t, d.store.proposal p.id = .ok (p.finish t s.finalized.outcome)
  settles : ∃ params, c.store.params = .ok params ∧
    k.Settles p (params.heldFor p) s.held s.finalized.outcome s.finalized.settlement s.left
  /-- If the deposits were there, nothing but a switch kept it from being refunded or burned. -/
  excused : ∀ q, c.Escrowed k q → d.ledger.overflowed = false → s.finalized.Excused c

theorem Chain.WellKept.concludes (hw : c.WellKept) (k : Keeper)
    (hparams : c.store.params = .ok params) (hworks : c.store.view.failProposals = false)
    (hp : c.store.proposal p.id = .ok p) (hopen : p.isOpen = true)
    (hclosed : p.isClosedAt c.block.height = true) : ∃ s d, k.Concludes p c s d := by
  obtain ⟨fs, d, hblock, -, f, hf, hid, -, hstored⟩ :=
    (hw.passable hparams hworks).decides k hp hopen hclosed
  obtain ⟨hends, rfl⟩ := hw.endsBlock hblock
  obtain ⟨s, hs, rfl⟩ := List.mem_map.1 hf
  obtain ⟨params', x, c', d', hparams', hx, hfin, -⟩ := hends.finalizing hw hs
  obtain rfl : x = p := Except.ok.inj (hx.symm.trans (hid.symm ▸ hp))
  exact ⟨s, d, hblock, hs, hid, ⟨_, hstored⟩, ⟨params', hparams', hfin.settles⟩,
    fun q he ho => hends.excused hw he ho s hs⟩

theorem Keeper.Concludes.expires (h : k.Concludes p c s d) (hw : c.WellKept)
    (hp : c.store.proposal p.id = .ok p) : p.Expires := by
  obtain ⟨params, x, c', d', -, hx, hfin, -⟩ := (hw.endsBlock h.passes).1.finalizing hw h.mem
  obtain rfl : x = p := Except.ok.inj (hx.symm.trans (h.id.symm ▸ hp))
  exact ⟨c'.block.height, hfin.isClosed⟩

/-! ### Runs -/

/-- While `p` stays open in a run, any pass from `h` on at which proposals can be written concludes
it. -/
def Keeper.ConcludesFrom (k : Keeper) (h : Height) (p : Proposal) (c : Chain) : Prop :=
  ∀ ops, (∀ op ∈ ops, op.Fits) → ∀ b : Block, h.number ≤ b.height.number →
    (k.after ops c).store.proposal p.id = .ok p →
    (k.after ops c).store.view.failProposals = false →
      ∃ s d, k.Concludes p { k.after ops c with block := b } s d

theorem Chain.WellKept.within (hw : c.WellKept) (b : Block) :
    Chain.WellKept { c with block := b } := hw.of_same rfl id rfl (Nat.le_refl _)

theorem Chain.WellKept.concludesFrom {h : Height} (hw : c.WellKept)
    (hc : ∃ n, c.store.Consistent n) (hopen : p.isOpen = true) (hclosed : p.isClosedAt h = true) :
    k.ConcludesFrom h p c := by
  intro ops hops b hle hp hworks
  obtain ⟨n, hc⟩ := consistent_after (k := k) hops hc
  obtain ⟨params, hparams, hfits, -⟩ := hc.params
  exact ((hw.after k ops).within b).concludes k (Store.params_eq hfits hparams) hworks hp hopen
    (Proposal.isClosedAt_mono hle hclosed)

theorem Chain.WellKept.stays_open (hw : c.WellKept) (hnever : ¬ p.Expires)
    (hp : c.store.proposal p.id = .ok p) (ops : List Operation) :
    (k.after ops c).store.proposal p.id = .ok p := by
  induction ops generalizing c with
  | nil => exact hp
  | cons op ops ih =>
    have hstep := changes_moment k hw op
    obtain ⟨b, hb, hdec⟩ := Store.View.proposal_eq_some.1 (Store.proposal_eq_ok.1 hp)
    obtain ⟨b', hb', rfl | ⟨-, q, t, o, hq, -, hclosed, -⟩⟩ := hstep.records hw hb
    · refine ih (hw.changes hstep) (Store.proposal_eq_ok.2 ?_)
      exact Store.View.proposal_eq_some.2 ⟨b', hb', hdec⟩
    · rw [hdec] at hq
      cases hq
      exact absurd ⟨_, hclosed⟩ hnever

theorem Incident.switches_writes_on (c : Chain) :
    ((Incident.failProposals false).apply c).store.view.failProposals = false := by
  cases h : c.store <;> simp only [apply, h] <;> rfl

theorem Chain.WellKept.concludesFrom_iff (hw : c.WellKept) (hc : ∃ n, c.store.Consistent n)
    (hp : c.store.proposal p.id = .ok p) (hopen : p.isOpen = true) :
    (∃ h, k.ConcludesFrom h p c) ↔ p.Expires := by
  refine ⟨?_, fun ⟨h, hclosed⟩ => ⟨h, hw.concludesFrom hc hopen hclosed⟩⟩
  rintro ⟨h, hconcludes⟩
  by_contra hnever
  -- In the pass at `h` itself, with writes switched on just before.
  have hp' := hw.stays_open (k := k) hnever hp [.incident (.failProposals false)]
  obtain ⟨s, d, hpass⟩ := hconcludes _ (by simp [Operation.Fits]) ⟨h, []⟩ (UInt64.le_refl _) hp'
    (Incident.switches_writes_on c)
  exact hnever (hpass.expires ((hw.after k _).within _) hp')

/-! ### Submissions -/

section Submitted

variable {g : Genesis} {u : Unit} {c₀ : Chain} {ops : List Operation} {x : Submission} {id : UInt64}

theorem submitted_of_load (hload : g.load c₀ = .ok u c) (hempty : c₀.store.IsEmpty)
    (hsteady : c₀.faults.permitStopsWrites = false) (hfits : g.Fits) (hops : ∀ op ∈ ops, op.Fits)
    (b : Block) (hx : x.Fits) (h : k.submit x { k.after ops c with block := b } = .ok id d) :
    d.WellKept ∧ (∃ n, d.store.Consistent n) ∧ ∃ params p,
      (k.after ops c).store.params = .ok params ∧ p.id = id ∧ d.store.proposal p.id = .ok p ∧
        p.isOpen = true ∧
        (p.Expires ↔ b.height.number.toNat + params.votingPeriod.toNat < 2 ^ 64 - 1) := by
  have hw := ((Genesis.wellKept_of_load hload hempty hsteady).after k ops).within b
  obtain ⟨n, hc⟩ := consistent_after (k := k) hops (Genesis.consistent_of_load hload hempty hfits)
  obtain ⟨p, hid, hfiles⟩ := files_of_submit (c := { k.after ops c with block := b }) hc hx h
  obtain ⟨q, -, hopens⟩ := (submit_ends hw.sound x).of_ok h
  obtain ⟨params, e, content, deposit, hparams, -, -, hdescribes, -⟩ := hfiles.exists_content
  exact ⟨hw.opens hopens, Within.of_ok (submit_consistent hx) h ⟨n, hc⟩, params, p, hparams, hid,
    hfiles.stored, decide_eq_true hdescribes.status, hdescribes.expires_iff⟩

/-- After any run from an accepted genesis, a proposal that is submitted in any block is concluded from
some height on, just if its voting period ends before the last height.  Else it stays open forever. -/
theorem concluded_iff_of_load (hload : g.load c₀ = .ok u c) (hempty : c₀.store.IsEmpty)
    (hsteady : c₀.faults.permitStopsWrites = false) (hfits : g.Fits) (hops : ∀ op ∈ ops, op.Fits)
    (b : Block) (hx : x.Fits) (h : k.submit x { k.after ops c with block := b } = .ok id d) :
    ∃ params p, (k.after ops c).store.params = .ok params ∧ p.id = id ∧
      d.store.proposal p.id = .ok p ∧ p.isOpen = true ∧
      ((∃ h, k.ConcludesFrom h p d) ↔
        b.height.number.toNat + params.votingPeriod.toNat < 2 ^ 64 - 1) ∧
      (2 ^ 64 - 1 ≤ b.height.number.toNat + params.votingPeriod.toNat →
        ∀ ops', (k.after ops' d).store.proposal p.id = .ok p) := by
  obtain ⟨hw, hc, params, p, hparams, hid, hp, hopen, hexpires⟩ :=
    submitted_of_load hload hempty hsteady hfits hops b hx h
  refine ⟨params, p, hparams, hid, hp, hopen, ?_, fun hlate => hw.stays_open ?_ hp⟩
  · rw [hw.concludesFrom_iff hc hp hopen, hexpires]
  · rw [hexpires]
    exact hlate.not_gt

end Submitted

namespace Sample

def withParams (p : Params) : Genesis := ⟨p, [], [], [], 0⟩

/-- Votings take as many blocks as a word can tell. -/
def endless : Params := { Params.default with votingPeriod := 0xFFFFFFFFFFFFFFFF }

def funding : Operation := .incident (.fund proposer ⟨"stake", 100000000⟩)

def payable (p : Params) : Chain :=
  { keeper.after [funding] (loaded (withParams p)) with block := ⟨⟨1000⟩, []⟩ }

theorem funding_fits : ∀ op ∈ [funding], op.Fits := by
  intro op hop
  rw [List.mem_singleton.1 hop]
  exact trivial

theorem submission_fits : submission.Fits :=
  operations_fit (.submit submission) (by simp [operations, voting])

theorem withParams_fits {p : Params} (h : p.Fits) : (withParams p).Fits := ⟨h, by simp [withParams]⟩

theorem votingPeriod_of_funded {p params : Params} {n : UInt64}
    (hparams : (keeper.after [funding] (loaded (withParams p))).store.params = .ok params)
    (h : (keeper.after [funding] (loaded (withParams p))).store.params.toOption.map
      (·.votingPeriod) = some n) : params.votingPeriod = n := by
  rw [hparams] at h
  exact Option.some.inj h

end Sample

theorem default_concluded :
    ∃ d p h, Sample.keeper.submit Sample.submission (Sample.payable .default) = .ok 0 d ∧
      p.id = 0 ∧ Sample.keeper.ConcludesFrom h p d := by
  obtain ⟨d, hd⟩ := exists_ok (x := Sample.keeper.submit Sample.submission)
    (c := Sample.payable .default) (a := 0) (by decide +kernel)
  obtain ⟨params, p, hparams, hid, -, -, hiff, -⟩ := concluded_iff_of_load
    (Sample.load_accepted rfl) Sample.emptyMemory_isEmpty rfl
    (Sample.withParams_fits Sample.start_fresh.fits) Sample.funding_fits ⟨⟨1000⟩, []⟩
    Sample.submission_fits hd
  have hperiod := Sample.votingPeriod_of_funded (n := 500) hparams (by decide +kernel)
  obtain ⟨h, hconcludes⟩ := hiff.2 (by rw [hperiod]; decide)
  exact ⟨d, p, h, hd, hid, hconcludes⟩

/-- With a voting period that the params may have, the same proposal is never finalized: whatever
heights the chain moves to and wherever blocks end, it stays open. -/
theorem endless_not_concluded :
    Sample.endless.validate = .ok () ∧
      ∃ d p, Sample.keeper.submit Sample.submission (Sample.payable Sample.endless) = .ok 0 d ∧
        p.id = 0 ∧ p.isOpen = true ∧ (¬ ∃ h, Sample.keeper.ConcludesFrom h p d) ∧
        ∀ ops, (Sample.keeper.after ops d).store.proposal p.id = .ok p := by
  obtain ⟨d, hd⟩ := exists_ok (x := Sample.keeper.submit Sample.submission)
    (c := Sample.payable Sample.endless) (a := 0) (by decide +kernel)
  obtain ⟨hw, hc, params, p, hparams, hid, hp, hopen, hexpires⟩ := submitted_of_load
    (Sample.load_accepted rfl) Sample.emptyMemory_isEmpty rfl
    (Sample.withParams_fits (by decide)) Sample.funding_fits ⟨⟨1000⟩, []⟩ Sample.submission_fits hd
  have hperiod := Sample.votingPeriod_of_funded (n := 0xFFFFFFFFFFFFFFFF) hparams (by decide +kernel)
  have hnever : ¬ p.Expires := by
    rw [hexpires, hperiod]
    decide
  refine ⟨rfl, d, p, hd, hid, hopen, ?_, hw.stays_open hnever hp⟩
  rwa [hw.concludesFrom_iff hc hp hopen]

end DaoGovernance
