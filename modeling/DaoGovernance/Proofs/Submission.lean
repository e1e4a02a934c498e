import DaoGovernance.Proofs.Action
import DaoGovernance.Proofs.Ledger
import DaoGovernance.Submission
import Mathlib

/-!
What a submission does: it opens one proposal under the next id against the deposit for its kind,
or it fails, and then at most the deposit has moved and the id is used up.
-/

namespace DaoGovernance

open DaoGovernance.Action
open Ledger (Shifts)

variable {k : Keeper} {c d : Chain} {content : Content}

/-! ### Content -/

def Submission.Fits (s : Submission) : Prop :=
  Text.Fits s.title ∧ Text.Fits s.description ∧
    ∀ e, s.content = some e → e.value.length < UInt64.size

theorem Label.utf8ByteSize_le_of_check {l : String} (h : check l = .ok ()) :
    l.utf8ByteSize ≤ maxLength := by
  simp only [check] at h
  split_ifs at h
  omega

theorem Content.check_of_validateLabel {l : String} (h : validateLabel l = .ok ()) :
    Label.check (Label.normalize l) = .ok () := by
  unfold validateLabel at h
  split at h
  · rename_i hcheck
    exact hcheck
  · cases h

theorem Content.fits_canonical {e : Envelope} {content : Content} (h : e.unpack = .ok content)
    (hvalid : content.validate = .ok ()) (he : e.value.length < UInt64.size) :
    content.canonical.Fits ∧ content.canonical.pack.Fits := by
  obtain ⟨hf, -, hv⟩ := of_unpack h
  cases content with
  | requestTokens r a d => exact ⟨hf, fits_pack (hv.length_le.trans_lt he)⟩
  | addLabel l =>
    have hs : (Label.normalize l).utf8ByteSize ≤ Label.maxLength :=
      Label.utf8ByteSize_le_of_check (check_of_validateLabel hvalid)
    simp only [canonical]
    generalize Label.normalize l = l at hs
    have hc : l.toList.length ≤ Label.maxLength := (Text.length_le_utf8ByteSize l).trans hs
    refine ⟨Text.fits_of_length_le hc (by decide), fits_pack ?_⟩
    have hb := Text.length_toBytes_le l
    rw [length_payload_addLabel]
    have : UInt64.size = 18446744073709551616 := rfl
    have : Label.maxLength = 63 := rfl
    omega

theorem Submission.readContent_eq_ok {s : Submission} (h : s.readContent = .ok content) :
    ∃ e read, s.content = some e ∧ e.unpack = .ok read ∧ read.validate = .ok () ∧
      content = read.canonical := by
  unfold readContent at h
  split at h
  · cases h
  · rename_i e he
    split at h
    · cases h
    · rename_i read hread
      split at h
      · cases h
      · rename_i hvalid
        exact ⟨e, read, he, hread, hvalid, (Except.ok.inj h).symm⟩

theorem Submission.fits_of_readContent {s : Submission} {content : Content} (hs : s.Fits)
    (h : s.readContent = .ok content) : content.Fits ∧ content.pack.Fits := by
  obtain ⟨e, read, he, hread, hvalid, rfl⟩ := readContent_eq_ok h
  exact Content.fits_canonical hread hvalid (hs.2.2 e he)

theorem Submission.Fits.toProposal {s : Submission} {content : Content} (hs : s.Fits)
    (h : s.readContent = .ok content) (a : Address) (period : UInt64) (snapshot : Amount)
    (id : UInt64) (now : Height) :
    (s.toProposal a content.pack period snapshot id now).Fits :=
  ⟨hs.1, hs.2.1, (fits_of_readContent hs h).2⟩

/-! ### Steps -/

section Within

variable {R : Chain → Chain → Prop} [Std.Refl R] [IsTrans Chain R]

theorem refuseDuplicate_within [IgnoresLog R] (e : Envelope) : Within R (refuseDuplicate e) := by
  refine .bind (.read _) fun rs => .bind (.noteAll _) fun _ => ?_
  split
  · exact .pure
  · exact .bind (.note _) fun _ => .throw

theorem refusePermitted_within (content : Content) : Within R (refusePermitted content) := by
  cases content with
  | addLabel l =>
    refine .bind (.isPermitted _) fun b => ?_
    split
    · exact .throw
    · exact .pure
  | requestTokens => exact .pure

end Within

inductive Keeper.Escrows (k : Keeper) (a : Address) (deposit : Coins) (l : Ledger) : Ledger → Prop
  | none (hz : deposit.isZero = true) : Escrows k a deposit l l
  | moved {l' : Ledger} (hz : deposit.isZero = false)
      (h : l.toModule a k.moduleAccount deposit = .ok l') : Escrows k a deposit l l'

theorem escrow_ends (a : Address) (deposit initial : Coins) :
    Ends (k.escrow a deposit initial) c
      (fun _ d => k.Escrows a deposit c.ledger d.ledger ∧ { c with ledger := d.ledger }.Logs d)
      fun _ d => d = c := by
  rw [Keeper.escrow]
  cases hz : deposit.isZero with
  | true =>
    rw [if_pos rfl]
    split
    · exact rfl
    · exact ⟨.none hz, refl c⟩
  | false =>
    rw [if_neg (by simp)]
    cases h : c.ledger.toModule a k.moduleAccount deposit with
    | ok l =>
      refine .of_step (a := ()) (move_eq_ok.2 ⟨l, h, rfl⟩) ?_
      exact ⟨.moved hz h, rfl⟩
    | error e => exact .of_fail (move_eq_error.2 ⟨e, h, rfl, rfl⟩) rfl

theorem Keeper.Escrows.shifts {a : Address} {deposit : Coins} {l l' : Ledger}
    (h : k.Escrows a deposit l l') : ∃ lost gained, Shifts l l' lost gained ∧ ∀ e,
      lost (.moduleAccount k.moduleAccount) e = 0 ∧
      gained (.moduleAccount k.moduleAccount) e = Coins.totalIn e deposit.list := by
  cases h with
  | none hz =>
    exact ⟨0, 0, .refl l, fun e => ⟨rfl, (Coins.totalIn_eq_zero_of_isZero hz e).symm⟩⟩
  | moved hz h =>
    refine ⟨_, _, Ledger.toModule_shifts h, fun e => ⟨Ledger.flow_of_ne (by simp), by simp⟩⟩

theorem Keeper.Escrows.balance {a : Address} {deposit : Coins} {l l' : Ledger}
    (h : k.Escrows a deposit l l') (ho : l'.overflowed = false) : l.overflowed = false ∧ ∀ e,
      (l'.balance (.moduleAccount k.moduleAccount) e).toNat =
        (l.balance (.moduleAccount k.moduleAccount) e).toNat + Coins.totalIn e deposit.list := by
  obtain ⟨lost, gained, hs, hf⟩ := h.shifts
  refine ⟨hs.exact ho, fun e => ?_⟩
  have := hs.balance ho (.moduleAccount k.moduleAccount) e
  rw [(hf e).1, (hf e).2] at this
  omega

theorem toNat_succ {i : UInt64} (h : i ≠ 0xFFFFFFFFFFFFFFFF) : (i + 1).toNat = i.toNat + 1 := by
  have hn : i.toNat ≠ 0xFFFFFFFFFFFFFFFF := fun he => h (UInt64.toNat_inj.1 he)
  have hi := i.toNat_lt
  rw [UInt64.toNat_add, UInt64.toNat_one]
  omega

/-! ### In two parts -/

structure Prepared where
  proposer : Address
  content : Content
  params : Params
  snapshot : Amount

namespace Prepared

def deposit (x : Prepared) : Coins := x.params.depositFor x.content

def toProposal (x : Prepared) (s : Submission) (id : UInt64) (now : Height) : Proposal :=
  s.toProposal x.proposer x.content.pack x.params.votingPeriod x.snapshot id now

end Prepared

namespace Keeper

def prepare (k : Keeper) (s : Submission) : Action Prepared := do
  let proposer ← Action.check (AddressRole.proposer.parse s.proposer)
  let content ← Action.check s.readContent
  refuseDuplicate content.pack
  refusePermitted content
  let params ← Action.read Store.params
  let snapshot ← Action.supply params.votingDenom
  k.escrow proposer (params.depositFor content) s.initialDeposit
  return ⟨proposer, content, params, snapshot⟩

def storePrepared (s : Submission) (x : Prepared) : Action UInt64 := do
  let id ← Action.takeId
  let p := x.toProposal s id (← Action.height)
  Action.write (Store.setProposal p)
  Action.emit (.proposalSubmitted id x.content.kind x.proposer)
  Action.note (.proposalSubmitted x.content.kind p)
  return id

theorem submit_eq (k : Keeper) (s : Submission) :
    k.submit s = k.prepare s >>= storePrepared s := by
  simp only [submit, prepare, storePrepared, bind_assoc, pure_bind]
  rfl

end Keeper

theorem prepare_ends (s : Submission) :
    Ends (k.prepare s) c
      (fun x d => s.readContent = .ok x.content ∧ c.store.params = .ok x.params ∧
        ∃ l log, k.Escrows x.proposer x.deposit c.ledger l ∧ d = { c with ledger := l, log })
      fun _ d => c.Logs d := by
  have logs : ∀ (e : GovernanceError) d, c.Logs d → c.Logs d := fun _ _ h => h
  refine .within_bind (refl c) (.check _) logs fun proposer c₁ h _ => ?_
  obtain ⟨-, rfl⟩ := check_eq_ok.1 h
  refine .within_bind (refl c₁) (.check _) logs fun content c₂ h _ => ?_
  obtain ⟨hcontent, rfl⟩ := check_eq_ok.1 h
  refine .within_bind (refl c₂) (refuseDuplicate_within _) logs fun _ c₃ _ hc => ?_
  refine .within_bind hc (refusePermitted_within _) logs fun _ c₄ _ hc => ?_
  refine .within_bind hc (.read _) logs fun params c₅ h hc => ?_
  obtain ⟨hparams, rfl⟩ := read_eq_ok.1 h
  refine .within_bind hc (Within.supply _) logs fun snapshot c₆ _ hc₆ => ?_
  obtain ⟨log, rfl⟩ : ∃ log, c₅ = { c₂ with log } := ⟨_, hc⟩
  obtain ⟨log', rfl⟩ : ∃ log, c₆ = { c₂ with log } := ⟨_, hc₆⟩
  refine .bind ((escrow_ends proposer _ _).mono (fun _ _ h => h) ?_) ?_
  · rintro _ _ rfl
    exact hc₆
  · intro _ d _ ⟨hescrow, hd⟩
    exact ⟨hcontent, hparams, _, _, hescrow, hd⟩

theorem storePrepared_ends (s : Submission) (x : Prepared) :
    Ends (Keeper.storePrepared s x) c
      (fun id d => ∃ s₁ s₂ log, c.store.takeId = .ok (id, s₁) ∧
        s₁.setProposal (x.toProposal s id c.block.height) = .ok s₂ ∧ d = { c with
          store := s₂
          block := c.block.emit (.proposalSubmitted id x.content.kind x.proposer)
          log })
      fun _ d => (d = c ∧ ∃ e, c.store.takeId = .error e) ∨
        ∃ id s₁ e, c.store.takeId = .ok (id, s₁) ∧
          s₁.setProposal (x.toProposal s id c.block.height) = .error e ∧
          d = { c with store := s₁ } := by
  cases ht : c.store.takeId with
  | error e =>
    refine .of_fail (e := .store e) ?_ (.inl ⟨rfl, e, rfl⟩)
    rw [takeId, bind_eq_error]
    refine .inr ⟨c, c, rfl, bind_eq_error.2 (.inl (check_eq_error.2 ⟨?_, rfl⟩))⟩
    rw [ht]
    rfl
  | ok r =>
    obtain ⟨id, s₁⟩ := r
    have htake : takeId c = .ok id { c with store := s₁ } := by
      have hcheck : check (Store.stored c.store.takeId) c = .ok (id, s₁) c := by
        rw [check_eq_ok, ht]
        exact ⟨rfl, rfl⟩
      rw [takeId, bind_of_ok get_apply, bind_of_ok hcheck]
      rfl
    refine .of_step htake (.of_step height_apply ?_)
    dsimp only
    cases hset : s₁.setProposal (x.toProposal s id c.block.height) with
    | error e =>
      refine .of_fail (write_eq_error.2 ⟨hset, rfl⟩) ?_
      exact .inr ⟨id, s₁, e, rfl, hset, rfl⟩
    | ok s₂ =>
      refine .of_step (a := ()) (write_eq_ok.2 ⟨s₂, hset, rfl⟩)
        (.of_step (emit_apply _) (.of_step (note_apply _) ?_))
      exact ⟨s₁, s₂, _, rfl, hset, rfl⟩

/-! ### What is admitted -/

structure Chain.Admits (c : Chain) (content : Content) : Prop where
  distinct : ∃ rs, c.store.proposalRecords = .ok rs ∧
    ∀ r ∈ rs, isOpenDuplicate content.pack r = false
  unpermitted : ∀ l, content = .addLabel l → c.registry.isPermitted (Label.normalize l) = false

theorem refuseDuplicate_eq_ok {e : Envelope} {u : Unit} (h : refuseDuplicate e c = .ok u d) :
    ∃ rs, c.store.proposalRecords = .ok rs ∧ ∀ r ∈ rs, isOpenDuplicate e r = false := by
  obtain ⟨rs, c₁, hr, h₁⟩ := bind_eq_ok.1 h
  obtain ⟨hrs, rfl⟩ := read_eq_ok.1 hr
  obtain ⟨_, c₂, -, h₂⟩ := bind_eq_ok.1 h₁
  refine ⟨rs, hrs, fun r hr => ?_⟩
  cases hfind : rs.find? (isOpenDuplicate e) with
  | none => simpa using List.find?_eq_none.1 hfind r hr
  | some r' => simp [hfind, bind_eq_ok] at h₂

theorem isPermitted_eq_ok {l : String} {b : Bool} (h : isPermitted l c = .ok b d) :
    c.registry.isPermitted l = b ∧ d = c := by
  obtain ⟨c', _, hget, h⟩ := bind_eq_ok.1 h
  cases hget
  unfold Chain.isPermitted at h
  split at h
  · cases h
  · cases h
    exact ⟨rfl, rfl⟩

theorem refusePermitted_eq_ok {content : Content} {u : Unit}
    (h : refusePermitted content c = .ok u d) {l : String} (hl : content = .addLabel l) :
    c.registry.isPermitted (Label.normalize l) = false := by
  subst hl
  obtain ⟨b, c', hb, h⟩ := bind_eq_ok.1 h
  obtain ⟨hb, rfl⟩ := isPermitted_eq_ok hb
  cases b with
  | false => exact hb
  | true => simp at h

theorem prepare_admits {s : Submission} {x : Prepared} (h : k.prepare s c = .ok x d) :
    c.Admits x.content := by
  obtain ⟨proposer, c₁, h₁, k₁⟩ := bind_eq_ok.1 h
  obtain ⟨-, rfl⟩ := check_eq_ok.1 h₁
  obtain ⟨content, c₂, h₂, k₂⟩ := bind_eq_ok.1 k₁
  obtain ⟨-, rfl⟩ := check_eq_ok.1 h₂
  obtain ⟨_, c₃, h₃, k₃⟩ := bind_eq_ok.1 k₂
  obtain ⟨_, c₄, h₄, k₄⟩ := bind_eq_ok.1 k₃
  obtain ⟨params, c₅, -, k₅⟩ := bind_eq_ok.1 k₄
  obtain ⟨snapshot, c₆, -, k₆⟩ := bind_eq_ok.1 k₅
  obtain ⟨_, c₇, -, k₇⟩ := bind_eq_ok.1 k₆
  cases k₇
  have hquiet : c₂.Quiet c₃ := (refuseDuplicate_within _).of_ok h₃
  refine ⟨refuseDuplicate_eq_ok h₃, fun l hl => ?_⟩
  rw [← hquiet.registry]
  exact refusePermitted_eq_ok h₄ hl

theorem Chain.Admits.ne (h : c.Admits content) (hs : c.store.Sound) {id : UInt64} {p : Proposal}
    (hp : c.store.view.proposal id = some p) (ho : p.isOpen = true) : p.content ≠ content.pack := by
  obtain ⟨rs, hrs, hdup⟩ := h.distinct
  obtain ⟨rs', hrs', -, hm⟩ := Store.proposalRecords_eq hs.proposalsKeyed
  rw [hrs] at hrs'
  cases hrs'
  intro he
  have hfalse := hdup _ ((hm id p).2 hp)
  simp [isOpenDuplicate, ho, he] at hfalse

structure Opens (k : Keeper) (s : Submission) (c : Chain) (p : Proposal) (d : Chain) : Prop where
  opened : ∃ content params snapshot, s.readContent = .ok content ∧ c.store.params = .ok params ∧
    p = s.toProposal p.proposer content.pack params.votingPeriod snapshot c.store.view.nextId
      c.block.height ∧
    k.Escrows p.proposer (params.depositFor content) c.ledger d.ledger
  admitted : ∀ content, s.readContent = .ok content → c.Admits content
  notLast : p.id ≠ 0xFFFFFFFFFFFFFFFF
  view : d.store.view = { c.store.view.put p with nextId := p.id + 1 }
  sound : c.store.Sound → d.store.Sound
  lots : d.store.lotAt = c.store.lotAt
  registry : d.registry = c.registry
  faults : d.faults = c.faults
  block : ∃ content proposer, d.block = c.block.emit (.proposalSubmitted p.id content proposer)

theorem Opens.id_eq {s : Submission} {p : Proposal} (h : Opens k s c p d) :
    p.id = c.store.view.nextId := by
  obtain ⟨content, params, snapshot, -, -, hp, -⟩ := h.opened
  rw [hp]
  rfl

theorem Opens.isOpen {s : Submission} {p : Proposal} (h : Opens k s c p d) : p.isOpen = true := by
  obtain ⟨content, params, snapshot, -, -, hp, -⟩ := h.opened
  rw [hp]
  rfl

theorem Opens.proposals {s : Submission} {p : Proposal} (h : Opens k s c p d) :
    d.store.view.proposals = (c.store.view.put p).proposals := by
  rw [h.view]

theorem Opens.nextId {s : Submission} {p : Proposal} (h : Opens k s c p d) :
    d.store.view.nextId.toNat = p.id.toNat + 1 := by
  rw [h.view]
  exact toNat_succ h.notLast

theorem Opens.nextId_le {s : Submission} {p : Proposal} (h : Opens k s c p d) :
    c.store.view.nextId.toNat ≤ d.store.view.nextId.toNat := by
  rw [h.nextId, h.id_eq]
  exact Nat.le_succ _

theorem Opens.fits {s : Submission} {p : Proposal} (h : Opens k s c p d) (hs : s.Fits) :
    p.Fits := by
  obtain ⟨content, params, snapshot, hcontent, -, hp, -⟩ := h.opened
  rw [hp]
  exact hs.toProposal hcontent ..

structure Refuses (k : Keeper) (c d : Chain) : Prop where
  ledger : d.ledger = c.ledger ∨ ∃ a deposit, k.Escrows a deposit c.ledger d.ledger
  view : ∃ id, d.store.view = { c.store.view with nextId := id } ∧
    c.store.view.nextId.toNat ≤ id.toNat
  sound : c.store.Sound → d.store.Sound
  lots : d.store.lotAt = c.store.lotAt
  registry : d.registry = c.registry
  faults : d.faults = c.faults
  block : d.block = c.block

theorem Chain.Quiet.refuses (h : c.Quiet d) : Refuses k c d :=
  ⟨.inl h.ledger, ⟨_, h.view, Nat.le_refl _⟩, h.sound, h.lots, h.registry, h.faults, h.block⟩

theorem submit_ends (hs : c.store.Sound) (s : Submission) :
    Ends (k.submit s) c (fun id d => ∃ p, p.id = id ∧ Opens k s c p d)
      fun _ d => Refuses k c d := by
  rw [Keeper.submit_eq]
  refine .bind ((prepare_ends s).mono (fun _ _ h => h) fun _ _ h => h.quiet.refuses) ?_
  rintro x _ hprepare ⟨hcontent, hparams, l, log, hescrow, rfl⟩
  have hnext {id : UInt64} {s₁ : Store} (ht : c.store.takeId = .ok (id, s₁)) :
      id = c.store.view.nextId ∧ id ≠ 0xFFFFFFFFFFFFFFFF ∧ s₁ = c.store.setNextId (id + 1) := by
    rcases Store.takeId_eq hs with ⟨-, he⟩ | ⟨hm, hi⟩
    · rw [he] at ht
      cases ht
    · rw [hi] at ht
      cases ht
      exact ⟨rfl, hm, rfl⟩
  refine (storePrepared_ends s x).mono ?_ ?_
  · rintro id _ ⟨s₁, s₂, log, ht, hset, rfl⟩
    obtain ⟨rfl, hlast, rfl⟩ := hnext ht
    obtain ⟨hv, hsound⟩ := Store.view_putProposal (Store.stored_eq_ok.1 hset)
    have hadmits := prepare_admits hprepare
    refine ⟨x.toProposal s c.store.view.nextId c.block.height, rfl,
      ⟨⟨x.content, x.params, x.snapshot, hcontent, hparams, rfl, hescrow⟩, ?_, hlast, ?_,
        fun _ => hsound (hs.setNextId _), ?_, rfl, rfl, ⟨x.content.kind, x.proposer, rfl⟩⟩⟩
    · intro content hread
      rw [hcontent] at hread
      cases hread
      exact hadmits
    · change s₂.view = _
      rw [hv, Store.view_setNextId]
      rfl
    · exact (Store.putProposal_becomes (Store.stored_eq_ok.1 hset)).lots.trans
        (Store.setNextId_becomes _ _).lots
  · rintro e _ (⟨rfl, -⟩ | ⟨id, s₁, e', ht, -, rfl⟩)
    · exact ⟨.inr ⟨_, _, hescrow⟩, ⟨_, rfl, Nat.le_refl _⟩, fun h => h, rfl, rfl, rfl, rfl⟩
    · obtain ⟨rfl, hlast, rfl⟩ := hnext ht
      refine ⟨.inr ⟨_, _, hescrow⟩, ⟨_, Store.view_setNextId _, ?_⟩, fun h => h.setNextId _,
        (Store.setNextId_becomes _ _).lots, rfl, rfl, rfl⟩
      rw [toNat_succ hlast]
      exact Nat.le_succ _

end DaoGovernance
