import DaoGovernance.Proofs.Content
import DaoGovernance.Proofs.Deposit
import DaoGovernance.Proofs.Lots
import DaoGovernance.Proofs.Refusal
import Mathlib

/-!
What a submission that succeeds leaves: one new proposal under the next id, one event, and the
deposit moved from the proposer to the module account.  All else is as it was.
-/

namespace DaoGovernance

open DaoGovernance.Action

/-! ### Coins that move -/

namespace Balances

variable {κ : Type} [KeyOrder κ] [DecidableEq κ] {b : Balances κ} {k : κ} {a : Amount}

theorem amount_add_eq (k' : κ) :
    (b.add k a).amount k' = b.amount k' + if k' = k then a else 0 := by
  by_cases hk : k' = k
  · subst hk
    rw [if_pos rfl, amount, add, SortedMap.get?_insert_self, Option.getD_some]
  · rw [if_neg hk, amount, add, SortedMap.get?_insert_of_ne _ _ (Ne.symm hk), add_zero, amount]

theorem amount_update_sub (k' : κ) (hn : b.get? k = none → a = 0) :
    (b.update k (· - a)).amount k' = b.amount k' - if k' = k then a else 0 := by
  cases hb : b.get? k with
  | none =>
    have hu : b.update k (· - a) = b := by simp only [update, hb]
    rw [hu, hn hb, ite_self, sub_zero]
  | some v =>
    have hu : b.update k (· - a) = b.insert k (v - a) := by simp only [update, hb]
    rw [hu]
    by_cases hk : k' = k
    · subst hk
      rw [if_pos rfl, amount, SortedMap.get?_insert_self, Option.getD_some, amount, hb,
        Option.getD_some]
    · rw [if_neg hk, amount, SortedMap.get?_insert_of_ne _ _ (Ne.symm hk), sub_zero, amount]

end Balances

namespace Coins

variable {cs : Coins} {c : Coin} {d : String}

def wordIn (d : String) (cs : List Coin) : Amount :=
  (cs.map fun c => if c.denom = d then c.amount else 0).sum

theorem wordIn_cons (d : String) (c : Coin) (cs : List Coin) :
    wordIn d (c :: cs) = (if c.denom = d then c.amount else 0) + wordIn d cs := rfl

theorem wordIn_eq_ofNat (d : String) (cs : List Coin) : wordIn d cs = .ofNat 128 (totalIn d cs) := by
  induction cs with
  | nil => rfl
  | cons c cs ih =>
    rw [wordIn_cons, totalIn_cons, ih, BitVec.ofNat_add]
    by_cases hd : c.denom = d <;> simp [hd]

theorem Canonical.wordIn_eq (h : cs.Canonical) (d : String) : wordIn d cs.list = cs.amountOf d := by
  rw [wordIn_eq_ofNat, ← h.toNat_amountOf, BitVec.ofNat_toNat, BitVec.setWidth_eq]

end Coins

namespace Ledger

variable {l l' : Ledger} {s t : Holder} {cs : Coins}

theorem balance_credit (l : Ledger) (h k : Holder) (c : Coin) (d : String) :
    (l.credit h c).balance k d = l.balance k d + if k = h ∧ c.denom = d then c.amount else 0 := by
  rw [balance_eq, credit, Balances.amount_add_eq, balance_eq]
  simp only [Prod.mk.injEq, eq_comm]

theorem balance_debit (h k : Holder) (c : Coin) (d : String)
    (hn : l.balances.get? (h, c.denom) = none → c.amount = 0) :
    (l.debit h c).balance k d = l.balance k d - if k = h ∧ c.denom = d then c.amount else 0 := by
  rw [balance_eq, debit, Balances.amount_update_sub _ hn, balance_eq]
  simp only [Prod.mk.injEq, eq_comm]

theorem balance_foldl_move {cs : List Coin} (hst : s ≠ t) (hb : l.Backs s cs) (k : Holder)
    (d : String) :
    (cs.foldl (move s t) l).balance k d =
      l.balance k d - (if k = s then Coins.wordIn d cs else 0) +
        if k = t then Coins.wordIn d cs else 0 := by
  induction cs generalizing l with
  | nil => simp [Coins.wordIn]
  | cons c cs ih =>
    rw [List.foldl_cons, ih (Backs.move (fun e he => hb e (by simp [he])) hst c), move,
      balance_credit, balance_debit _ _ _ _ (hb c (by simp)), Coins.wordIn_cons]
    by_cases hs : k = s
    · simp only [hs, hst, true_and, false_and, if_true, if_false]
      ring
    · simp only [hs, false_and, if_false, sub_zero]
      by_cases ht : k = t
      · simp only [ht, true_and, if_true]
        ring
      · simp only [ht, false_and, if_false, add_zero]

theorem foldl_move_rest (l : Ledger) (s t : Holder) (cs : List Coin) :
    cs.foldl (move s t) l = { l with
      balances := (cs.foldl (move s t) l).balances
      overflowed := (cs.foldl (move s t) l).overflowed } := by
  induction cs generalizing l with
  | nil => rfl
  | cons c cs ih => exact ih (move s t l c)

theorem amountOf_le_of_covers (h : l.covers s cs = true) (d : String) :
    cs.amountOf d ≤ l.balance s d := by
  unfold Coins.amountOf
  split
  · rename_i c hc
    obtain rfl : c.denom = d := by simpa using List.find?_some hc
    exact of_decide_eq_true (List.all_eq_true.1 h c (List.mem_of_find?_eq_some hc))
  · exact BitVec.le_def.2 (Nat.zero_le _)

/-- The coins went from the one holder to the other, and all else is as it was. -/
structure Moves (l : Ledger) (s t : Holder) (cs : Coins) (l' : Ledger) : Prop where
  covered : ∀ d, cs.amountOf d ≤ l.balance s d
  source : ∀ d, l'.balance s d = l.balance s d - cs.amountOf d
  target : ∀ d, l'.balance t d = l.balance t d + cs.amountOf d
  others : ∀ h, h ≠ s → h ≠ t → ∀ d, l'.balance h d = l.balance h d
  rest : l' = { l with balances := l'.balances, overflowed := l'.overflowed }

theorem moves_of_transfer (hst : s ≠ t) (hcs : cs.Canonical) (h : l.transfer s t cs = .ok l') :
    l.Moves s t cs l' := by
  unfold transfer at h
  split at h
  · rename_i hc
    cases h
    have hbalance := balance_foldl_move hst (backs_of_covers hc)
    simp only [hcs.wordIn_eq] at hbalance
    refine ⟨amountOf_le_of_covers hc, fun d => ?_, fun d => ?_, fun h hs ht d => ?_,
      foldl_move_rest l s t cs.list⟩
    · rw [hbalance, if_pos rfl, if_neg hst, add_zero]
    · rw [hbalance, if_neg hst.symm, if_pos rfl, sub_zero]
    · rw [hbalance, if_neg hs, if_neg ht, sub_zero, add_zero]
  · cases h

theorem moves_of_isZero (s t : Holder) (hz : cs.isZero = true) : l.Moves s t cs l := by
  have hnone : ∀ d, cs.amountOf d = 0 := by
    intro d
    have hle := cs.amountOf_le_totalIn d
    rw [Coins.totalIn_eq_zero_of_isZero hz] at hle
    exact BitVec.eq_of_toNat_eq (Nat.le_zero.1 hle)
  refine ⟨fun d => ?_, fun d => ?_, fun d => ?_, fun _ _ _ _ => rfl, rfl⟩
  · rw [hnone]
    exact BitVec.le_def.2 (Nat.zero_le _)
  · rw [hnone, sub_zero]
  · rw [hnone, add_zero]

end Ledger

theorem Keeper.Escrows.moves {k : Keeper} {a : Address} {deposit : Coins} {l l' : Ledger}
    (h : k.Escrows a deposit l l') (hcs : deposit.Canonical) :
    l.Moves (.account a) (.moduleAccount k.moduleAccount) deposit l' := by
  cases h with
  | none hz => exact Ledger.moves_of_isZero _ _ hz
  | moved _ h => exact Ledger.moves_of_transfer nofun hcs h

/-! ### A submission that succeeds -/

variable {k : Keeper} {s : Submission} {c d : Chain} {id : UInt64}

theorem Content.kind_canonical (content : Content) : content.canonical.kind = content.kind := by
  cases content <;> simp only [canonical, kind]

theorem Params.depositFor_canonical (params : Params) (content : Content) :
    params.depositFor content.canonical = match content with
      | .addLabel _ => params.labelDeposit
      | .requestTokens .. => params.submissionDeposit := by
  cases content <;> rfl

theorem Height.number_advance (h : Height) (blocks : UInt64) :
    (h.advance blocks).number.toNat = min (h.number.toNat + blocks.toNat) (UInt64.size - 1) := by
  unfold advance
  split
  · rename_i hlt
    rw [UInt64.toNat_add, Nat.mod_eq_of_lt hlt]
    omega
  · rename_i hge
    have hlast : last.number.toNat = UInt64.size - 1 := rfl
    have hsize : UInt64.size = 18446744073709551616 := rfl
    rw [hlast]
    omega

theorem supply_eq_ok {denom : String} {a : Amount} (h : Action.supply denom c = .ok a d) :
    a = c.ledger.supply denom ∧ d = c := by
  obtain ⟨c', _, hget, h⟩ := bind_eq_ok.1 h
  cases hget
  unfold Chain.supply at h
  split at h
  · cases h
  · cases h
    exact ⟨rfl, rfl⟩

theorem prepare_reads {x : Prepared} (h : k.prepare s c = .ok x d) :
    Address.parse s.proposer = .ok x.proposer ∧
      x.snapshot = c.ledger.supply x.params.votingDenom := by
  obtain ⟨proposer, c₁, h₁, k₁⟩ := bind_eq_ok.1 h
  obtain ⟨hparse, rfl⟩ := check_eq_ok.1 h₁
  obtain ⟨content, c₂, h₂, k₂⟩ := bind_eq_ok.1 k₁
  obtain ⟨-, rfl⟩ := check_eq_ok.1 h₂
  obtain ⟨_, c₃, h₃, k₃⟩ := bind_eq_ok.1 k₂
  obtain ⟨_, c₄, h₄, k₄⟩ := bind_eq_ok.1 k₃
  obtain ⟨params, c₅, h₅, k₅⟩ := bind_eq_ok.1 k₄
  obtain ⟨snapshot, c₆, h₆, k₆⟩ := bind_eq_ok.1 k₅
  obtain ⟨_, c₇, -, k₇⟩ := bind_eq_ok.1 k₆
  cases k₇
  have hduplicate : c₂.Quiet c₃ := (refuseDuplicate_within _).of_ok h₃
  have hpermitted : c₃.Quiet c₄ := (refusePermitted_within _).of_ok h₄
  obtain ⟨-, rfl⟩ := read_eq_ok.1 h₅
  obtain ⟨rfl, rfl⟩ := supply_eq_ok h₆
  refine ⟨?_, by rw [hpermitted.ledger, hduplicate.ledger]⟩
  rw [← AddressRole.text_of_parse hparse, Address.parse_text]

theorem opens_of_submit (hsound : c.store.Sound) (hs : s.Fits) (h : k.submit s c = .ok id d) :
    ∃ x : Prepared, ∃ p, p.id = id ∧ Opens k s c p d ∧ s.readContent = .ok x.content ∧
      c.store.params = .ok x.params ∧ p = x.toProposal s id c.block.height ∧
      Address.parse s.proposer = .ok x.proposer ∧
      x.snapshot = c.ledger.supply x.params.votingDenom ∧
      d.block = c.block.emit (.proposalSubmitted id x.content.kind x.proposer) := by
  obtain ⟨p, hid, ho⟩ := (submit_ends hsound s).of_ok h
  rw [Keeper.submit_eq] at h
  obtain ⟨x, c₁, hprepare, hstore⟩ := bind_eq_ok.1 h
  obtain ⟨hcontent, hparams, l, log, -, rfl⟩ := (prepare_ends s).of_ok hprepare
  obtain ⟨s₁, s₂, log', -, hset, rfl⟩ := (storePrepared_ends s x).of_ok hstore
  obtain ⟨hproposer, hsnapshot⟩ := prepare_reads hprepare
  refine ⟨x, p, hid, ho, hcontent, hparams, ?_, hproposer, hsnapshot, rfl⟩
  -- Both are what is stored under the id.
  have hencode : p.encode = (x.toProposal s id c.block.height).encode := by
    have hview := (Store.view_putProposal (Store.stored_eq_ok.1 hset)).1
    have hat := congrArg (fun v => v.proposals id) (ho.view.symm.trans hview)
    subst hid
    simpa [Store.View.put, Prepared.toProposal, Submission.toProposal] using hat
  have hfits : (x.toProposal s id c.block.height).Fits := hs.toProposal hcontent ..
  have hdecode := Proposal.decode_encode (ho.fits hs)
  rw [hencode, Proposal.decode_encode hfits] at hdecode
  exact (Except.ok.inj hdecode).symm

/-- The proposal is new at `c`, where the params are `params`, and asks for what `s` does,
`content`, but with a label in normal form. -/
structure Submission.Describes (s : Submission) (c : Chain) (params : Params) (content : Content)
    (p : Proposal) : Prop where
  proposer : Address.parse s.proposer = .ok p.proposer
  title : p.title = s.title
  description : p.description = s.description
  unpack : p.content.unpack = .ok (match content with
    | .addLabel l => .addLabel (Label.normalize l)
    | .requestTokens recipient amount activity => .requestTokens recipient amount activity)
  status : p.status = .votingPeriod
  tally : p.tally = .zero
  submitted : p.submitted = c.block.height
  votingStart : p.votingStart = c.block.height
  votingEnd : p.votingEnd.number.toNat =
    min (c.block.height.number.toNat + params.votingPeriod.toNat) (2 ^ 64 - 1)
  snapshot : p.snapshot = c.ledger.supply params.votingDenom

/-- A submission added the proposal `p` at `c`, which left `d`. -/
structure Keeper.Files (k : Keeper) (s : Submission) (c : Chain) (p : Proposal) (d : Chain) :
    Prop where
  id : c.store.nextId = .ok p.id
  nextId : d.store.nextId = .ok (p.id + 1)
  notLast : p.id ≠ 0xFFFFFFFFFFFFFFFF
  isNew : c.store.getProposal p.id = none
  stored : d.store.proposal p.id = .ok p
  view : d.store.view = { c.store.view.put p with nextId := p.id + 1 }
  lots : d.store.lotAt = c.store.lotAt
  registry : d.registry = c.registry
  faults : d.faults = c.faults
  exists_content : ∃ params e content deposit, c.store.params = .ok params ∧
    s.content = some e ∧ e.unpack = .ok content ∧ s.Describes c params content p ∧
    (deposit = match content with
      | .addLabel _ => params.labelDeposit
      | .requestTokens .. => params.submissionDeposit) ∧
    c.ledger.Moves (.account p.proposer) (.moduleAccount k.moduleAccount) deposit d.ledger ∧
    (deposit.isZero = true → d.ledger = c.ledger) ∧
    d.block = c.block.emit (.proposalSubmitted p.id content.kind p.proposer)

theorem Prepared.describes {x : Prepared} {content : Content}
    (hparse : Address.parse s.proposer = .ok x.proposer)
    (hsnapshot : x.snapshot = c.ledger.supply x.params.votingDenom)
    (haccepted : x.content.Accepted) (hcontent : x.content = content.canonical) :
    s.Describes c x.params content (x.toProposal s id c.block.height) where
  proposer := hparse
  title := rfl
  description := rfl
  unpack := by
    refine (haccepted.unpack rfl).trans ?_
    rw [hcontent]
    cases content <;> rfl
  status := rfl
  tally := rfl
  submitted := rfl
  votingStart := rfl
  votingEnd := Height.number_advance _ _
  snapshot := hsnapshot

theorem files_of_submit {n : UInt64} (hc : c.store.Consistent n) (hs : s.Fits)
    (h : k.submit s c = .ok id d) : ∃ p, p.id = id ∧ k.Files s c p d := by
  have hsound := hc.keyed.sound
  obtain ⟨params, hparams, hfits, hvalid⟩ := hc.params
  obtain ⟨x, p, rfl, ho, hread, hx, hp, hproposer, hsnapshot, hblock⟩ :=
    opens_of_submit hsound hs h
  cases (Store.params_eq hfits hparams).symm.trans hx
  obtain ⟨e, content, he, hunpack, -, hcontent⟩ := Submission.readContent_eq_ok hread
  have hview := ho.view
  refine ⟨p, rfl, ?_, ?_, ho.notLast, ?_, ?_, hview, ho.lots, ho.registry, ho.faults, ?_⟩
  · rw [ho.id_eq]
    exact hsound.nextId_eq
  · rw [(ho.sound hsound).nextId_eq, hview]
  · rw [Store.getProposal_eq, Option.eq_none_iff_forall_ne_some]
    intro b hb
    have hlt := hc.below p.id b hb
    rw [ho.id_eq, hc.nextId] at hlt
    exact Nat.lt_irrefl _ hlt
  · rw [Store.proposal_eq_ok, hview]
    exact Store.View.proposal_put_self (ho.fits hs)
  · obtain ⟨content', params', -, hread', hx', -, hescrow⟩ := ho.opened
    cases hread.symm.trans hread'
    cases hx.symm.trans hx'
    have hproposer' : p.proposer = x.proposer := by rw [hp]; rfl
    have hcanonical := Params.canonical_depositFor hvalid content.canonical
    rw [hcontent] at hescrow
    refine ⟨_, e, content, _, hx, he, hunpack, ?_, Params.depositFor_canonical _ content,
      hescrow.moves hcanonical, hescrow.eq_of_isZero, ?_⟩
    · rw [hp]
      exact Prepared.describes hproposer hsnapshot
        (Submission.accepted_of_readContent hs hread) hcontent
    · rw [hblock, hproposer', hcontent, Content.kind_canonical]

/-! ### In a run -/

/-- After any run from an accepted genesis, in any block, a submission that succeeds has taken the
next id for one new proposal, and but for its deposit and its event nothing else has changed. -/
theorem files_of_load {g : Genesis} {u : Unit} {c₀ : Chain} {ops : List Operation}
    (hload : g.load c₀ = .ok u c) (hempty : c₀.store.IsEmpty) (hfits : g.Fits)
    (hops : ∀ op ∈ ops, op.Fits) (b : Block) (hs : s.Fits)
    (h : k.submit s { k.after ops c with block := b } = .ok id d) :
    ∃ p, p.id = id ∧ k.Files s { k.after ops c with block := b } p d := by
  obtain ⟨n, hc⟩ := consistent_after (k := k) hops (Genesis.consistent_of_load hload hempty hfits)
  exact files_of_submit (n := n) hc hs h

namespace Sample

def capitals : Submission where
  proposer := proposer.text
  title := "Second label"
  description := "In capitals"
  content := some (Content.addLabel ".BAR.").pack
  initialDeposit := ⟨[⟨"other", 7⟩]⟩

theorem capitals_fits : capitals.Fits := by
  refine ⟨by decide, by decide, ?_⟩
  rintro e ⟨⟩
  decide

def solvent : Chain :=
  { keeper.after [.incident (.fund proposer ⟨"stake", 100000000⟩)] (loaded (withVotes [])) with
    block := ⟨⟨18446744073709551605⟩, []⟩ }

end Sample

/-- The label is stored in small letters, the voting lasts to the last height there is, and all of
the larger deposit is taken. -/
theorem capitals_files :
    ∃ d p, Sample.keeper.submit Sample.capitals Sample.solvent = .ok 1 d ∧ p.id = 1 ∧
      Sample.keeper.Files Sample.capitals Sample.solvent p d ∧
      p.content.unpack = .ok (.addLabel "bar") ∧
      p.votingEnd.number.toNat = 2 ^ 64 - 1 ∧
      d.ledger.balance (.account Sample.proposer) "stake" = 0 ∧
      d.ledger.balance (.moduleAccount Keeper.defaultAccount) "stake" = 100000000 ∧
      d.block.events = [.proposalSubmitted 1 "AddTld" Sample.proposer] := by
  obtain ⟨d, hd⟩ := exists_ok (x := Sample.keeper.submit Sample.capitals) (c := Sample.solvent)
    (a := 1) (by decide +kernel)
  have hfund : ∀ op ∈ [Operation.incident (.fund Sample.proposer ⟨"stake", 100000000⟩)],
      op.Fits := by simp [Operation.Fits]
  obtain ⟨p, hid, hfiles⟩ : ∃ p, p.id = 1 ∧
      Sample.keeper.Files Sample.capitals Sample.solvent p d :=
    files_of_load (Sample.load_accepted rfl) Sample.emptyMemory_isEmpty (Sample.withVotes_fits _)
      hfund ⟨⟨18446744073709551605⟩, []⟩ Sample.capitals_fits hd
  obtain ⟨params, _, content, _, hparams, he, hunpack, hdescribes, rfl, hmoves, -, hblock⟩ :=
    hfiles.exists_content
  obtain rfl : params = .default := by
    have hread : Sample.solvent.store.params.toOption = some .default := by decide +kernel
    rw [hparams] at hread
    exact Option.some.inj hread
  obtain rfl : content = .addLabel ".BAR." := by
    cases he
    have hlabel : (Content.addLabel ".BAR.").Fits := (by decide : Text.Fits ".BAR.")
    rw [Content.unpack_pack hlabel] at hunpack
    exact (Except.ok.inj hunpack).symm
  have hproposer : Sample.proposer = p.proposer := by
    have hparse := hdescribes.proposer
    rw [Sample.capitals, Address.parse_text] at hparse
    exact Except.ok.inj hparse
  refine ⟨d, p, hd, hid, hfiles, hdescribes.unpack, ?_, ?_, ?_, ?_⟩
  · rw [hdescribes.votingEnd]
    decide +kernel
  · rw [hproposer, hmoves.source, ← hproposer]
    decide +kernel
  · refine (hmoves.target "stake").trans ?_
    decide +kernel
  · rw [hblock, hid, ← hproposer]
    rfl

end DaoGovernance
