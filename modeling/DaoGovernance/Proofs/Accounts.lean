import DaoGovernance.Proofs.Conservation
import DaoGovernance.Proofs.Genesis
import DaoGovernance.Proofs.Pass
import Mathlib

/-!
The accounts of a pass.  What was executed is minted and paid to its recipient, each deposit that
was settled goes back or is burned, and nothing else moves: an execution that failed leaves all
funds as it found them.
-/

namespace DaoGovernance

open DaoGovernance.Action
open Ledger (Flow Shifts Issues)

/-! ### One proposal -/

variable {k : Keeper} {p params : Params} {c c₀ d : Chain} {l l' : Ledger}

theorem Keeper.TakesBack.sameFunds (h : k.TakesBack l l') (hl : l.Balanced)
    (hf : l.failBurns = false) (ho : l'.overflowed = false) : l.SameFunds l' := by
  cases h with
  | kept => exact ⟨fun _ _ => rfl, fun _ => rfl⟩
  | @burned amount m _ hm hb =>
    have hs := (Ledger.mint_shifts hm).trans (Ledger.burn_shifts hb)
    have hi := (Ledger.mint_issues hm).trans (Ledger.burn_issues hb)
    simp only [zero_add, add_zero] at hs hi
    exact (Ledger.Posts.of_shifts hs hi hl ho).sameFunds
  | stuck hm hb =>
    obtain ⟨l', hl'⟩ := Ledger.burn_of_mint hm ho hf
    rw [hl'] at hb
    cases hb

theorem Keeper.TakesBack.balanced (h : k.TakesBack l l') (hl : l.Balanced) : l'.Balanced := by
  cases h with
  | kept => exact hl
  | burned hm hb => exact ((Ledger.mint_issues hm).trans (Ledger.burn_issues hb)).balanced hl
  | stuck hm => exact (Ledger.mint_issues hm).balanced hl

theorem Keeper.Pays.balanced {content : Content} (h : k.Pays l content l') (hl : l.Balanced) :
    l'.Balanced := by
  cases h with
  | permitted => exact hl
  | paid hm ha => exact ((Ledger.mint_issues hm).trans (Ledger.toAccount_issues ha)).balanced hl

theorem Keeper.Spends.balanced {v : Verdict} {o : Outcome} (h : k.Spends v l o l')
    (hl : l.Balanced) : l'.Balanced := by
  cases h with
  | rejected => exact hl
  | failed h => exact h.balanced hl
  | executed _ h => exact h.balanced hl

theorem Keeper.Settles.balanced {x : Proposal} {deposit : Coins} {o : Outcome} {s : Settlement}
    (h : k.Settles x deposit l o s l') (hl : l.Balanced) : l'.Balanced := by
  cases h with
  | refunded _ h => exact (Ledger.toAccount_issues h).balanced hl
  | burned _ _ h => exact (Ledger.burn_issues h).balanced hl
  | _ => exact hl

theorem Keeper.Escrows.balanced {a : Address} {deposit : Coins} (h : k.Escrows a deposit l l')
    (hl : l.Balanced) : l'.Balanced := by
  cases h with
  | none => exact hl
  | moved _ h => exact (Ledger.toModule_issues h).balanced hl

/-! ### What is paid and what is settled -/

def Content.requested (d : String) : Content → Nat
  | .addLabel _ => 0
  | .requestTokens _ amount _ => Coins.totalIn d amount.list

def Content.requestedFor (a : Address) (d : String) : Content → Nat
  | .addLabel _ => 0
  | .requestTokens recipient amount _ =>
    if recipient = a.text then Coins.totalIn d amount.list else 0

@[simp] def Ledger.toAccounts (f : Address → String → Nat) : Flow
  | .account a, d => f a d
  | .moduleAccount _, _ => 0

@[simp] def Ledger.fromModule (name : String) (f : String → Nat) : Flow
  | .account _, _ => 0
  | .moduleAccount n, d => if n = name then f d else 0

theorem Keeper.Pays.posts {content : Content} (h : k.Pays l content l') (hl : l.Balanced)
    (ho : l'.overflowed = false) :
    l.Posts l' 0 (Ledger.toAccounts fun a d => content.requestedFor a d) 0
      fun d => content.requested d := by
  cases h with
  | permitted =>
    refine (Ledger.Posts.refl l).net (fun h d => ?_) fun d => rfl
    cases h <;> rfl
  | @paid a amount _ m _ hm ha =>
    have hs := (Ledger.mint_shifts hm).trans (Ledger.toAccount_shifts ha)
    have hi := (Ledger.mint_issues hm).trans (Ledger.toAccount_issues ha)
    refine (Ledger.Posts.of_shifts hs hi hl ho).net (fun h d => ?_) fun d => ?_
    · cases h with
      | account b =>
        have hb : a.text = b.text ↔ b = a :=
          ⟨fun h => (Address.text_inj h).symm, fun h => h ▸ rfl⟩
        simp [Ledger.flow, Content.requestedFor, hb]
      | moduleAccount n => simp [Ledger.flow]
    · simp [Content.requested]

@[simp] def Settlement.refund (deposit : Coins) (d : String) : Settlement → Nat
  | .refunded => Coins.totalIn d deposit.list
  | _ => 0

@[simp] def Settlement.burn (deposit : Coins) (d : String) : Settlement → Nat
  | .burned => Coins.totalIn d deposit.list
  | _ => 0

theorem Keeper.Settles.posts {x : Proposal} {deposit : Coins} {o : Outcome} {s : Settlement}
    (h : k.Settles x deposit l o s l') (hl : l.Balanced) (ho : l'.overflowed = false) :
    l.Posts l'
      (Ledger.fromModule k.moduleAccount fun d => s.refund deposit d + s.burn deposit d)
      (Ledger.toAccounts fun a d => if x.proposer = a then s.refund deposit d else 0)
      (fun d => s.burn deposit d) 0 := by
  cases h with
  | refunded _ h =>
    have hposts := Ledger.Posts.of_shifts (Ledger.toAccount_shifts h) (Ledger.toAccount_issues h)
      hl ho
    refine hposts.net (fun h d => ?_) fun _ => rfl
    cases h <;> simp [Ledger.flow, eq_comm]
  | burned _ _ h =>
    have hposts := Ledger.Posts.of_shifts (Ledger.burn_shifts h) (Ledger.burn_issues h) hl ho
    refine hposts.net (fun h d => ?_) fun _ => rfl
    cases h <;> simp [Ledger.flow]
  | _ =>
    refine (Ledger.Posts.refl l).net (fun h d => ?_) fun _ => rfl
    cases h <;> simp

/-! ### What a finalized proposal says -/

def Proposal.requests (f : Content → Nat) (x : Proposal) : Nat :=
  match x.content.unpack with
  | .ok content => f content
  | .error _ => 0

namespace Finalized

variable (f : Finalized) (c : Chain) (params : Params)

/-- A number that is read off the proposal as it is stored at `c`. -/
def readOff (g : Proposal → Nat) : Nat :=
  match c.store.proposal f.id with
  | .ok x => g x
  | .error _ => 0

def granted (d : String) : Nat :=
  if f.outcome = .executed then f.readOff c (Proposal.requests (Content.requested d)) else 0

def grantedTo (a : Address) (d : String) : Nat :=
  if f.outcome = .executed then f.readOff c (Proposal.requests (Content.requestedFor a d)) else 0

def refunded (d : String) : Nat := f.readOff c fun x => f.settlement.refund (params.heldFor x) d

def refundedTo (a : Address) (d : String) : Nat :=
  f.readOff c fun x => if x.proposer = a then f.settlement.refund (params.heldFor x) d else 0

def burned (d : String) : Nat := f.readOff c fun x => f.settlement.burn (params.heldFor x) d

end Finalized

variable {x : Proposal} {s : Settled}

theorem Finalized.readOff_eq {f : Finalized} (hx : c.store.proposal f.id = .ok x)
    (g : Proposal → Nat) : f.readOff c g = g x := by
  rw [readOff, hx]

theorem Proposal.requests_eq {content : Content} (hx : x.content.unpack = .ok content)
    (f : Content → Nat) : x.requests f = f content := by
  rw [requests, hx]

theorem Finalizing.balanced (hf : Finalizing k params x c s d) (hl : c.ledger.Balanced) :
    d.ledger.Balanced := by
  rw [hf.left]
  exact hf.settles.balanced (hf.spends.balanced hl)

theorem Finalizing.sameFunds (hf : Finalizing k params x c s d)
    (hn : s.finalized.outcome ≠ .executed) (hl : c.ledger.Balanced)
    (hb : c.ledger.failBurns = false) (ho : s.held.overflowed = false) :
    c.ledger.SameFunds s.held := by
  have hspends := hf.spends
  generalize s.finalized.outcome = o at hspends hn
  generalize s.held = l' at hspends ho
  cases hspends with
  | rejected => exact ⟨fun _ _ => rfl, fun _ => rfl⟩
  | failed h => exact h.sameFunds hl hb ho
  | executed => exact absurd rfl hn

theorem Finalizing.posts_held (hf : Finalizing k params x c s d)
    (hx : c₀.store.proposal s.finalized.id = .ok x) (hl : c.ledger.Balanced)
    (hb : c.ledger.failBurns = false) (ho : s.held.overflowed = false) :
    c.ledger.Posts s.held 0 (Ledger.toAccounts (s.finalized.grantedTo c₀)) 0
      (s.finalized.granted c₀) := by
  by_cases hn : s.finalized.outcome = .executed
  · have hspends := hf.spends
    generalize s.held = l' at hspends ho ⊢
    rw [hn] at hspends
    cases hspends with
    | executed hv hpays =>
      have hunpack := Params.unpack_of_judge hv
      refine (hpays.posts hl ho).net (fun h d => ?_) fun d => ?_
      · cases h <;> simp [Finalized.grantedTo, hn, Finalized.readOff_eq hx,
          Proposal.requests_eq hunpack]
      · simp [Finalized.granted, hn, Finalized.readOff_eq hx, Proposal.requests_eq hunpack]
  · refine (hf.sameFunds hn hl hb ho).posts.net (fun h d => ?_) fun d => ?_
    · cases h <;> simp [Finalized.grantedTo, hn]
    · simp [Finalized.granted, hn]

theorem Finalizing.posts_left (hf : Finalizing k params x c s d)
    (hx : c₀.store.proposal s.finalized.id = .ok x) (hl : s.held.Balanced)
    (ho : s.left.overflowed = false) :
    s.held.Posts s.left
      (Ledger.fromModule k.moduleAccount fun e =>
        s.finalized.refunded c₀ params e + s.finalized.burned c₀ params e)
      (Ledger.toAccounts fun a e => s.finalized.refundedTo c₀ params a e)
      (fun e => s.finalized.burned c₀ params e) 0 := by
  simpa only [Finalized.refunded, Finalized.refundedTo, Finalized.burned,
    Finalized.readOff_eq hx] using hf.settles.posts hl ho

/-! ### All proposals of a pass -/

def Ledger.leftBy (l : Ledger) : List Settled → Ledger
  | [] => l
  | s :: ss => s.left.leftBy ss

/-- Each proposal that was not executed was settled with all funds as it found them. -/
def Ledger.Undone (l : Ledger) : List Settled → Prop
  | [] => True
  | s :: ss => (s.finalized.outcome ≠ .executed → l.SameFunds s.held) ∧ s.left.Undone ss

theorem Ledger.leftBy_concat (l : Ledger) (ss : List Settled) (s : Settled) :
    l.leftBy (ss ++ [s]) = s.left := by
  induction ss generalizing l with
  | nil => rfl
  | cons t ss ih => exact ih t.left

theorem Ledger.Undone.concat {ss : List Settled} (h : l.Undone ss)
    (hs : s.finalized.outcome ≠ .executed → (l.leftBy ss).SameFunds s.held) :
    l.Undone (ss ++ [s]) := by
  induction ss generalizing l with
  | nil => exact ⟨hs, trivial⟩
  | cons t ss ih => exact ⟨h.1, ih h.2 hs⟩

/-- What a pass that finalized `fs` at `c` did to the funds. -/
structure Keeper.Accounts (k : Keeper) (params : Params) (c : Chain) (fs : List Finalized)
    (l : Ledger) : Prop where
  supply : ∀ d, (l.supplies.amount d).toNat + (fs.map (·.burned c params d)).sum =
    (c.ledger.supplies.amount d).toNat + (fs.map (·.granted c d)).sum
  account : ∀ a d, (l.balance (.account a) d).toNat = (c.ledger.balance (.account a) d).toNat +
    (fs.map fun f => f.grantedTo c a d + f.refundedTo c params a d).sum
  moduleAccount : ∀ d, (l.balance (.moduleAccount k.moduleAccount) d).toNat +
      (fs.map fun f => f.refunded c params d + f.burned c params d).sum =
    (c.ledger.balance (.moduleAccount k.moduleAccount) d).toNat
  others : ∀ name ≠ k.moduleAccount, ∀ d,
    l.balance (.moduleAccount name) d = c.ledger.balance (.moduleAccount name) d

theorem Keeper.accounts_iff {fs : List Finalized} :
    k.Accounts params c fs l ↔ c.ledger.Posts l
      (Ledger.fromModule k.moduleAccount fun d =>
        (fs.map fun f => f.refunded c params d + f.burned c params d).sum)
      (Ledger.toAccounts fun a d =>
        (fs.map fun f => f.grantedTo c a d + f.refundedTo c params a d).sum)
      (fun d => (fs.map (·.burned c params d)).sum) fun d => (fs.map (·.granted c d)).sum := by
  constructor
  · intro h
    refine ⟨fun a d => ?_, h.supply⟩
    cases a with
    | account a => exact h.account a d
    | moduleAccount name =>
      by_cases hn : name = k.moduleAccount
      · subst hn
        simpa using h.moduleAccount d
      · simp [hn, h.others name hn d]
  · intro h
    refine ⟨h.supply, fun a d => h.balance (.account a) d, fun d => ?_, fun name hn d => ?_⟩
    · simpa using h.balance (.moduleAccount k.moduleAccount) d
    · have hsame := h.balance (.moduleAccount name) d
      exact BitVec.eq_of_toNat_eq (by simpa [hn] using hsame)

theorem Keeper.Accounts.nil : k.Accounts params c [] c.ledger :=
  ⟨fun _ => rfl, fun _ _ => rfl, fun _ => rfl, fun _ _ _ => rfl⟩

theorem Keeper.Accounts.finalizing {fs : List Finalized} (h : k.Accounts params c₀ fs c.ledger)
    (hf : Finalizing k params x c s d) (hx : c₀.store.proposal s.finalized.id = .ok x)
    (hl : c.ledger.Balanced) (hb : c.ledger.failBurns = false) (ho : d.ledger.overflowed = false) :
    k.Accounts params c₀ (fs ++ [s.finalized]) d.ledger := by
  obtain ⟨hheld, -⟩ := hf.exact ho
  rw [hf.left] at ho ⊢
  have hgranted := hf.posts_held hx hl hb hheld
  have hsettled := hf.posts_left hx (hf.spends.balanced hl) ho
  refine Keeper.accounts_iff.2 (((Keeper.accounts_iff.1 h).trans
    (hgranted.trans hsettled)).net (fun h e => ?_) fun e => ?_)
  · cases h with
    | account a => simp [List.sum_append]
    | moduleAccount n => by_cases hn : n = k.moduleAccount <;> simp [List.sum_append, hn]
  · simp [List.sum_append]

theorem Keeper.Settles.outcome {o : Outcome} {deposit : Coins} {t : Settlement}
    (h : k.Settles x deposit l o t l') :
    (t = .refunded → o.status = .executed) ∧
      (t = .burned → o.status = .rejected ∨ o.status = .failed) := by
  cases h with
  | refunded => exact ⟨fun _ => rfl, nofun⟩
  | burned _ ho =>
    refine ⟨nofun, fun _ => ?_⟩
    cases o with
    | rejected => exact .inl rfl
    | failed => exact .inr rfl
    | executed => exact absurd rfl ho
  | _ => exact ⟨nofun, nofun⟩

def Finalized.SettledByStatus (f : Finalized) (c : Chain) : Prop :=
  (∃ x, c.store.proposal f.id = .ok x) ∧
    (f.settlement = .refunded → f.outcome.status = .executed) ∧
    (f.settlement = .burned → f.outcome.status = .rejected ∨ f.outcome.status = .failed)

structure Keeper.Accounted (k : Keeper) (params : Params) (c : Chain) (ss : List Settled)
    (d : Chain) : Prop where
  remains : c.Remains d
  balanced : d.ledger.Balanced
  last : d.ledger = c.ledger.leftBy ss
  settled : ∀ s ∈ ss, s.finalized.SettledByStatus c
  accounts : d.ledger.overflowed = false → k.Accounts params c (ss.map (·.finalized)) d.ledger
  undone : d.ledger.overflowed = false → c.ledger.Undone ss

namespace Keeper.Accounted

variable {ss : List Settled}

theorem start (hl : c.ledger.Balanced) : k.Accounted params c [] c where
  remains := .refl c
  balanced := hl
  last := rfl
  settled _ h := nomatch h
  accounts _ := .nil
  undone _ := trivial

theorem quiet (h : k.Accounted params c₀ ss c) (hq : c.Quiet d) : k.Accounted params c₀ ss d where
  remains := h.remains.quiet hq
  balanced := hq.ledger ▸ h.balanced
  last := hq.ledger.trans h.last
  settled := h.settled
  accounts := hq.ledger ▸ h.accounts
  undone := hq.ledger ▸ h.undone

theorem finalizing (h : k.Accounted params c₀ ss c) (hf : Finalizing k params x c s d)
    (hb : c₀.ledger.failBurns = false) : k.Accounted params c₀ (ss ++ [s]) d where
  remains := h.remains.finalizing hf
  balanced := hf.balanced h.balanced
  last := by rw [Ledger.leftBy_concat, hf.left]
  settled t ht := by
    rcases List.mem_append.1 ht with ht | ht
    · exact h.settled t ht
    · rw [List.mem_singleton.1 ht]
      exact ⟨⟨x, h.remains.stored hf⟩, hf.settles.outcome⟩
  accounts ho := by
    rw [List.map_append]
    exact (h.accounts (hf.exact ho).2).finalizing hf (h.remains.stored hf) h.balanced
      (h.remains.failBurns.trans hb) ho
  undone ho := by
    refine (h.undone (hf.exact ho).2).concat fun hn => ?_
    rw [← h.last]
    exact hf.sameFunds hn h.balanced (h.remains.failBurns.trans hb) (hf.exact ho).1

end Keeper.Accounted

theorem EndsBlock.accounted {ss : List Settled} (h : EndsBlock k c ss d) (hw : c.WellKept)
    (hparams : c.store.params = .ok params) (hl : c.ledger.Balanced)
    (hb : c.ledger.failBurns = false) : k.Accounted params c ss d := by
  refine (h.induct (P := k.Accounted params c) hw (.start hl) (fun _ _ _ _ h hq => h.quiet hq)
    fun params' ss x c' s d' _ h hf => ?_).1
  have hsame := h.remains.params_eq hf
  rw [hparams] at hsame
  cases hsame
  exact h.finalizing hf hb

/-! ### Chains with a ledger of their own -/

/-- The chain is reached from an empty store with the params and an empty ledger, by governance, by
what happens around it and by what else is asked of the ledger. -/
inductive Keeper.Reaches (k : Keeper) (p : Params) : Chain → Prop
  | start {c : Chain} (hc : c.Fresh p) (hl : c.ledger = .empty) : Reaches k p c
  | operation {c : Chain} (h : Reaches k p c) (op : Operation) : Reaches k p (k.moment op c).after
  | banking {c : Chain} (h : Reaches k p c) (op : Ledger.Operation) :
      Reaches k p { c with ledger := op.apply c.ledger }

theorem balanced_invariant (k : Keeper) :
    Invariant k (fun _ => True) fun _ c => c.ledger.Balanced where
  quiet _ h hq := hq.ledger ▸ h
  opens _ _ h ho := by
    obtain ⟨_, _, _, _, _, _, hescrow⟩ := ho.opened
    exact hescrow.balanced h
  refuses _ h hr := by
    rcases hr.ledger with hl | ⟨_, _, hescrow⟩
    · exact hl ▸ h
    · exact hescrow.balanced h
  casts _ h hv := hv.ledger ▸ h
  finalizes _ h hf := hf.balanced h
  updates _ _ h _ := h
  moves _ _ h := h
  incidents i _ _ h := by
    cases i with
    | fund a coin => exact (Ledger.fund_issues _ a coin).balanced h
    | _ => exact h.congr rfl rfl rfl

theorem Keeper.Reaches.keeps (h : k.Reaches p c) : c.WellKept ∧ c.ledger.Balanced := by
  induction h with
  | start hc hl => exact ⟨hc.wellKept, hl ▸ Ledger.balanced_empty⟩
  | operation _ op ih =>
    have hchange := changes_moment k ih.1 op
    exact ⟨ih.1.changes hchange, (balanced_invariant k).keeps trivial ih.1 ih.2 hchange⟩
  | banking _ op ih => exact ⟨ih.1.of_same rfl id rfl (Nat.le_refl _), ih.2.apply op⟩

theorem Keeper.Reaches.after (h : k.Reaches p c) (ops : List Operation) :
    k.Reaches p (k.after ops c) := by
  induction ops generalizing c with
  | nil => exact h
  | cons op ops ih => exact ih (h.operation op)

/-- A pass that ends well, while burns work and all amounts stay in range, moves what was granted
and what was settled, and nothing else; what was not executed moves nothing but its deposit. -/
theorem pass_accounts {fs : List Finalized} (hc : k.Reaches p c)
    (hb : c.ledger.failBurns = false) (h : k.endBlock c = .ok fs d)
    (ho : d.ledger.overflowed = false) :
    ∃ params, c.store.params = .ok params ∧ k.Accounts params c fs d.ledger ∧
      (∀ f ∈ fs, f.SettledByStatus c) ∧ fs = (k.settledAt c).map (·.finalized) ∧
      d.ledger = c.ledger.leftBy (k.settledAt c) ∧ c.ledger.Undone (k.settledAt c) := by
  obtain ⟨hw, hl⟩ := hc.keeps
  obtain ⟨params, _, hread, -⟩ := bind_eq_ok.1 h
  have hparams := (read_eq_ok.1 hread).1
  obtain ⟨hends, rfl⟩ := hw.endsBlock h
  have hdone := hends.accounted hw hparams hl hb
  exact ⟨params, hparams, hdone.accounts ho, List.forall_mem_map.2 hdone.settled, rfl,
    hdone.last, hdone.undone ho⟩

namespace Sample

def blocked : Address := ⟨"dns1rrrrrrrr", by decide⟩

def grant (recipient : Address) : Submission :=
  ⟨proposer.text, "Grant", "",
    some (Content.requestTokens recipient.text ⟨[⟨"udnsc", 7⟩]⟩ "Work").pack, .empty⟩

def grants : List Operation := [
  .incident (.fund proposer ⟨"stake", 20000000⟩),
  .incident (.fund proposer ⟨"udnsc", 5⟩),
  .incident (.blockRecipient blocked),
  .submit (grant proposer),
  .submit (grant blocked),
  .vote 0 proposer.text .yes,
  .vote 1 proposer.text .yes,
  .moveTo ⟨501⟩]

end Sample

theorem sample_accounts :
    ∃ d, Sample.keeper.endBlock (Sample.keeper.after Sample.grants Sample.start) =
        .ok [⟨0, .executed, .refunded⟩, ⟨1, .failed, .burned⟩] d ∧
      ∃ params, Sample.keeper.Accounts params (Sample.keeper.after Sample.grants Sample.start)
        [⟨0, .executed, .refunded⟩, ⟨1, .failed, .burned⟩] d.ledger := by
  have hresult : (Sample.keeper.moment .endBlock
      (Sample.keeper.after Sample.grants Sample.start)).result =
      .ok (.finalized [⟨0, .executed, .refunded⟩, ⟨1, .failed, .burned⟩]) := by decide +kernel
  obtain ⟨fs, hend, hfs⟩ := map_eq_ok.1 (Keeper.act_of_result hresult)
  cases hfs
  obtain ⟨params, -, haccounts, -⟩ := pass_accounts
    ((Keeper.Reaches.start Sample.start_fresh rfl).after Sample.grants) (by decide +kernel) hend
    (by decide +kernel)
  exact ⟨_, hend, params, haccounts⟩

end DaoGovernance
