import DaoGovernance.EndBlock
import DaoGovernance.Proofs.Action
import Mathlib

/-!
What finalizing proposals can change: by carrying them out the ledger, the registry, the lots and
the switch that a permit turns, and then their own records and the events.  What holds of each of
these steps, and of actions put together from actions it holds of, holds of a whole pass.
-/

namespace DaoGovernance

open DaoGovernance.Action

variable {k : Keeper} {c d : Chain} {p : Proposal}

/-! ### A proposal in two parts -/

def Params.judged (params : Params) (p : Proposal) (r : Except GovernanceError (List Vote)) :
    Proposal × Verdict :=
  ({ p with tally := (params.judge p r).1, status := (params.judge p r).2.status },
    (params.judge p r).2)

def storedVerdict (params : Params) (p : Proposal) : Action (Proposal × Verdict) := do
  Action.note (.finalizing p.id p.votingEnd (← Action.height))
  let (tally, verdict) := params.judge p ((← get).store.votes p.id)
  Action.note (verdict.notice p.id)
  let judged := { p with tally, status := verdict.status }
  storeVerdict judged
  return (judged, verdict)

namespace Keeper

def conclude (k : Keeper) (params : Params) (p judged : Proposal) (v : Verdict) :
    Action Finalized := do
  let o ← k.carryOut params judged v
  let settlement ← k.settle p o (params.heldFor p)
  Action.emit (.proposalFinished p.id o.status)
  Action.note (.proposalFinished { judged with status := o.status })
  return ⟨p.id, o, settlement⟩

theorem finalize_eq_conclude (k : Keeper) (params : Params) (p : Proposal) :
    k.finalize params p =
      storedVerdict params p >>= fun (judged, v) => k.conclude params p judged v := by
  simp only [finalize, storedVerdict, conclude, bind_assoc, pure_bind]

def finalizeOn (k : Keeper) (params : Params) (p : Proposal)
    (r : Except GovernanceError (List Vote)) : Action Finalized := do
  let j := params.judged p r
  Action.note (j.2.notice p.id)
  storeVerdict j.1
  k.conclude params p j.1 j.2

theorem finalize_eq_finalizeOn (k : Keeper) (params : Params) (p : Proposal) :
    k.finalize params p = (do
      Action.note (.finalizing p.id p.votingEnd (← Action.height))
      let c ← get
      k.finalizeOn params p (c.store.votes p.id)) := rfl

end Keeper

/-! ### What holds of every step -/

/-- What holds of actions put together from actions it holds of. -/
structure Action.Compositional (H : (α : Type) → Action α → Prop) : Prop where
  pure {α : Type} (a : α) : H α (pure a)
  throw {α : Type} (e : GovernanceError) : H α (throw e)
  bind {α β : Type} {x : Action α} {f : α → Action β} :
    H α x → (∀ a, H β (f a)) → H β (x >>= f)
  attempt {α : Type} {x : Action α} : H α x → H _ (attempt x)
  note (n : Notice) : H _ (note n)

structure HoldsOfExecuting (H : (α : Type) → Action α → Prop) : Prop extends Compositional H where
  height : H _ height
  tryMove (g : Ledger → Except BankError Ledger) : H _ (tryMove g)
  permit (label : String) : H _ (permit label)
  setLot (l : Lot) : H _ (write (Store.setLot l))

namespace HoldsOfExecuting

variable {H : (α : Type) → Action α → Prop}

theorem check (h : HoldsOfExecuting H) {α : Type} (r : Except GovernanceError α) : H _ (check r) := by
  cases r with
  | ok a => exact h.pure a
  | error e => exact h.throw e

theorem move (h : HoldsOfExecuting H) (g : Ledger → Except BankError Ledger) : H _ (move g) := by
  refine h.bind (h.tryMove g) fun r => ?_
  cases r with
  | ok a => exact h.pure a
  | error e => exact h.throw _

theorem grantLot (h : HoldsOfExecuting H) (l : Lot) : H _ (grantLot l) := by
  refine h.bind (h.attempt (h.setLot l)) fun r => ?_
  cases r with
  | ok => exact h.note _
  | error => exact h.note _

theorem payOut (h : HoldsOfExecuting H) (id : UInt64) (recipient : Address) (amount : Coins) :
    H _ (k.payOut id recipient amount) := by
  refine h.bind (h.tryMove _) fun r => ?_
  cases r with
  | ok => exact h.pure _
  | error e =>
    refine h.bind (h.tryMove _) fun r => ?_
    cases r with
    | ok => exact h.bind (h.pure _) fun _ => h.throw _
    | error => exact h.bind (h.note _) fun _ => h.throw _

theorem execute (h : HoldsOfExecuting H) (params : Params) (id : UInt64) (content : Content) :
    H _ (k.execute params id content) := by
  cases content with
  | addLabel l => exact h.bind (h.note _) fun _ => h.permit _
  | requestTokens r a _ =>
    refine h.bind (h.check _) fun recipient => h.bind (h.note _) fun _ => h.bind (h.move _) fun _ =>
      h.bind (h.payOut _ _ _) fun _ => ?_
    dsimp only
    split
    · exact h.bind h.height fun _ => h.grantLot _
    · exact h.pure _

theorem tryExecute (h : HoldsOfExecuting H) (params : Params) (id : UInt64) (content : Content) :
    H _ (k.tryExecute params id content) := by
  refine h.bind (h.attempt (h.execute params id content)) fun r => ?_
  cases r with
  | ok => exact h.bind (h.note _) fun _ => h.pure _
  | error => exact h.bind (h.note _) fun _ => h.pure _

theorem refund (h : HoldsOfExecuting H) (id : UInt64) (proposer : Address) (deposit : Coins) :
    H _ (k.refund id proposer deposit) := by
  refine h.bind (h.tryMove _) fun r => ?_
  cases r with
  | ok => exact h.bind (h.note _) fun _ => h.pure _
  | error => exact h.bind (h.note _) fun _ => h.pure _

theorem burnDeposit (h : HoldsOfExecuting H) (id : UInt64) (status : ProposalStatus) (deposit : Coins) :
    H _ (k.burnDeposit id status deposit) := by
  refine h.bind (h.tryMove _) fun r => ?_
  cases r with
  | ok => exact h.bind (h.note _) fun _ => h.pure _
  | error => exact h.bind (h.note _) fun _ => h.pure _

theorem settle (h : HoldsOfExecuting H) (p : Proposal) (o : Outcome) (deposit : Coins) :
    H _ (k.settle p o deposit) := by
  unfold Keeper.settle
  split
  · exact h.pure _
  · split
    · exact h.refund _ _ _
    · exact h.burnDeposit _ _ _

theorem storeVerdict (h : HoldsOfExecuting H) (hp : H _ (write (Store.setProposal p))) :
    H _ (storeVerdict p) := by
  refine h.bind (h.attempt hp) fun r => ?_
  cases r with
  | ok => exact h.pure _
  | error => exact h.bind (h.note _) fun _ => h.throw _

theorem storeOutcome (h : HoldsOfExecuting H) (hp : H _ (write (Store.setProposal p))) :
    H _ (storeOutcome p) := by
  refine h.bind (h.attempt hp) fun r => ?_
  cases r with
  | ok => exact h.pure _
  | error => exact h.note _

end HoldsOfExecuting

structure HoldsOfFinalizing (H : (α : Type) → Action α → Prop) (p : Proposal) : Prop extends
    HoldsOfExecuting H where
  votes {α : Type} {f : Except GovernanceError (List Vote) → Action α} :
    (∀ r, H α (f r)) → H α (get >>= fun c => f (c.store.votes p.id))
  emit (v : Event) : H _ (emit v)
  rewrite (t : Tally) (s : ProposalStatus) :
    H _ (write (Store.setProposal { p with tally := t, status := s }))

namespace HoldsOfFinalizing

variable {H : (α : Type) → Action α → Prop}

theorem carryOut (h : HoldsOfFinalizing H p) (params : Params) (t : Tally) (s : ProposalStatus)
    (v : Verdict) : H _ (k.carryOut params { p with tally := t, status := s } v) := by
  cases v with
  | uncountable => exact h.pure _
  | undecodable => exact h.pure _
  | rejected => exact h.pure _
  | passed content =>
    refine h.bind (h.tryExecute _ _ _) fun o => ?_
    exact h.bind (h.storeOutcome (h.rewrite t o.status)) fun _ => h.pure _

theorem finalize (h : HoldsOfFinalizing H p) (params : Params) : H _ (k.finalize params p) := by
  rw [Keeper.finalize_eq_finalizeOn]
  refine h.bind h.height fun _ => h.bind (h.note _) fun _ => h.votes fun r => ?_
  refine h.bind (h.note _) fun _ => h.bind (h.storeVerdict (h.rewrite _ _)) fun _ => ?_
  refine h.bind (h.carryOut params _ _ _) fun _ => h.bind (h.settle _ _ _) fun _ => ?_
  exact h.bind (h.emit _) fun _ => h.bind (h.note _) fun _ => h.pure _

theorem finalizeAll (h₀ : Compositional H) (params : Params) {ps : List Proposal}
    (h : ∀ p ∈ ps, HoldsOfFinalizing H p) : H _ (k.finalizeAll params ps) := by
  induction ps with
  | nil => exact h₀.pure _
  | cons p ps ih =>
    obtain ⟨hp, hps⟩ := List.forall_mem_cons.1 h
    exact h₀.bind (hp.finalize params) fun _ => h₀.bind (ih hps) fun _ => h₀.pure _

end HoldsOfFinalizing

/-! ### Relations of chains -/

section Within

variable {R : Chain → Chain → Prop} [Std.Refl R] [IsTrans Chain R]

theorem Action.Compositional.within [IgnoresLog R] : Compositional fun _ x => Within R x where
  pure _ := .pure
  throw _ := .throw
  bind := .bind
  attempt := .attempt
  note := .note

theorem HoldsOfExecuting.within [IgnoresLog R]
    (hledger : ∀ (c : Chain) l, R c { c with ledger := l })
    (hregistry : ∀ (c : Chain) r, R c { c with registry := r })
    (hpermit : ∀ c : Chain, R c { c with store := c.storeAtPermit })
    (hlot : ∀ (c : Chain) l s, c.store.setLot l = .ok s → R c { c with store := s }) :
    HoldsOfExecuting fun _ x => Within R x where
  toCompositional := .within
  height := .height
  tryMove _ := .tryMove fun c l _ => hledger c l
  permit _ := .of_ends fun c => .permit
    (fun r _ => IsTrans.trans _ _ _ (hpermit c) (hregistry { c with store := c.storeAtPermit } r))
    fun _ _ => hpermit c
  setLot l := .write fun c s => hlot c l s

theorem HoldsOfFinalizing.within (h : HoldsOfExecuting fun _ x => Within R x)
    (hemit : ∀ v, Within R (Action.emit v))
    (hp : ∀ t s, Within R (write (Store.setProposal { p with tally := t, status := s }))) :
    HoldsOfFinalizing (fun _ x => Within R x) p :=
  { h with
    votes := fun hf => .bind .get fun _ => hf _
    emit := hemit
    rewrite := hp }

end Within

/-! ### Proposals that can be written -/

/-- Proposals can be written, and a permit does not change that. -/
structure Chain.Writable (c : Chain) : Prop where
  works : c.store.view.failProposals = false
  steady : c.storeAtPermit = c.store

namespace Chain

theorem storeAtPermit_of_steady (h : c.faults.permitStopsWrites = false) :
    c.storeAtPermit = c.store := by simp [storeAtPermit, h]

theorem writable_iff : c.Writable ↔ c.store.view.failProposals = false ∧
    (c.faults.permitStopsWrites = false ∨ c.store.isOnTables = true) := by
  constructor
  · rintro ⟨hw, hs⟩
    refine ⟨hw, ?_⟩
    cases hp : c.faults.permitStopsWrites with
    | false => exact .inl rfl
    | true =>
      rw [storeAtPermit, if_pos hp] at hs
      cases hstore : c.store with
      | memory m =>
        rw [hstore] at hs hw
        rw [← hs] at hw
        cases hw
      | tables t => exact .inr rfl
  · rintro ⟨hw, hp | ht⟩
    · exact ⟨hw, storeAtPermit_of_steady hp⟩
    · refine ⟨hw, ?_⟩
      cases hstore : c.store with
      | memory m =>
        rw [hstore] at ht
        cases ht
      | tables t =>
        rw [storeAtPermit, hstore]
        split <;> rfl

theorem Writable.becomes {s : Store} {v : Store.View} {l : Address × UInt64 → Option Bytes}
    (h : c.Writable) (hb : c.store.Becomes s v l)
    (hv : v.failProposals = c.store.view.failProposals) : { c with store := s }.Writable := by
  obtain ⟨hw, hp⟩ := writable_iff.1 h
  refine writable_iff.2 ⟨?_, ?_⟩
  · rw [hb.view, hv, hw]
  · rwa [hb.isOnTables]

def KeepsWritable (c d : Chain) : Prop := c.Writable → d.Writable

instance : Std.Refl KeepsWritable := ⟨fun _ h => h⟩

instance : IsTrans Chain KeepsWritable := ⟨fun _ _ _ h k => k ∘ h⟩

instance : IgnoresLog KeepsWritable := ⟨fun _ _ h => ⟨h.works, h.steady⟩⟩

end Chain

theorem setProposal_keepsWritable (p : Proposal) :
    Within Chain.KeepsWritable (write (Store.setProposal p)) :=
  .write fun _ _ hs h => h.becomes (Store.putProposal_becomes (Store.stored_eq_ok.1 hs)) rfl

theorem finalizing_keepsWritable (p : Proposal) :
    HoldsOfFinalizing (fun _ x => Within Chain.KeepsWritable x) p := by
  apply HoldsOfFinalizing.within
  · apply HoldsOfExecuting.within
    · exact fun _ _ h => ⟨h.works, h.steady⟩
    · exact fun _ _ h => ⟨h.works, h.steady⟩
    · exact fun c h => h.steady.symm ▸ h
    · exact fun _ _ _ hs h => h.becomes (Store.putLot_becomes (Store.stored_eq_ok.1 hs)) rfl
  · exact fun _ _ h => ⟨h.works, h.steady⟩
  · exact fun _ _ => setProposal_keepsWritable _

/-! ### Votes that are listed -/

namespace Store

variable {s s' : Store} {id : UInt64}

theorem votesOn_putProposal {b : Bytes} (h : s.putProposal id b = .ok s') (i : UInt64) :
    s'.votesOn i = s.votesOn i := by
  cases s with
  | memory m =>
    simp only [putProposal, MemoryStore.putProposal] at h
    split at h <;> cases h
    rfl
  | tables t =>
    cases h
    rfl

theorem votesOn_putLot {a : Address} {b : Bytes} (h : s.putLot a id b = .ok s') (i : UInt64) :
    s'.votesOn i = s.votesOn i := by
  cases s with
  | memory m =>
    simp only [putLot, MemoryStore.putLot] at h
    split at h <;> cases h
    rfl
  | tables t =>
    cases h
    rfl

end Store

theorem Chain.votesOn_storeAtPermit (c : Chain) (i : UInt64) :
    c.storeAtPermit.votesOn i = c.store.votesOn i := by
  unfold storeAtPermit
  split
  · cases c.store <;> rfl
  · rfl

def Chain.ListsVotes (c d : Chain) : Prop := ∀ i, d.store.votesOn i = c.store.votesOn i

instance : Std.Refl Chain.ListsVotes := ⟨fun _ _ => rfl⟩

instance : IsTrans Chain Chain.ListsVotes := ⟨fun _ _ _ h k i => (k i).trans (h i)⟩

instance : IgnoresLog Chain.ListsVotes := ⟨fun _ _ _ => rfl⟩

theorem finalizing_listsVotes (p : Proposal) :
    HoldsOfFinalizing (fun _ x => Within Chain.ListsVotes x) p := by
  apply HoldsOfFinalizing.within
  · apply HoldsOfExecuting.within
    · exact fun _ _ _ => rfl
    · exact fun _ _ _ => rfl
    · exact Chain.votesOn_storeAtPermit
    · exact fun _ _ _ hs => Store.votesOn_putLot (Store.stored_eq_ok.1 hs)
  · exact fun _ _ _ => rfl
  · exact fun _ _ => .write fun _ _ hs => Store.votesOn_putProposal (Store.stored_eq_ok.1 hs)

theorem Chain.ListsVotes.votes (h : c.ListsVotes d) (i : UInt64) :
    d.store.votes i = c.store.votes i := by
  rw [Store.votes, h i, Store.votes]

end DaoGovernance
