import DaoGovernance.Proofs.Genesis
import DaoGovernance.Proofs.Pass
import Mathlib

/-!
The module account covers the deposits of all open proposals, whatever fails, as long as the params
ask for the same deposits.  So the settling of a deposit is refused only where a switch says so.
-/

namespace DaoGovernance

open Ledger (Shifts)

variable {k : Keeper} {p q params : Params} {c d : Chain}

/-! ### Deposits -/

def Params.SameDeposits (p q : Params) : Prop :=
  q.submissionDeposit = p.submissionDeposit ∧ q.labelDeposit = p.labelDeposit

namespace Params.SameDeposits

theorem depositFor (h : p.SameDeposits q) (content : Content) :
    q.depositFor content = p.depositFor content := by
  rw [Params.depositFor, Params.depositFor, h.1, h.2]

theorem heldFor (h : p.SameDeposits q) (x : Proposal) : q.heldFor x = p.heldFor x := by
  unfold Params.heldFor
  split
  · exact h.depositFor _
  · exact h.1

end Params.SameDeposits

def Params.heldIn (p : Params) (d : String) (x : Proposal) : Nat :=
  if x.isOpen then Coins.totalIn d (p.heldFor x).list else 0

theorem Params.heldIn_of_isOpen {x : Proposal} {d : String} (h : x.isOpen = true) :
    p.heldIn d x = Coins.totalIn d (p.heldFor x).list := if_pos h

theorem Params.heldIn_finish (x : Proposal) (t : Tally) (o : Outcome) (d : String) :
    p.heldIn d (x.finish t o) = 0 := by
  rw [heldIn, Proposal.not_isOpen_finish]
  rfl

namespace Store.View

variable {v w : View} {id : UInt64} {x : Proposal} {e : String}

def heldBy (v : View) (p : Params) (d : String) (id : UInt64) : Nat :=
  (v.proposal id).elim 0 (p.heldIn d)

def held (v : View) (p : Params) (d : String) : Nat := ∑ id, v.heldBy p d id

theorem held_congr (h : w.proposals = v.proposals) : w.held p e = v.held p e := by
  unfold held heldBy
  simp only [proposal_congr (congrFun h _)]

theorem heldBy_eq (h : v.proposal id = some x) : v.heldBy p e id = p.heldIn e x := by
  rw [heldBy, h]
  rfl

theorem heldBy_le_held (v : View) (id : UInt64) : v.heldBy p e id ≤ v.held p e :=
  Finset.single_le_sum (f := v.heldBy p e) (fun _ _ => Nat.zero_le _) (Finset.mem_univ id)

theorem held_put (hx : x.Fits) :
    (v.put x).held p e + v.heldBy p e x.id = v.held p e + p.heldIn e x := by
  have hnew := Finset.add_sum_erase Finset.univ ((v.put x).heldBy p e) (Finset.mem_univ x.id)
  have hold := Finset.add_sum_erase Finset.univ (v.heldBy p e) (Finset.mem_univ x.id)
  have hrest : ∑ id ∈ Finset.univ.erase x.id, (v.put x).heldBy p e id =
      ∑ id ∈ Finset.univ.erase x.id, v.heldBy p e id := by
    refine Finset.sum_congr rfl fun id hid => ?_
    rw [heldBy, proposal_put_of_ne (Finset.ne_of_mem_erase hid), heldBy]
  rw [heldBy_eq (proposal_put_self hx)] at hnew
  unfold held
  omega

end Store.View

/-! ### What the module account covers -/

structure Chain.Escrowed (k : Keeper) (p : Params) (c : Chain) : Prop where
  params : ∃ q : Params, c.store.view.params = some q.encode ∧ q.Fits ∧ p.SameDeposits q
  covers : c.ledger.overflowed = false → ∀ d,
    c.store.view.held p d ≤ (c.ledger.balance (.moduleAccount k.moduleAccount) d).toNat

namespace Chain.Escrowed

theorem sameDeposits (h : c.Escrowed k p) (hq : c.store.params = .ok q) : p.SameDeposits q := by
  obtain ⟨r, hr, hf, hs⟩ := h.params
  rw [Store.params_eq hf hr] at hq
  cases hq
  exact hs

theorem of_ledger (h : c.Escrowed k p) (hp : d.store.view.params = c.store.view.params)
    (hv : d.store.view.proposals = c.store.view.proposals)
    (hl : d.ledger.overflowed = false → c.ledger.overflowed = false ∧ ∀ e,
      (c.ledger.balance (.moduleAccount k.moduleAccount) e).toNat ≤
        (d.ledger.balance (.moduleAccount k.moduleAccount) e).toNat) : d.Escrowed k p where
  params := hp ▸ h.params
  covers ho e := by
    rw [Store.View.held_congr hv]
    exact (h.covers (hl ho).1 e).trans ((hl ho).2 e)

theorem congr (h : c.Escrowed k p) (hp : d.store.view.params = c.store.view.params)
    (hv : d.store.view.proposals = c.store.view.proposals) (hl : d.ledger = c.ledger) :
    d.Escrowed k p :=
  h.of_ledger hp hv fun ho => ⟨hl ▸ ho, fun e => by rw [hl]⟩

end Chain.Escrowed

theorem Chain.Escrowed.opens {s : Submission} {x : Proposal} (h : c.Escrowed k p) (hs : s.Fits)
    (ho : Opens k s c x d) : d.Escrowed k p := by
  obtain ⟨content, q, snapshot, hcontent, hq, hx, hescrow⟩ := ho.opened
  have hsame := h.sameDeposits hq
  refine ⟨by rw [ho.view]; exact h.params, fun hover e => ?_⟩
  obtain ⟨hover', hbalance⟩ := hescrow.balance hover
  have hheld : p.heldIn e x = Coins.totalIn e (q.depositFor content).list := by
    have hopen : x.isOpen = true := by rw [hx]; rfl
    have hpack : x.content = content.pack := by rw [hx]; rfl
    rw [Params.heldIn_of_isOpen hopen, hsame.depositFor,
      Params.heldFor_of_content (Submission.fits_of_readContent hs hcontent).1 hpack]
  have hput := Store.View.held_put (v := c.store.view) (p := p) (e := e) (ho.fits hs)
  have hv : d.store.view.held p e = (c.store.view.put x).held p e :=
    Store.View.held_congr (by rw [ho.view])
  have hcovers := h.covers hover' e
  have := hbalance e
  omega

theorem Chain.Escrowed.covers_held {x : Proposal} {s : Settled} (h : c.Escrowed k p)
    (hf : Finalizing k params x c s d) (ho : s.held.overflowed = false) (e : String) :
    Coins.totalIn e (params.heldFor x).list ≤
      (s.held.balance (.moduleAccount k.moduleAccount) e).toNat := by
  have hx : c.store.view.heldBy p e x.id = Coins.totalIn e (params.heldFor x).list := by
    rw [Store.View.heldBy_eq hf.stored, Params.heldIn_of_isOpen hf.isOpen,
      (h.sameDeposits hf.params).heldFor]
  obtain ⟨lost, gained, hs, -⟩ := hf.held
  calc Coins.totalIn e (params.heldFor x).list
    _ = c.store.view.heldBy p e x.id := hx.symm
    _ ≤ c.store.view.held p e := Store.View.heldBy_le_held _ _
    _ ≤ (c.ledger.balance (.moduleAccount k.moduleAccount) e).toNat := h.covers (hs.exact ho) e
    _ ≤ (s.held.balance (.moduleAccount k.moduleAccount) e).toNat := hf.held.toNat_balance_le ho

theorem Chain.Escrowed.finalizes {x : Proposal} {s : Settled} (h : c.Escrowed k p)
    (hf : Finalizing k params x c s d) : d.Escrowed k p := by
  refine ⟨by rw [hf.view]; exact h.params, fun ho e => ?_⟩
  obtain ⟨hheld, hover⟩ := hf.exact ho
  obtain ⟨lost, gained, hs, hlost⟩ := hf.settles.shifts
  have hsettled := hs.balance (hf.left ▸ ho) (.moduleAccount k.moduleAccount) e
  rw [← hf.left] at hsettled
  have hlost := hlost e
  have hmost := hf.held.toNat_balance_le (d := e) hheld
  have hcovers := h.covers hover e
  have hput := Store.View.held_put (v := c.store.view) (p := p) (e := e)
    ((Store.View.fits_of_proposal hf.stored).finish
      (params.judge x (c.store.votes x.id)).1 s.finalized.outcome)
  rw [Proposal.finish_id, Params.heldIn_finish, Store.View.heldBy_eq hf.stored,
    Params.heldIn_of_isOpen hf.isOpen, ← (h.sameDeposits hf.params).heldFor, ← hf.view] at hput
  omega

theorem Chain.Escrowed.incidents (h : c.Escrowed k p) (i : Incident) :
    (i.apply c).Escrowed k p := by
  refine h.of_ledger (i.agrees c).params (i.agrees c).proposals fun ho => ?_
  rcases i.spares k.moduleAccount c with hs | ⟨hb, hover⟩
  · refine ⟨?_, fun e => hs.toNat_balance_le ho⟩
    obtain ⟨lost, gained, hs, -⟩ := hs
    exact hs.exact ho
  · refine ⟨hover ▸ ho, fun e => ?_⟩
    rw [Ledger.balance_eq, Ledger.balance_eq, hb]

/-! ### Runs -/

def Operation.KeepsDeposits (k : Keeper) (p : Params) : Operation → Prop
  | .updateParams authority q =>
    authority = k.authority.text → q.validate = .ok () → p.SameDeposits q
  | _ => True

theorem escrowed_invariant (k : Keeper) (p : Params) :
    Invariant k (fun op => op.Fits ∧ op.KeepsDeposits k p) fun _ c => c.Escrowed k p where
  quiet _ h hq := h.congr (by rw [hq.view]) (by rw [hq.view]) hq.ledger
  opens hA _ h ho := h.opens hA.1 ho
  refuses _ h hr := by
    obtain ⟨id, hv, -⟩ := hr.view
    rcases hr.ledger with hl | ⟨a, deposit, hescrow⟩
    · exact h.congr (by rw [hv]) (by rw [hv]) hl
    · refine h.of_ledger (by rw [hv]) (by rw [hv]) fun ho => ?_
      obtain ⟨hover, hb⟩ := hescrow.balance ho
      exact ⟨hover, fun e => by rw [hb e]; exact Nat.le_add_right _ _⟩
  casts _ h hv := h.congr (by rw [hv.view]) (by rw [hv.view]) hv.ledger
  finalizes _ h hf := h.finalizes hf
  updates {es c q} hA _ h hv := by
    refine ⟨⟨q, by rw [Store.view_putParams], hA.1, hA.2 rfl hv⟩, ?_⟩
    rw [Store.view_putParams]
    exact h.covers
  moves _ _ h := h.congr rfl rfl rfl
  incidents i _ _ h := h.incidents i

/-! ### Settlements that fail -/

/-- If the settlement failed, the proposer was blocked or burns were switched off. -/
def Finalized.Excused (f : Finalized) (c : Chain) : Prop :=
  ∀ e, f.settlement = .failed e →
    (f.outcome = .executed ∧ ∃ x, c.store.proposal f.id = .ok x ∧
      c.ledger.blocked.contains x.proposer = true ∧ e = .blocked x.proposer) ∨
    (f.outcome ≠ .executed ∧ c.ledger.failBurns = true ∧ e = .backend "injected burn failure")

theorem Ledger.transfer_of_covers {l : Ledger} {s t : Holder} {cs : Coins}
    (h : l.covers s cs = true) : ∃ l', l.transfer s t cs = .ok l' := by
  rw [transfer, if_pos h]
  exact ⟨_, rfl⟩

theorem Keeper.Settles.failed {x : Proposal} {deposit : Coins} {l l' : Ledger} {o : Outcome}
    {e : BankError} (h : k.Settles x deposit l o (.failed e) l')
    (hc : l.covers (.moduleAccount k.moduleAccount) deposit = true) :
    (o = .executed ∧ l.blocked.contains x.proposer = true ∧ e = .blocked x.proposer) ∨
    (o ≠ .executed ∧ l.failBurns = true ∧ e = .backend "injected burn failure") := by
  cases h with
  | refundFailed _ h =>
    unfold Ledger.toAccount at h
    split at h
    · rename_i hb
      cases h
      exact .inl ⟨rfl, hb, rfl⟩
    · obtain ⟨l', hl⟩ := Ledger.transfer_of_covers (t := .account x.proposer) hc
      rw [hl] at h
      cases h
  | burnFailed _ ho h =>
    unfold Ledger.burn at h
    split at h
    · rename_i hf
      cases h
      exact .inr ⟨ho, hf, rfl⟩
    · cases h

theorem Finalizing.excused {c₀ : Chain} {x : Proposal} {s : Settled}
    (hf : Finalizing k params x c s d) (h : c₀.Remains c) (he : c.Escrowed k p)
    (ho : d.ledger.overflowed = false) : s.finalized.Excused c₀ := by
  intro e hs
  have hsettles := hf.settles
  rw [hs] at hsettles
  have hcovers := Ledger.covers_of_totalIn_le fun d => he.covers_held hf (hf.exact ho).1 d
  obtain ⟨hblocked, hburns⟩ := hf.held_remains
  rcases hsettles.failed hcovers with ⟨ho, hb, rfl⟩ | ⟨ho, hb, rfl⟩
  · exact .inl ⟨ho, x, h.stored hf, by rw [← h.blocked, ← hblocked, hb], rfl⟩
  · exact .inr ⟨ho, by rw [← h.failBurns, ← hburns, hb], rfl⟩

theorem EndsBlock.excused {ss : List Settled} (h : EndsBlock k c ss d) (hw : c.WellKept)
    (he : c.Escrowed k p) (ho : d.ledger.overflowed = false) :
    ∀ s ∈ ss, s.finalized.Excused c := by
  intro s hs
  obtain ⟨params, x, c', d', hr, he, hf, ho'⟩ := h.each hw he
    (fun _ _ he hq => he.congr (by rw [hq.view]) (by rw [hq.view]) hq.ledger)
    (fun _ _ _ _ _ he hf => he.finalizes hf) s hs
  exact hf.excused hr he (ho' ho)

/-! ### Runs that keep the deposits -/

def Chain.Solvent (k : Keeper) (c : Chain) : Prop :=
  ∃ params ps, c.store.params = .ok params ∧ c.store.proposals = .ok ps ∧ ∀ d,
    ((ps.filter (·.isOpen)).map fun x => ((params.heldFor x).amountOf d).toNat).sum ≤
      (c.ledger.balance (.moduleAccount k.moduleAccount) d).toNat

theorem Store.View.sum_le_held {v : View} {ps : List Proposal} (hn : (ps.map (·.id)).Nodup)
    (hm : ∀ x ∈ ps, v.proposal x.id = some x) (d : String) :
    ((ps.filter (·.isOpen)).map fun x => ((p.heldFor x).amountOf d).toNat).sum ≤ v.held p d := by
  have hfilter (xs : List Proposal) :
      ((xs.filter (·.isOpen)).map fun x => ((p.heldFor x).amountOf d).toNat).sum ≤
        (xs.map (p.heldIn d)).sum := by
    induction xs with
    | nil => simp
    | cons x xs ih =>
      have hx := Coins.amountOf_le_totalIn (p.heldFor x) d
      cases ho : x.isOpen with
      | false => simp [ho, ih, Params.heldIn]
      | true =>
        simp only [List.filter_cons, ho, if_true, List.map_cons, List.sum_cons,
          Params.heldIn_of_isOpen ho]
        omega
  calc ((ps.filter (·.isOpen)).map fun x => ((p.heldFor x).amountOf d).toNat).sum
    _ ≤ (ps.map (p.heldIn d)).sum := hfilter ps
    _ = ((ps.map (·.id)).map (v.heldBy p d)).sum := by
      rw [List.map_map]
      exact congrArg List.sum (List.map_congr_left fun x hx => (heldBy_eq (hm x hx)).symm)
    _ = ∑ id ∈ (ps.map (·.id)).toFinset, v.heldBy p d id := (List.sum_toFinset _ hn).symm
    _ ≤ v.held p d := Finset.sum_le_univ_sum_of_nonneg fun _ => Nat.zero_le _

theorem Chain.Escrowed.solvent (h : c.Escrowed k p) (hw : c.WellKept) (hr : c.Readable)
    (ho : c.ledger.overflowed = false) : c.Solvent k := by
  obtain ⟨q, hq, hf, hs⟩ := h.params
  obtain ⟨ps, hps, hn, hm⟩ := Store.proposals_eq hw.sound hw.owned hr.proposals
  refine ⟨q, ps, Store.params_eq hf hq, hps, fun d => ?_⟩
  simp only [hs.heldFor]
  exact (Store.View.sum_le_held hn (fun x hx => (hm x).1 hx) d).trans (h.covers ho d)

theorem Chain.Fresh.escrowed (h : c.Fresh p) (k : Keeper) : c.Escrowed k p := by
  refine ⟨⟨p, h.params, h.fits, rfl, rfl⟩, fun _ d => ?_⟩
  have hz : c.store.view.held p d = 0 :=
    Finset.sum_eq_zero fun id _ => by rw [Store.View.heldBy, h.proposal]; rfl
  rw [hz]
  exact Nat.zero_le _

theorem finalized_subset {op : Operation} {es : List Event} {fs : List Finalized}
    (h : Changes k c op es fs d) :
    ∀ f ∈ fs, op = .endBlock ∧ f ∈ (k.settledAt c).map (·.finalized) := by
  cases h with
  | ended _ hfs =>
    rcases hfs with rfl | rfl
    · simp
    · exact fun f hf => ⟨rfl, hf⟩
  | _ => simp

/-- A run from valid params that keeps the deposits as they are ends solvent, and no deposit that
it had to settle was missing. -/
theorem solvent_after {ops : List Operation} (hc : c.Fresh p) (hfits : ∀ op ∈ ops, op.Fits)
    (hkeeps : ∀ op ∈ ops, op.KeepsDeposits k p)
    (ho : (k.after ops c).ledger.overflowed = false) :
    (k.after ops c).Solvent k ∧ ∀ m ∈ k.history ops c,
      (∀ f ∈ m.finalized, ∃ s ∈ k.settled m, s.finalized = f) ∧
      ∀ s ∈ k.settled m, s.finalized.Excused m.before := by
  have hw := hc.wellKept
  have escrowed {ops₁ : List Operation} (hsub : ops₁ ⊆ ops) : (k.after ops₁ c).Escrowed k p :=
    (escrowed_invariant k p).run (fun op hop => ⟨hfits op (hsub hop), hkeeps op (hsub hop)⟩) hw
      (hc.escrowed k)
  refine ⟨(escrowed (List.Subset.refl _)).solvent (hw.after k ops)
    ((readable_invariant k).run hfits hw hc.readable) ho, fun m hm => ?_⟩
  obtain ⟨ops₁, op, ops₂, rfl, rfl⟩ := Keeper.mem_history.1 hm
  have hw₁ := hw.after k ops₁
  have hchange := changes_moment k hw₁ op
  have ho₁ : (k.moment op (k.after ops₁ c)).after.ledger.overflowed = false := by
    rw [Keeper.after_append] at ho
    exact exact_of_after (hw₁.changes hchange) ho
  refine ⟨fun f hf => ?_, fun s hs => ?_⟩
  · obtain ⟨hop, hf⟩ := finalized_subset hchange f hf
    obtain ⟨s, hs, hsf⟩ := List.mem_map.1 hf
    exact ⟨s, Keeper.mem_settled.2 ⟨hop, hs⟩, hsf⟩
  · obtain ⟨rfl, hat⟩ := Keeper.mem_settled.1 hs
    rw [Keeper.moment_before]
    have he := endsBlock_moment (k := k) hw₁.steady hw₁.sound hw₁.owned
    exact he.excused hw₁ (escrowed (by simp)) ho₁ s hat

theorem sample_solvent :
    (Sample.keeper.after Sample.operations Sample.start).Solvent Sample.keeper ∧
      ((Sample.keeper.history Sample.operations Sample.start).flatMap Moment.finalized).map
        (·.settlement) = [.refunded] := by
  refine ⟨(solvent_after Sample.start_fresh Sample.operations_fit ?_ ?_).1, ?_⟩
  · intro op hop
    fin_cases hop <;> exact trivial
  · decide +kernel
  · decide +kernel

end DaoGovernance
