import DaoGovernance.Proofs.Finality
import DaoGovernance.Proofs.Pass
import Mathlib

/-!
What is settled for a proposal against what it put in.  Both are looked up in the params, at
submission and again when the proposal is finalized, so they are the same just when the params ask
for the same deposit at both times.
-/

namespace DaoGovernance

open DaoGovernance.Action

variable {k : Keeper} {p : Params} {c d : Chain}

/-! ### Deposits of valid params -/

theorem Params.validate_deposits (h : p.validate = .ok ()) :
    p.submissionDeposit.validate = .ok () ∧ p.labelDeposit.validate = .ok () := by
  unfold validate at h
  split at h
  · cases h
  · cases hs : p.submissionDeposit.validate with
    | error e => simp [about, hs, bind, Except.bind] at h
    | ok u =>
      cases hl : p.labelDeposit.validate with
      | error e => simp [about, hs, hl, bind, Except.bind] at h
      | ok v => exact ⟨rfl, rfl⟩

theorem Params.canonical_depositFor (h : p.validate = .ok ()) (content : Content) :
    (p.depositFor content).Canonical := by
  unfold depositFor
  split
  · exact Coins.canonical_of_validate (validate_deposits h).2
  · exact Coins.canonical_of_validate (validate_deposits h).1

/-! ### Where proposals come from -/

def Keeper.Opened (k : Keeper) (m : Moment) (id : UInt64) (content : Content) : Prop :=
  ∃ s, m.operation = .submit s ∧ s.readContent = .ok content ∧ k.submit s m.before = .ok id m.after

theorem EndsBlock.contents {ss : List Settled} (h : EndsBlock k c ss d) (hw : c.WellKept) :
    ∀ id y, d.store.view.proposal id = some y →
      ∃ x, c.store.view.proposal id = some x ∧ y.content = x.content := by
  refine (h.induct (P := fun _ d => ∀ id y, d.store.view.proposal id = some y →
    ∃ x, c.store.view.proposal id = some x ∧ y.content = x.content) hw
    (fun _ y hy => ⟨y, hy, rfl⟩) ?_ ?_).1
  · intro _ c' d' _ hP hq
    rw [hq.view]
    exact hP
  · intro params _ x c' s d' _ hP hf id y hy
    by_cases hid : id = x.id
    · rw [hid, hf.after] at hy
      cases hy
      exact hid ▸ hP x.id x hf.stored
    · rw [Store.View.proposal_congr (hf.proposals_of_ne hid)] at hy
      exact hP id y hy

theorem contents_moment (hw : c.WellKept) {op : Operation} {id : UInt64} {y : Proposal}
    (hy : (k.moment op c).after.store.view.proposal id = some y) :
    (∃ x, c.store.view.proposal id = some x ∧ y.content = x.content) ∨
      ∃ content, k.Opened (k.moment op c) id content := by
  rcases (changes_moment k hw op).proposals with ⟨s, p, hs, ho, hid⟩ | ⟨-, he⟩ | hv
  · by_cases hne : id = p.id
    · obtain ⟨content, params, snapshot, hcontent, -, -, -⟩ := ho.opened
      refine .inr ⟨content, s, by rw [Keeper.moment_operation, hs], hcontent, ?_⟩
      rw [Keeper.moment_before, hne]
      exact hid
    · refine .inl ⟨y, ?_, rfl⟩
      rw [← hy]
      refine (Store.View.proposal_congr ?_).symm
      rw [ho.view]
      exact Store.View.proposals_put_of_ne hne
  · exact .inl (he.contents hw id y hy)
  · rw [Store.View.proposal_congr (congrFun hv id)] at hy
    exact .inl ⟨y, hy, rfl⟩

theorem Keeper.Opened.opens {n : Moment} {id : UInt64} {content : Content}
    (h : k.Opened n id content) (hs : n.before.store.Sound) :
    ∃ s x params, n.operation = .submit s ∧ x.id = id ∧ Opens k s n.before x n.after ∧
      n.before.store.params = .ok params ∧ x.content = content.pack ∧ s.readContent = .ok content ∧
      k.Escrows x.proposer (params.depositFor content) n.before.ledger n.after.ledger := by
  obtain ⟨s, hop, hcontent, hsubmit⟩ := h
  obtain ⟨x, hid, ho⟩ := (submit_ends hs s).of_ok hsubmit
  obtain ⟨content', params, snapshot, hcontent', hparams, hx, hescrow⟩ := ho.opened
  rw [hcontent] at hcontent'
  cases hcontent'
  exact ⟨s, x, params, hop, hid, ho, hparams, by rw [hx]; rfl, hcontent, hescrow⟩

theorem Keeper.opened_moment {s : Submission} {id : UInt64} {content : Content}
    (hcontent : s.readContent = .ok content)
    (h : (k.moment (.submit s) c).result = .ok (.submitted id)) :
    k.Opened (k.moment (.submit s) c) id content := by
  obtain ⟨s', hop, hx⟩ := submit_of_result h
  cases hop
  refine ⟨s, moment_operation .., hcontent, ?_⟩
  rw [moment_before]
  exact hx

structure Traced (k : Keeper) (ms : List Moment) (c : Chain) : Prop where
  stored : ∀ n ∈ ms, ∀ id content, k.Opened n id content →
    ∃ x, c.store.view.proposal id = some x ∧ x.content = content.pack
  origin : ∀ id x, c.store.view.proposal id = some x → ∃ n ∈ ms, ∃ content, k.Opened n id content

theorem content_moment (hw : c.WellKept) (op : Operation) {id : UInt64} {x : Proposal}
    (hx : c.store.view.proposal id = some x) :
    ∃ y, (k.moment op c).after.store.view.proposal id = some y ∧ y.content = x.content := by
  obtain ⟨b, hb, hdec⟩ := Store.View.proposal_eq_some.1 hx
  obtain ⟨b', hb', hkept⟩ := (changes_moment k hw op).records hw hb
  rcases hkept with rfl | ⟨-, x', t, o, hx', -, -, hfin⟩
  · exact ⟨x, Store.View.proposal_eq_some.2 ⟨b', hb', hdec⟩, rfl⟩
  · rw [hdec] at hx'
    cases hx'
    exact ⟨_, Store.View.proposal_eq_some.2 ⟨b', hb', hfin⟩, rfl⟩

theorem Traced.step {ms : List Moment} (h : Traced k ms c) (hw : c.WellKept) {op : Operation}
    (hA : op.Fits) : Traced k (ms ++ [k.moment op c]) (k.moment op c).after := by
  constructor
  · intro n hn id content ho
    rcases List.mem_append.1 hn with hn | hn
    · obtain ⟨x, hx, hc⟩ := h.stored n hn id content ho
      obtain ⟨y, hy, hyx⟩ := content_moment (k := k) hw op hx
      exact ⟨y, hy, hyx.trans hc⟩
    · rw [List.mem_singleton.1 hn] at ho
      obtain ⟨s, x, params, hs, rfl, hx, -, hc, -, -⟩ := ho.opens (by
        rw [Keeper.moment_before]
        exact hw.sound)
      rw [Keeper.moment_operation] at hs
      subst hs
      refine ⟨x, ?_, hc⟩
      rw [hx.view]
      exact Store.View.proposal_put_self (hx.fits hA)
  · intro id y hy
    rcases contents_moment hw hy with ⟨x, hx, -⟩ | ⟨content, ho⟩
    · obtain ⟨n, hn, content, ho⟩ := h.origin id x hx
      exact ⟨n, by simp [hn], content, ho⟩
    · exact ⟨_, by simp, content, ho⟩

theorem Chain.Fresh.traced (hc : c.Fresh p) {ops : List Operation} (hfits : ∀ op ∈ ops, op.Fits) :
    Traced k (k.history ops c) (k.after ops c) := by
  refine (Keeper.history_induction (P := fun ms c => c.WellKept ∧ Traced k ms c)
    ⟨hc.wellKept, by simp, fun id x hx => ?_⟩ ?_).2
  · rw [hc.proposal] at hx
    cases hx
  · intro ms op c hop ⟨hw, h⟩
    exact ⟨hw.changes (changes_moment k hw op), h.step hw (hfits op hop)⟩

/-! ### What arrives and what leaves -/

/-- What arrived at the module account in `n` is what left it as `s` was settled, denom by denom. -/
def Keeper.Returns (k : Keeper) (n : Moment) (s : Settled) : Prop :=
  ∀ d, (n.after.ledger.balance (.moduleAccount k.moduleAccount) d).toNat +
      (s.left.balance (.moduleAccount k.moduleAccount) d).toNat =
    (n.before.ledger.balance (.moduleAccount k.moduleAccount) d).toNat +
      (s.held.balance (.moduleAccount k.moduleAccount) d).toNat

theorem Keeper.Settles.balance {x : Proposal} {deposit : Coins} {l l' : Ledger} {o : Outcome}
    {s : Settlement} (h : k.Settles x deposit l o s l') (hs : ∀ e, s ≠ .failed e)
    (ho : l'.overflowed = false) (d : String) :
    (l'.balance (.moduleAccount k.moduleAccount) d).toNat + Coins.totalIn d deposit.list =
      (l.balance (.moduleAccount k.moduleAccount) d).toNat := by
  cases h with
  | nothingHeld hz => rw [Coins.totalIn_eq_zero_of_isZero hz, Nat.add_zero]
  | refunded _ h =>
    have hb := (Ledger.toAccount_shifts h).balance ho (.moduleAccount k.moduleAccount) d
    rwa [Ledger.flow_self, Ledger.flow_of_ne (by simp)] at hb
  | burned _ _ h =>
    have hb := (Ledger.burn_shifts h).balance ho (.moduleAccount k.moduleAccount) d
    rwa [Ledger.flow_self] at hb
  | refundFailed => exact absurd rfl (hs _)
  | burnFailed => exact absurd rfl (hs _)

theorem EndsBlock.settles {ss : List Settled} {s : Settled} (h : EndsBlock k c ss d)
    (hw : c.WellKept) (hs : s ∈ ss) (ho : d.ledger.overflowed = false) :
    ∃ params x, c.store.params = .ok params ∧ c.store.view.proposal s.finalized.id = some x ∧
      k.Settles x (params.heldFor x) s.held s.finalized.outcome s.finalized.settlement s.left ∧
      s.left.overflowed = false := by
  obtain ⟨params, x, c', d', hparams, hx, hf, ho'⟩ := h.finalizing hw hs
  exact ⟨params, x, hparams, Store.proposal_eq_ok.1 hx, hf.settles, hf.left ▸ ho' ho⟩

theorem returns_iff_of_balances {n : Moment} {s : Settled} {escrowed settled : Coins}
    (he : escrowed.Canonical) (hs : settled.Canonical)
    (harrives : ∀ d, (n.after.ledger.balance (.moduleAccount k.moduleAccount) d).toNat =
      (n.before.ledger.balance (.moduleAccount k.moduleAccount) d).toNat +
        Coins.totalIn d escrowed.list)
    (hleaves : ∀ d, (s.left.balance (.moduleAccount k.moduleAccount) d).toNat +
        Coins.totalIn d settled.list =
      (s.held.balance (.moduleAccount k.moduleAccount) d).toNat) :
    k.Returns n s ↔ settled = escrowed := by
  constructor
  · intro h
    refine hs.eq_of_totalIn_eq he fun d => ?_
    have := h d
    have := harrives d
    have := hleaves d
    omega
  · rintro rfl d
    have := harrives d
    have := hleaves d
    omega

theorem Chain.Readable.valid (h : c.Readable) {q : Params} (hq : c.store.params = .ok q) :
    q.validate = .ok () := by
  obtain ⟨r, hr, hf, hv⟩ := h.params
  rw [Store.params_eq hf hr] at hq
  cases hq
  exact hv

/-- After any run each proposal that is settled was opened in the run, and unless the settlement
failed it takes out what was put in just when the params ask for the same deposit as then. -/
theorem returns_iff {ops : List Operation} {s : Settled} (hc : c.Fresh p)
    (hfits : ∀ op ∈ ops, op.Fits)
    (hover : (k.after (ops ++ [.endBlock]) c).ledger.overflowed = false)
    (hs : s ∈ k.settledAt (k.after ops c)) (hdone : ∀ e, s.finalized.settlement ≠ .failed e) :
    (∃ n ∈ k.history ops c, ∃ content, k.Opened n s.finalized.id content) ∧
    ∀ n ∈ k.history ops c, ∀ content, k.Opened n s.finalized.id content →
      ∃ params params', n.before.store.params = .ok params ∧
        (k.after ops c).store.params = .ok params' ∧
        (k.Returns n s ↔ params'.depositFor content = params.depositFor content) := by
  have hw := hc.wellKept
  have hw' := hw.after k ops
  have htraced := hc.traced (k := k) hfits
  have readable {ops₁ : List Operation} (hsub : ops₁ ⊆ ops) : (k.after ops₁ c).Readable :=
    (readable_invariant k).run (fun op hop => hfits op (hsub hop)) hw hc.readable
  rw [Keeper.after_append] at hover
  have he := endsBlock_moment (k := k) hw'.steady hw'.sound hw'.owned
  obtain ⟨params', x, hparams', hx, hsettles, hleft⟩ := he.settles hw' hs hover
  refine ⟨htraced.origin _ x hx, fun n hn content ho => ?_⟩
  obtain ⟨y, hy, hcontent⟩ := htraced.stored n hn _ content ho
  rw [hx] at hy
  cases hy
  obtain ⟨ops₁, op, ops₂, rfl, rfl⟩ := Keeper.mem_history.1 hn
  have hw₁ := hw.after k ops₁
  obtain ⟨s', z, params, hop, -, -, hparams, -, hread, hescrow⟩ := ho.opens (by
    rw [Keeper.moment_before]
    exact hw₁.sound)
  have hfit : content.Fits := by
    rw [Keeper.moment_operation] at hop
    have hA := hfits op (by simp)
    rw [hop] at hA
    exact (Submission.fits_of_readContent hA hread).1
  have hrange : (k.moment op (k.after ops₁ c)).after.ledger.overflowed = false := by
    rw [Keeper.after_append, ← Keeper.after_append k (op :: ops₂)] at hover
    have hlast : (k.after (ops₂ ++ [.endBlock])
        (k.moment op (k.after ops₁ c)).after).ledger.overflowed = false := hover
    exact exact_of_after (hw₁.changes (changes_moment k hw₁ op)) hlast
  have hvalid : params.validate = .ok () := by
    rw [Keeper.moment_before] at hparams
    exact (readable (by simp)).valid hparams
  have hvalid' : params'.validate = .ok () := (readable (List.Subset.refl _)).valid hparams'
  rw [Params.heldFor_of_content hfit hcontent] at hsettles
  exact ⟨params, params', hparams, hparams', returns_iff_of_balances
    (Params.canonical_depositFor hvalid content) (Params.canonical_depositFor hvalid' content)
    (hescrow.balance hrange).2 (hsettles.balance hdone hleft)⟩

theorem sample_returns :
    ∃ s ∈ Sample.keeper.settledAt (Sample.keeper.after Sample.voting Sample.start),
      s.finalized.settlement = .refunded ∧
      ∃ n ∈ Sample.keeper.history Sample.voting Sample.start, Sample.keeper.Returns n s := by
  have hsettled : (Sample.keeper.settledAt (Sample.keeper.after Sample.voting Sample.start)).map
      (·.finalized.settlement) = [.refunded] := by decide +kernel
  have hparams : (Sample.keeper.after Sample.voting Sample.start).store.params.toOption =
      some .default := by decide +kernel
  have hbefore : ∀ n ∈ Sample.keeper.history Sample.voting Sample.start,
      n.before.store.params.toOption = some .default := by decide +kernel
  obtain ⟨s, hs, hrefunded⟩ := List.mem_map.1 (hsettled ▸ List.mem_singleton.2 rfl)
  obtain ⟨⟨n, hn, content, ho⟩, hall⟩ := returns_iff Sample.start_fresh
    (fun op hop => Sample.operations_fit op (by simp [Sample.operations, hop]))
    (by decide +kernel) hs (by simp [hrefunded])
  obtain ⟨params, params', hp, hp', hiff⟩ := hall n hn content ho
  refine ⟨s, hs, hrefunded, n, hn, hiff.2 ?_⟩
  have h := hbefore n hn
  rw [hp] at h
  rw [hp'] at hparams
  cases h
  cases hparams
  rfl

namespace Sample

def lowered : List Operation := voting ++
  [.updateParams keeper.authority.text { Params.default with labelDeposit := ⟨[⟨"stake", 5⟩]⟩ }]

end Sample

/-- The proposer paid 100000000 and is refunded 5. -/
theorem lowered_not_returns :
    ∃ n ∈ Sample.keeper.history Sample.lowered Sample.start,
    ∃ s ∈ Sample.keeper.settledAt (Sample.keeper.after Sample.lowered Sample.start),
      Sample.keeper.Opened n s.finalized.id (.addLabel "foo") ∧
      s.finalized.settlement = .refunded ∧ ¬ Sample.keeper.Returns n s := by
  have hsettled : (Sample.keeper.settledAt (Sample.keeper.after Sample.lowered Sample.start)).map
      (fun s => (s.finalized.id, s.finalized.settlement,
        (s.held.balance (.moduleAccount Sample.keeper.moduleAccount) "stake").toNat,
        (s.left.balance (.moduleAccount Sample.keeper.moduleAccount) "stake").toNat)) =
      [(0, .refunded, 100000000, 99999995)] := by decide +kernel
  obtain ⟨s, hs, hfacts⟩ := List.mem_map.1 (hsettled ▸ List.mem_singleton.2 rfl)
  simp only [Prod.mk.injEq] at hfacts
  obtain ⟨hid, hrefunded, hheld, hleft⟩ := hfacts
  refine ⟨Sample.keeper.moment (.submit Sample.submission)
    (Sample.keeper.after (Sample.voting.take 2) Sample.start),
    Keeper.mem_history.2 ⟨_, _, Sample.lowered.drop 3, rfl, rfl⟩, s, hs, ?_, hrefunded, ?_⟩
  · rw [hid]
    exact Keeper.opened_moment (by decide +kernel) (by decide +kernel)
  · intro hreturns
    have hstake := hreturns "stake"
    rw [hheld, hleft] at hstake
    exact absurd hstake (by decide +kernel)

end DaoGovernance
