import DaoGovernance.Proofs.Content
import Mathlib

/-!
Open proposals never ask for the same twice, nor for a label that is permitted already.  Both hold
in the middle of a pass, too, so that no label is permitted in vain.
-/

namespace DaoGovernance

open DaoGovernance.Action

variable {k : Keeper} {params : Params} {c d : Chain} {p q : Proposal} {id : UInt64}

/-! ### Open proposals -/

/-- No two open proposals have the same content, and what label one asks for is not permitted. -/
structure Chain.Apart (c : Chain) : Prop where
  accepts : c.Accepts
  distinct : ∀ id id' p q, c.HasOpen id p → c.HasOpen id' q → p.content = q.content → id = id'
  unpermitted : ∀ id p l, c.HasOpen id p → p.label = some l → c.registry.isPermitted l = false

namespace Chain.Apart

theorem congr (h : c.Apart) (hv : d.store.view.proposals = c.store.view.proposals)
    (hr : ∀ l, d.registry.isPermitted l = c.registry.isPermitted l) : d.Apart := by
  have hopen {id : UInt64} {p : Proposal} : d.HasOpen id p ↔ c.HasOpen id p := by
    rw [HasOpen, Store.View.proposal_congr (congrFun hv id), HasOpen]
  refine ⟨h.accepts.congr hv, ?_, ?_⟩
  · simpa only [hopen] using h.distinct
  · simpa only [hopen, hr] using h.unpermitted

theorem quiet (h : c.Apart) (hq : c.Quiet d) : d.Apart :=
  h.congr (by rw [hq.view]) fun l => by rw [hq.registry]

theorem eq_of_label {id' : UInt64} {l : String} (h : c.Apart) (hp : c.HasOpen id p)
    (hq : c.HasOpen id' q) (hl : p.label = some l) (hl' : q.label = some l) : id = id' := by
  obtain ⟨content, ha, hcontent⟩ := h.accepts id p hp.1
  obtain ⟨content', ha', hcontent'⟩ := h.accepts id' q hq.1
  refine h.distinct id id' p q hp hq ?_
  rw [hcontent, hcontent', (ha.label hcontent).1 hl, (ha'.label hcontent').1 hl']

theorem opens {s : Submission} (h : c.Apart) (hw : c.WellKept) (hs : s.Fits)
    (ho : Opens k s c p d) : d.Apart := by
  obtain ⟨content, params, snapshot, hread, -, hp, -⟩ := ho.opened
  have hcontent : p.content = content.pack := by rw [hp]; rfl
  have hadmits := ho.admitted content hread
  have hnew {id : UInt64} {q : Proposal} (hq : c.HasOpen id q) : q.content ≠ p.content :=
    hcontent ▸ hadmits.ne hw.sound hq.1 hq.2
  refine ⟨h.accepts.opens hs ho, ?_, ?_⟩
  · intro id id' q q' hq hq' heq
    rcases ho.hasOpen hs hq with ⟨hid, rfl⟩ | hq <;> rcases ho.hasOpen hs hq' with ⟨hid', rfl⟩ | hq'
    · rw [hid, hid']
    · exact absurd heq.symm (hnew hq')
    · exact absurd heq (hnew hq)
    · exact h.distinct id id' q q' hq hq' heq
  · intro id q l hq hl
    rw [ho.registry]
    rcases ho.hasOpen hs hq with ⟨-, rfl⟩ | hq
    · have ha := Submission.accepted_of_readContent hs hread
      have hl := (ha.label hcontent).1 hl
      rw [← (ha.registrable l hl).normal]
      exact hadmits.unpermitted l hl
    · exact h.unpermitted id q l hq hl

theorem finalizes {s : Settled} (h : c.Apart) (hf : Finalizing k params p c s d) : d.Apart := by
  refine ⟨h.accepts.finalizes hf, ?_, ?_⟩
  · intro id id' q q' hq hq'
    exact h.distinct id id' q q' (hf.hasOpen hq).2 (hf.hasOpen hq').2
  · intro id q l hq hl
    obtain ⟨hid, hq⟩ := hf.hasOpen hq
    have hfree := h.unpermitted id q l hq hl
    rcases hf.registry h.accepts with ⟨hr, -⟩ | ⟨l', -, hl', -, hr⟩
    · rwa [hr]
    · rw [hr, Bool.eq_false_iff, Ne, Registry.isPermitted_preload, hfree]
      -- The label that was just permitted is not the one of a proposal that is still open.
      rintro (rfl | hfalse)
      · exact hid (h.eq_of_label hq ⟨hf.stored, hf.isOpen⟩ hl hl')
      · cases hfalse

end Chain.Apart

theorem apart_invariant (k : Keeper) :
    Invariant k (fun op => op.Fits ∧ op.LeavesLabels) fun _ c => c.Apart :=
  .of_labels Chain.Apart.congr (fun hw h => h.opens hw) Chain.Apart.finalizes

theorem Chain.Fresh.apart (h : c.Fresh params) : c.Apart := by
  have hnone {id : UInt64} {p : Proposal} : ¬ c.HasOpen id p := by
    rw [HasOpen, h.proposal]
    simp
  exact ⟨h.accepts, fun _ _ _ _ hp => (hnone hp).elim, fun _ _ _ hp => (hnone hp).elim⟩

/-! ### In the middle of a pass -/

/-- What a proposal that passed asks for is carried out at this chain. -/
structure Execution where
  params : Params
  id : UInt64
  content : Content
  chain : Chain

def Execution.run (k : Keeper) (x : Execution) : EStateM.Result GovernanceError Chain Unit :=
  k.execute x.params x.id x.content x.chain

def Execution.FinalizedIn (k : Keeper) (params : Params) (p : Proposal) (c : Chain)
    (x : Execution) : Prop :=
  ∃ judged : Proposal, judged.id = x.id ∧
    k.finalize params p c = k.conclude x.params p judged (.passed x.content) x.chain

namespace Keeper

def executionOf (params : Params) (p : Proposal) (c : Chain) : Option Execution :=
  match storedVerdict params p c with
  | .ok (_, .passed content) d => some ⟨params, p.id, content, d⟩
  | _ => none

def executionsOf (k : Keeper) (params : Params) : List Proposal → Chain → List Execution
  | [], _ => []
  | p :: ps, c =>
    (executionOf params p c).toList ++
      match k.finalize params p c with
      | .ok _ d => k.executionsOf params ps d
      | .error _ _ => []

def executionsAt (k : Keeper) (c : Chain) : List Execution :=
  match c.store.params, c.store.proposalRecords with
  | .ok params, .ok records =>
    k.executionsOf params (records.filterMap (dueAt c.block.height))
      { c with log := c.log ++ records.filterMap passNotice }
  | _, _ => []

end Keeper

theorem executionOf_eq_some {x : Execution} (h : Keeper.executionOf params p c = some x) :
    x.params = params ∧ x.id = p.id ∧
      ∃ judged, storedVerdict params p c = .ok (judged, .passed x.content) x.chain := by
  unfold Keeper.executionOf at h
  split at h
  · rename_i judged content d hv
    cases h
    exact ⟨rfl, rfl, judged, hv⟩
  · cases h

theorem unpack_of_executionOf {x : Execution} (h : Keeper.executionOf params p c = some x) :
    p.content.unpack = .ok x.content ∧ x.chain.registry = c.registry := by
  obtain ⟨-, -, judged, hv⟩ := executionOf_eq_some h
  obtain ⟨hj, hr⟩ := (storedVerdict_ends params p).of_ok hv
  exact ⟨Params.unpack_of_judge (congrArg Prod.snd hj).symm, hr⟩

theorem finalize_of_executionOf {x : Execution} (h : Keeper.executionOf params p c = some x) :
    x.FinalizedIn k params p c := by
  obtain ⟨hparams, hid, judged, hv⟩ := executionOf_eq_some h
  obtain ⟨hj, -⟩ := (storedVerdict_ends params p).of_ok hv
  refine ⟨judged, (congrArg (·.1.id) hj).trans hid.symm, ?_⟩
  rw [Keeper.finalize_eq_conclude, bind_of_ok hv, hparams]

theorem finalizedIn_of_executionsOf {ps : List Proposal} :
    ∀ x ∈ k.executionsOf params ps c, ∃ p ∈ ps, ∃ d, x.FinalizedIn k params p d := by
  induction ps generalizing c with
  | nil => simp [Keeper.executionsOf]
  | cons p ps ih =>
    intro x hx
    rcases List.mem_append.1 hx with hx | hx
    · exact ⟨p, by simp, c, finalize_of_executionOf (Option.mem_toList.1 hx)⟩
    · split at hx
      · obtain ⟨q, hq, d, hfinalized⟩ := ih x hx
        exact ⟨q, List.mem_cons_of_mem p hq, d, hfinalized⟩
      · cases hx

theorem finalizedIn_of_executionsAt :
    ∀ x ∈ k.executionsAt c, ∃ params p d, c.store.params = .ok params ∧
      p.isOpen = true ∧ p.isClosedAt c.block.height = true ∧ x.FinalizedIn k params p d := by
  intro x hx
  unfold Keeper.executionsAt at hx
  split at hx
  · rename_i params records hparams _
    obtain ⟨p, hp, d, hfinalized⟩ := finalizedIn_of_executionsOf x hx
    obtain ⟨r, -, hdue⟩ := List.mem_filterMap.1 hp
    obtain ⟨-, hopen, hclosed⟩ := dueAt_eq_some.1 hdue
    exact ⟨params, p, d, hparams, hopen, hclosed, hfinalized⟩
  · cases hx

theorem Chain.Apart.executionsOf (h : c.Apart) (hw : c.WellKept) {ps : List Proposal}
    (hparams : c.store.params = .ok params) (hdue : Due c ps) :
    ∀ x ∈ k.executionsOf params ps c, ∀ l, x.content = .addLabel l →
      x.chain.registry.isPermitted (Label.normalize l) = false := by
  induction ps generalizing c with
  | nil => simp [Keeper.executionsOf]
  | cons p ps ih =>
    intro x hx l hl
    rcases List.mem_append.1 hx with hx | hx
    · obtain ⟨hunpack, hr⟩ := unpack_of_executionOf (Option.mem_toList.1 hx)
      rw [hr]
      refine h.unpermitted p.id p _ ⟨hdue.stored p (by simp), hdue.isOpen p (by simp)⟩ ?_
      exact Proposal.label_eq_some.2 ⟨l, hl ▸ hunpack, rfl⟩
    · split at hx
      · rename_i f d hfinal
        rw [Keeper.finalize_eq] at hfinal
        obtain ⟨s, htraced, -⟩ := map_eq_ok.1 hfinal
        have hsteady := Chain.storeAtPermit_of_steady hw.steady
        have hf := hdue.finalizing hparams ((finalizeTraced_ends params hsteady p).of_ok htraced)
        exact ih (h.finalizes hf) (hw.finalizing hf) (hf.params_eq.trans hparams)
          (hdue.tail hf.toFinalizes) x hx l hl
      · cases hx

theorem Chain.Apart.executionsAt (h : c.Apart) (hw : c.WellKept) :
    ∀ x ∈ k.executionsAt c, ∀ l, x.content = .addLabel l →
      x.chain.registry.isPermitted (Label.normalize l) = false := by
  obtain ⟨rs, hrs, hasc, hm⟩ := Store.proposalRecords_eq hw.sound.proposalsKeyed
  cases hparams : c.store.params with
  | error e => simp [Keeper.executionsAt, hparams]
  | ok params =>
    simp only [Keeper.executionsAt, hparams, hrs]
    have hq : c.Quiet { c with log := c.log ++ rs.filterMap passNotice } := Within.noteAll _ c
    have hdue := due_of_records hw.owned hasc.nodup_keys fun id p => (hm id p).1
    exact (h.quiet hq).executionsOf (hw.quiet hq) hparams
      ⟨hdue.nodup, hdue.stored, hdue.isOpen, hdue.isClosed⟩

/-! ### Executions that fail -/

theorem permit_eq_error {l : String} {e : GovernanceError} (h : permit l c = .error e d) :
    ∃ r, c.registry.permit l = .error r ∧ e = .registry r := by
  have he : Ends (permit l) c (fun _ _ => True)
      fun e _ => ∃ r, c.registry.permit l = .error r ∧ e = .registry r :=
    .permit (fun _ _ => trivial) fun r hr => ⟨r, hr, rfl⟩
  exact he.of_error h

theorem payOut_fails (id : UInt64) (recipient : Address) (amount : Coins) :
    Ends (k.payOut id recipient amount) c (fun _ _ => True) fun e _ => ∃ b, e = .bank b := by
  cases ha : c.ledger.toAccount k.moduleAccount recipient amount with
  | ok l => exact .of_step (tryMove_of_ok ha) trivial
  | error b =>
    refine .of_step (tryMove_of_error ha) ?_
    cases hb : c.ledger.burn k.moduleAccount amount with
    | ok l => exact .of_step (tryMove_of_ok hb) ⟨b, rfl⟩
    | error => exact .of_step (tryMove_of_error hb) ⟨b, rfl⟩

theorem grantTokens_fails (recipient : String) (amount : Coins) :
    Ends (k.grantTokens params id recipient amount) c (fun _ _ => True)
      fun e _ => ∀ r, e ≠ .registry r := by
  cases hr : AddressRole.recipient.parse recipient with
  | error e =>
    refine .of_fail (check_eq_error.2 ⟨hr, rfl⟩) ?_
    unfold AddressRole.parse at hr
    split at hr
    · cases hr
    · cases hr
      exact nofun
  | ok r =>
    refine .of_step (check_eq_ok.2 ⟨hr, rfl⟩) (.of_step (note_apply _) ?_)
    cases hm : c.ledger.mint k.moduleAccount amount with
    | error b => exact .of_fail (move_eq_error.2 ⟨b, hm, rfl, rfl⟩) nofun
    | ok l =>
      refine .of_step (a := ()) (move_eq_ok.2 ⟨l, hm, rfl⟩) ?_
      refine .bind ((payOut_fails id r amount).mono (fun _ _ h => h) ?_) fun _ _ _ _ => ?_
      · rintro _ _ ⟨b, rfl⟩
        exact nofun
      · dsimp only
        split
        · exact .of_step height_apply
            ((grantLot_ends _).mono (fun _ _ _ => trivial) fun _ _ h => h.elim)
        · exact trivial

theorem isPermitted_of_execute {content : Content} {l : String}
    (h : k.execute params id content c = .error (.registry (.alreadyPermitted l)) d) :
    ∃ l', content = .addLabel l' ∧ c.registry.isPermitted (Label.normalize l') = true := by
  cases content with
  | requestTokens r amount _ => exact absurd rfl ((grantTokens_fails r amount).of_error h _)
  | addLabel l' =>
    refine ⟨l', rfl, ?_⟩
    rcases bind_eq_error.1 h with h | ⟨_, c₁, hnote, h⟩
    · cases h
    cases hnote
    obtain ⟨r, hr, he⟩ := permit_eq_error h
    cases he
    exact Registry.isPermitted_of_permit hr

/-! ### Runs -/

/-- The stored proposals, of which no two that are open ask for the same or for one label, and none
for a label that is permitted. -/
structure Chain.KeepsApart (c : Chain) (ps : List Proposal) : Prop where
  listed : c.store.proposals = .ok ps
  nodup : (ps.map (·.id)).Nodup
  unpacks : ∀ p ∈ ps, p.isOpen = true → ∃ content, p.content.unpack = .ok content
  contents : ∀ p ∈ ps, ∀ q ∈ ps, p.isOpen = true → q.isOpen = true →
    p.content.unpack = q.content.unpack → p = q
  labels : ∀ p ∈ ps, ∀ q ∈ ps, p.isOpen = true → q.isOpen = true → ∀ l l',
    p.content.unpack = .ok (.addLabel l) → q.content.unpack = .ok (.addLabel l') →
      Label.normalize l = Label.normalize l' → p = q
  unpermitted : ∀ p ∈ ps, p.isOpen = true → ∀ l, p.content.unpack = .ok (.addLabel l) →
    c.registry.isPermitted (Label.normalize l) = false

theorem Chain.Apart.keepsApart (h : c.Apart) (hw : c.WellKept) (hr : c.Readable) :
    ∃ ps, c.KeepsApart ps := by
  obtain ⟨ps, hps, hn, hm⟩ := hr.proposals_eq hw
  have stored {p : Proposal} (hp : p ∈ ps) : c.store.view.proposal p.id = some p :=
    (hm p.id p).2 ⟨hp, rfl⟩
  have eq_of_id {p q : Proposal} (hp : p ∈ ps) (hq : q ∈ ps) (hid : p.id = q.id) : p = q := by
    have hp := stored hp
    rw [hid, stored hq] at hp
    exact (Option.some.inj hp).symm
  have label {p : Proposal} {l : String} (hl : p.content.unpack = .ok (.addLabel l)) :
      p.label = some (Label.normalize l) := Proposal.label_eq_some.2 ⟨l, hl, rfl⟩
  refine ⟨ps, hps, hn, ?_, ?_, ?_, ?_⟩
  · intro p hp _
    obtain ⟨content, ha, hcontent⟩ := h.accepts p.id p (stored hp)
    exact ⟨content, ha.unpack hcontent⟩
  · intro p hp q hq ho ho' heq
    obtain ⟨content, ha, hcontent⟩ := h.accepts p.id p (stored hp)
    obtain ⟨content', ha', hcontent'⟩ := h.accepts q.id q (stored hq)
    rw [ha.unpack hcontent, ha'.unpack hcontent'] at heq
    cases heq
    exact eq_of_id hp hq (h.distinct _ _ p q ⟨stored hp, ho⟩ ⟨stored hq, ho'⟩
      (hcontent.trans hcontent'.symm))
  · intro p hp q hq ho ho' l l' hl hl' heq
    have hq' := (label hl').trans (congrArg some heq.symm)
    exact eq_of_id hp hq (h.eq_of_label ⟨stored hp, ho⟩ ⟨stored hq, ho'⟩ (label hl) hq')
  · intro p hp ho l hl
    exact h.unpermitted p.id p _ ⟨stored hp, ho⟩ (label hl)

/-- In a run open proposals stay apart, and so nothing that passed asks for a label in vain. -/
theorem keepsApart_after {ops : List Operation} (hc : c.Fresh params)
    (hfits : ∀ op ∈ ops, op.Fits) (hlabels : ∀ op ∈ ops, op.LeavesLabels) :
    (∃ ps, (k.after ops c).KeepsApart ps) ∧
      ∀ x ∈ k.executionsAt (k.after ops c),
        (∃ params p d, (k.after ops c).store.params = .ok params ∧ p.isOpen = true ∧
          p.isClosedAt (k.after ops c).block.height = true ∧ x.FinalizedIn k params p d) ∧
        ∀ l d, x.run k ≠ .error (.registry (.alreadyPermitted l)) d := by
  have hw := hc.wellKept
  have hw' := hw.after k ops
  have hapart := (apart_invariant k).run (fun op hop => ⟨hfits op hop, hlabels op hop⟩) hw hc.apart
  refine ⟨hapart.keepsApart hw' ((readable_invariant k).run hfits hw hc.readable), ?_⟩
  intro x hx
  refine ⟨finalizedIn_of_executionsAt x hx, fun l d hrun => ?_⟩
  obtain ⟨l', hl', hpermitted⟩ := isPermitted_of_execute hrun
  rw [hapart.executionsAt hw' x hx l' hl'] at hpermitted
  cases hpermitted

namespace Sample

def twoVotings : List Operation := [
  .incident (.fund proposer ⟨"stake", 200000000⟩),
  .incident (.fund proposer ⟨"udnsc", 5⟩),
  .submit submission,
  .submit { submission with content := some (Content.addLabel ".Bar").pack },
  .vote 0 proposer.text .yes,
  .vote 1 proposer.text .yes,
  .moveTo ⟨501⟩]

theorem twoVotings_fit : ∀ op ∈ twoVotings, op.Fits := by
  have fits {s : Submission} (ht : Text.Fits s.title) (hd : Text.Fits s.description)
      {content : Content} (hs : s.content = some content.pack)
      (hc : content.pack.value.length < UInt64.size) : s.Fits :=
    ⟨ht, hd, fun e he => by rw [hs] at he; cases he; exact hc⟩
  intro op hop
  fin_cases hop
  case «2» => exact fits (by decide) (by decide) rfl (by decide)
  case «3» => exact fits (by decide) (by decide) rfl (by decide)
  all_goals exact trivial

end Sample

theorem sample_keepsApart :
    ((Sample.keeper.executionsAt (Sample.keeper.after Sample.twoVotings Sample.start)).map
        (·.content) = [.addLabel "foo", .addLabel "bar"]) ∧
      ∀ x ∈ Sample.keeper.executionsAt (Sample.keeper.after Sample.twoVotings Sample.start),
        ∀ l d, x.run Sample.keeper ≠ .error (.registry (.alreadyPermitted l)) d := by
  have hlabels : ∀ op ∈ Sample.twoVotings, op.LeavesLabels := by
    intro op hop
    fin_cases hop <;> exact trivial
  obtain ⟨-, hruns⟩ :=
    keepsApart_after (k := Sample.keeper) Sample.start_fresh Sample.twoVotings_fit hlabels
  exact ⟨by decide +kernel, fun x hx => (hruns x hx).2⟩

end DaoGovernance
