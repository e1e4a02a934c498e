import DaoGovernance.Proofs.Content
import DaoGovernance.Proofs.Lots
import Mathlib

/-!
The lots that are stored are those of the executed grants, one each, and each was written when its
proposal was finalized.  So it is as long as the voting denom stays and lots can be written.
-/

namespace DaoGovernance

open DaoGovernance.Action

variable {k : Keeper} {params : Params} {c d : Chain} {p : Proposal} {l : Lot} {denom : String}
  {H H' : UInt64 → Height → Prop}

/-! ### Executed grants -/

/-- The lot is what the proposal asked for and earned when it was executed.  `H` tells the heights
of executions. -/
structure Lot.Earned (denom : String) (H : UInt64 → Height → Prop) (l : Lot) (p : Proposal) :
    Prop extends l.Pays denom p where
  executed : p.status = .executed
  finished : H p.id l.granted
  late : p.votingEnd.number < l.granted.number

theorem Lot.Earned.mono (h : l.Earned denom H p) (hH : ∀ id n, H id n → H' id n) :
    l.Earned denom H' p :=
  { h with finished := hH _ _ h.finished }

theorem Lot.Pays.earned {s : Settled} (h : l.Pays params.votingDenom p)
    (hf : Finalizing k params p c s d) (ho : s.finalized.outcome = .executed)
    (hgranted : l.granted = c.block.height) (hH : H p.id c.block.height) :
    l.Earned params.votingDenom H
      (p.finish (params.judge p (c.store.votes p.id)).1 s.finalized.outcome) := by
  refine ⟨h.congr rfl rfl, by rw [ho]; rfl, hgranted ▸ hH, ?_⟩
  have hclosed := hf.isClosed
  rw [Proposal.isClosedAt, Height.isAfter, ← hgranted, decide_eq_true_eq] at hclosed
  exact hclosed

structure Chain.PaysOut (denom : String) (H : UInt64 → Height → Prop) (c : Chain) : Prop where
  sound : ∀ key b, c.store.lotAt key = some b → ∃ (l : Lot) (p : Proposal), l.key = key ∧
    l.encode = b ∧ c.store.view.proposal l.proposal = some p ∧ l.Earned denom H p
  complete : ∀ id p, c.store.view.proposal id = some p → p.status = .executed →
    p.Earns denom → ∃ l : Lot, l.Earned denom H p ∧ c.store.lotAt l.key = some l.encode

structure Chain.GrantsIn (denom : String) (c : Chain) : Prop where
  params : ∃ q : Params, c.store.view.params = some q.encode ∧ q.Fits ∧ q.votingDenom = denom
  writable : c.store.view.failLots = false

namespace Chain.GrantsIn

theorem congr (h : c.GrantsIn denom) (hp : d.store.view.params = c.store.view.params)
    (hw : d.store.view.failLots = c.store.view.failLots) : d.GrantsIn denom :=
  ⟨hp ▸ h.params, hw.trans h.writable⟩

theorem votingDenom_eq (h : c.GrantsIn denom) (hq : c.store.params = .ok params) :
    params.votingDenom = denom := by
  obtain ⟨q, hparams, hf, hdenom⟩ := h.params
  rw [Store.params_eq hf hparams] at hq
  cases hq
  exact hdenom

theorem finalizes {s : Settled} (h : c.GrantsIn denom) (hf : Finalizes k params p c s d) :
    d.GrantsIn denom :=
  h.congr (by rw [hf.view]; rfl) (by rw [hf.view]; rfl)

end Chain.GrantsIn

theorem Outcome.eq_executed {o : Outcome} (h : o.status = .executed) : o = .executed := by
  cases o with
  | executed => rfl
  | rejected => cases h
  | failed => cases h

namespace Chain.PaysOut

theorem congr (h : c.PaysOut denom H) (hl : d.store.lotAt = c.store.lotAt)
    (hv : d.store.view.proposals = c.store.view.proposals) (hH : ∀ id n, H id n → H' id n) :
    d.PaysOut denom H' := by
  constructor
  · intro key b hb
    obtain ⟨l, p, hkey, hbytes, hp, he⟩ := h.sound key b (hl ▸ hb)
    exact ⟨l, p, hkey, hbytes, by rwa [Store.View.proposal_congr (congrFun hv _)], he.mono hH⟩
  · intro id p hp hexec hearns
    rw [Store.View.proposal_congr (congrFun hv _)] at hp
    obtain ⟨l, he, hstored⟩ := h.complete id p hp hexec hearns
    exact ⟨l, he.mono hH, hl ▸ hstored⟩

theorem opens {s : Submission} (h : c.PaysOut denom H) (hw : c.WellKept) (hs : s.Fits)
    (ho : Opens k s c p d) : d.PaysOut denom H := by
  have hnew {id : UInt64} (hid : id ≠ p.id) :
      d.store.view.proposal id = c.store.view.proposal id := by
    rw [Store.View.proposal_congr (congrFun ho.proposals id), Store.View.proposal_put_of_ne hid]
  constructor
  · intro key b hb
    obtain ⟨l, q, hkey, hbytes, hq, he⟩ := h.sound key b (ho.lots ▸ hb)
    refine ⟨l, q, hkey, hbytes, ?_, he⟩
    rw [hnew, hq]
    intro hid
    rw [Store.View.proposal, hid, ho.unused hw] at hq
    cases hq
  · intro id q hq hexec hearns
    have hid : id ≠ p.id := by
      rintro rfl
      rw [Store.View.proposal_congr (congrFun ho.proposals _),
        Store.View.proposal_put_self (ho.fits hs)] at hq
      cases hq
      cases hexec.symm.trans (Proposal.status_of_isOpen ho.isOpen)
    rw [hnew hid] at hq
    rw [ho.lots]
    exact h.complete id q hq hexec hearns

theorem proposal_ne {s : Settled} (h : c.PaysOut denom H) (hf : Finalizing k params p c s d)
    {key : Address × UInt64} {b : Bytes} (hb : c.store.lotAt key = some b) : key.2 ≠ p.id := by
  obtain ⟨l, q, rfl, -, hq, he⟩ := h.sound key b hb
  intro hid
  rw [show l.proposal = p.id from hid, hf.stored] at hq
  cases hq
  cases he.executed.symm.trans (Proposal.status_of_isOpen hf.isOpen)

theorem finalizes {s : Settled} (h : c.PaysOut denom H) (hg : c.GrantsIn denom)
    (hf : Finalizing k params p c s d) (hH : ∀ id n, H id n → H' id n)
    (hnow : s.finalized.outcome = .executed → H' p.id c.block.height) :
    d.PaysOut denom H' := by
  obtain rfl := hg.votingDenom_eq hf.params
  have hother {id : UInt64} (hid : id ≠ p.id) :
      d.store.view.proposal id = c.store.view.proposal id :=
    Store.View.proposal_congr (hf.proposals_of_ne hid)
  have kept {key : Address × UInt64} {b : Bytes} (hb : c.store.lotAt key = some b) :
      ∃ (l : Lot) (q : Proposal), l.key = key ∧ l.encode = b ∧
        d.store.view.proposal l.proposal = some q ∧ l.Earned params.votingDenom H' q := by
    obtain ⟨l, q, rfl, hbytes, hq, he⟩ := h.sound key b hb
    exact ⟨l, q, rfl, hbytes, (hother (h.proposal_ne hf hb)).trans hq, he.mono hH⟩
  -- The lots there were are of other proposals, which stay as they are; only that of `p` is new.
  constructor
  · intro key b hb
    rcases hf.lots with ⟨hl, -⟩ | ⟨l, ho, hpays, hgranted, hl⟩
    · exact kept (hl ▸ hb)
    · by_cases hkey : key = l.key
      · subst hkey
        rw [hl, Function.update_self] at hb
        cases hb
        exact ⟨l, _, rfl, rfl, hpays.proposal ▸ hf.after, hpays.earned hf ho hgranted (hnow ho)⟩
      · rw [hl, Function.update_of_ne hkey] at hb
        exact kept hb
  · intro id q hq hexec hearns
    by_cases hid : id = p.id
    · rw [hid, hf.after] at hq
      cases hq
      have ho := Outcome.eq_executed hexec
      rcases hf.lots with ⟨-, hnone⟩ | ⟨l, -, hpays, hgranted, hl⟩
      · exact absurd hearns (hnone ho hg.writable)
      · exact ⟨l, hpays.earned hf ho hgranted (hnow ho), by rw [hl, Function.update_self]⟩
    · rw [hother hid] at hq
      obtain ⟨l, he, hstored⟩ := h.complete id q hq hexec hearns
      refine ⟨l, he.mono hH, ?_⟩
      rcases hf.lots with ⟨hl, -⟩ | ⟨l', -, hpays, -, hl⟩
      · rw [hl, hstored]
      · rw [hl, Function.update_of_ne, hstored]
        intro hkey
        refine h.proposal_ne hf hstored ?_
        rw [hkey]
        exact hpays.proposal

end Chain.PaysOut

theorem EndsBlock.paysOut {ss : List Settled} (h : EndsBlock k c ss d) (hw : c.WellKept)
    (hg : c.GrantsIn denom) (hp : c.PaysOut denom H) :
    d.PaysOut denom fun id n => H id n ∨
      n = c.block.height ∧ .proposalFinished id .executed ∈ ss.map Settled.event := by
  refine (h.induct (P := fun ss d => d.block.height = c.block.height ∧ d.GrantsIn denom ∧
    d.PaysOut denom fun id n => H id n ∨
      n = c.block.height ∧ .proposalFinished id .executed ∈ ss.map Settled.event) hw
    ⟨rfl, hg, hp.congr rfl rfl fun _ _ => .inl⟩ ?_ ?_).1.2.2
  · intro ss c' d' _ ⟨hh, hg, hp⟩ hq
    exact ⟨by rw [hq.block, hh], hg.congr (by rw [hq.view]) (by rw [hq.view]),
      hp.congr hq.lots (by rw [hq.view]) fun _ _ => id⟩
  · intro params ss p c' s d' _ ⟨hh, hg, hp⟩ hf
    refine ⟨?_, hg.finalizes hf.toFinalizes, hp.finalizes hg hf (fun id n hn => ?_) fun ho => ?_⟩
    · rw [hf.block, ← hh]
      rfl
    · exact hn.imp_right fun ⟨hn, hmem⟩ => ⟨hn, by simp [hmem]⟩
    · refine .inr ⟨hh, ?_⟩
      simp [Settled.event, hf.id, ho, Outcome.status]

/-! ### Runs -/

def Operation.KeepsPower (k : Keeper) (denom : String) : Operation → Prop
  | .updateParams authority q =>
    authority = k.authority.text → q.validate = .ok () → q.votingDenom = denom
  | .incident (.failLots true) => False
  | _ => True

theorem Incident.grantsIn {i : Incident} (hi : (Operation.incident i).KeepsPower k denom)
    (h : c.GrantsIn denom) : (i.apply c).GrantsIn denom := by
  refine ⟨(i.agrees c).params ▸ h.params, ?_⟩
  have hw := h.writable
  cases i with
  | failLots on =>
    cases on with
    | true => exact hi.elim
    | false => cases hs : c.store <;> simp only [apply, hs] <;> rfl
  | failScan | failProposals =>
    cases hs : c.store <;> simp only [hs] at hw <;> simp only [apply, hs] <;> exact hw
  | _ => exact hw

theorem grantsIn_invariant (k : Keeper) (denom : String) :
    Invariant k (fun op => op.Fits ∧ op.KeepsPower k denom) fun _ c => c.GrantsIn denom where
  quiet _ h hq := h.congr (by rw [hq.view]) (by rw [hq.view])
  opens _ _ h ho := h.congr (by rw [ho.view]; rfl) (by rw [ho.view]; rfl)
  refuses _ h hr := by
    obtain ⟨id, hv, -⟩ := hr.view
    exact h.congr (by rw [hv]) (by rw [hv])
  casts _ h hv := h.congr (by rw [hv.view]) (by rw [hv.view])
  finalizes _ h hf := h.finalizes hf.toFinalizes
  updates {es c q} hA _ h hv := by
    refine ⟨⟨q, by rw [Store.view_putParams], hA.1, hA.2 rfl hv⟩, ?_⟩
    rw [Store.view_putParams]
    exact h.writable
  moves _ _ h := ⟨h.params, h.writable⟩
  incidents i hA _ h := i.grantsIn hA.2 h

theorem Changes.paysOut {op : Operation} {es : List Event} {fs : List Finalized}
    (h : Changes k c op es fs d) (hw : c.WellKept) (hA : op.Fits) (hg : c.GrantsIn denom)
    (hp : c.PaysOut denom H) :
    d.PaysOut denom fun id n => H id n ∨
      op = .endBlock ∧ n = c.block.height ∧ .proposalFinished id .executed ∈ es := by
  have same (hl : d.store.lotAt = c.store.lotAt)
      (hv : d.store.view.proposals = c.store.view.proposals) :
      d.PaysOut denom fun id n => H id n ∨
        op = .endBlock ∧ n = c.block.height ∧ .proposalFinished id .executed ∈ es :=
    hp.congr hl hv fun _ _ => .inl
  cases h with
  | opened ho => exact (hp.opens hw hA ho).congr rfl rfl fun _ _ => .inl
  | refused hr => exact same hr.lots hr.sameRecords.proposals
  | cast hv => exact same hv.lots (by rw [hv.view])
  | ended he => exact (he.paysOut hw hg hp).congr rfl rfl fun _ _ => .imp_right fun h => ⟨rfl, h⟩
  | @updated q _ _ hd =>
    have hs := Chain.SameRecords.putParams c q.encode
    exact same (hd.lots.trans hs.lots) (hd.sameRecords.proposals.trans hs.proposals)
  | moved => exact same rfl rfl
  | @incident i => exact same (i.lotAt c) (i.sameRecords c).proposals
  | quiet hq => exact same hq.lots hq.sameRecords.proposals

def ExecutedIn (ms : List Moment) (id : UInt64) (n : Height) : Prop :=
  ∃ m ∈ ms, m.operation = .endBlock ∧ .proposalFinished id .executed ∈ m.events ∧
    n = m.before.block.height

theorem Chain.Fresh.paysOut (h : c.Fresh params) : c.PaysOut denom H := by
  constructor
  · intro key b hb
    rw [h.lots] at hb
    cases hb
  · intro id q hq
    rw [h.proposal] at hq
    cases hq

theorem paysOut_after {ops : List Operation} (hc : c.Fresh params)
    (hlots : c.store.view.failLots = false) (hfits : ∀ op ∈ ops, op.Fits)
    (hkeeps : ∀ op ∈ ops, op.KeepsPower k params.votingDenom) :
    (k.after ops c).PaysOut params.votingDenom (ExecutedIn (k.history ops c)) := by
  refine (Keeper.history_induction (P := fun ms c => c.WellKept ∧
    c.GrantsIn params.votingDenom ∧ c.PaysOut params.votingDenom (ExecutedIn ms))
    ⟨hc.wellKept, ⟨⟨params, hc.params, hc.fits, rfl⟩, hlots⟩, hc.paysOut⟩ ?_).2.2
  intro ms op c hop ⟨hw, hg, hp⟩
  have hchange := changes_moment k hw op
  refine ⟨hw.changes hchange, (grantsIn_invariant k _).keeps ⟨hfits op hop, hkeeps op hop⟩ hw hg
    hchange, ?_⟩
  refine (hchange.paysOut hw (hfits op hop) hg hp).congr rfl rfl fun id n hn => ?_
  rcases hn with ⟨m, hm, hat⟩ | ⟨hop, hn, hmem⟩
  · exact ⟨m, by simp [hm], hat⟩
  · exact ⟨k.moment op c, by simp, by simp [hop], hmem, by simp [hn]⟩

/-- The stored lots are those of the executed proposals that earned one, each under its recipient
and proposal. -/
structure Chain.LotsMatch (denom : String) (ms : List Moment) (c : Chain) (ps : List Proposal)
    (ls : List Lot) : Prop where
  proposals : c.store.proposals = .ok ps
  lots : c.store.everyLot = .ok ls
  keyed : ∀ key b, c.store.lotAt key = some b ↔ ∃ l ∈ ls, l.key = key ∧ l.encode = b
  ids : (ps.map (·.id)).Nodup
  once : (ls.map (·.proposal)).Nodup
  origin : ∀ l ∈ ls, ∃ p ∈ ps, l.proposal = p.id
  sound : ∀ l ∈ ls, ∀ p ∈ ps, l.proposal = p.id → l.Earned denom (ExecutedIn ms) p
  complete : ∀ p ∈ ps, p.status = .executed → p.Earns denom →
    ∃ l ∈ ls, l.Earned denom (ExecutedIn ms) p

theorem Lot.Pays.key_eq {l' : Lot} (h : l.Pays denom p) (h' : l'.Pays denom p) :
    l.key = l'.key := by
  obtain ⟨amount, activity, hunpack, -⟩ := h.content
  obtain ⟨amount', activity', hunpack', -⟩ := h'.content
  rw [hunpack] at hunpack'
  have hvoter : l.voter.text = l'.voter.text := by
    injection hunpack' with hcontent
    injection hcontent
  rw [Lot.key, Address.text_inj hvoter, h.proposal, ← h'.proposal]

theorem Chain.PaysOut.lotsMatch {ms : List Moment} (h : c.PaysOut denom (ExecutedIn ms))
    (hw : c.WellKept) (hr : c.Readable) (ht : c.store.Tidy) :
    ∃ ps ls, c.LotsMatch denom ms ps ls := by
  obtain ⟨ps, hps, hn, hm⟩ := hr.proposals_eq hw
  obtain ⟨ls, hls, hlots⟩ := ht.everyLot_eq
  have earned {l : Lot} (hl : l ∈ ls) : ∃ p ∈ ps, l.proposal = p.id ∧
      l.Earned denom (ExecutedIn ms) p := by
    obtain ⟨l', p, -, hbytes, hp, he⟩ := h.sound l.key _ ((hlots.mem l).1 hl).2
    have hdec := l'.decode_encode
    rw [hbytes, l.decode_encode] at hdec
    cases hdec
    obtain ⟨hmem, hid⟩ := (hm _ p).1 hp
    exact ⟨p, hmem, hid.symm, he⟩
  have sound : ∀ l ∈ ls, ∀ p ∈ ps, l.proposal = p.id → l.Earned denom (ExecutedIn ms) p := by
    intro l hl p hp hid
    obtain ⟨q, hq, hid', he⟩ := earned hl
    have hsame := (hm l.proposal p).2 ⟨hp, hid.symm⟩
    rw [(hm l.proposal q).2 ⟨hq, hid'.symm⟩] at hsame
    cases hsame
    exact he
  refine ⟨ps, ls, hps, hls, ?_, hn, ?_, ?_, sound, ?_⟩
  · intro key b
    constructor
    · intro hb
      obtain ⟨l, rfl, -, rfl⟩ := ht.lots key b hb
      exact ⟨l, (hlots.mem l).2 ⟨trivial, hb⟩, rfl, rfl⟩
    · rintro ⟨l, hl, rfl, rfl⟩
      exact ((hlots.mem l).1 hl).2
  -- Two lots of one proposal are for its one recipient, and so under one key.
  · have hkeys := hlots.nodup
    rw [List.Nodup, List.pairwise_map] at hkeys ⊢
    refine hkeys.imp_of_mem fun {l l'} hl hl' hne hid => hne ?_
    obtain ⟨p, hp, hlp, he⟩ := earned hl
    exact he.toPays.key_eq (sound l' hl' p hp (hid ▸ hlp)).toPays
  · intro l hl
    obtain ⟨p, hp, hid, -⟩ := earned hl
    exact ⟨p, hp, hid⟩
  · intro p hp hexec hearns
    obtain ⟨l, he, hb⟩ := h.complete p.id p ((hm _ p).2 ⟨hp, rfl⟩) hexec hearns
    exact ⟨l, (hlots.mem l).2 ⟨trivial, hb⟩, he⟩

/-- While the voting denom stays and lots can be written, the lots of a run are exactly those of the
grants that it executed. -/
theorem lotsMatch_after {ops : List Operation} (hc : c.Fresh params)
    (hlots : c.store.view.failLots = false) (hfits : ∀ op ∈ ops, op.Fits)
    (hkeeps : ∀ op ∈ ops, op.KeepsPower k params.votingDenom) :
    ∃ ps ls, (k.after ops c).LotsMatch params.votingDenom (k.history ops c) ps ls := by
  obtain ⟨n, hn⟩ := consistent_after (k := k) hfits hc.consistent
  have hr := (readable_invariant k).run hfits hc.wellKept hc.readable
  exact (paysOut_after hc hlots hfits hkeeps).lotsMatch (hc.wellKept.after k ops) hr hn.tidy

theorem sample_lotsMatch :
    ∃ ps ls, (Sample.keeper.after Sample.granting Sample.start).LotsMatch
        Params.default.votingDenom (Sample.keeper.history Sample.granting Sample.start) ps ls ∧
      ls = [⟨Sample.proposer, 0, 7, ⟨501⟩⟩] := by
  obtain ⟨ps, ls, h⟩ := lotsMatch_after (k := Sample.keeper) Sample.start_fresh rfl
    Sample.granting_fit (by intro op hop; fin_cases hop <;> exact trivial)
  have hlots : (Sample.keeper.after Sample.granting Sample.start).store.everyLot.toOption =
      some [⟨Sample.proposer, 0, 7, ⟨501⟩⟩] := by decide +kernel
  rw [h.lots] at hlots
  exact ⟨ps, ls, h, Option.some.inj hlots⟩

end DaoGovernance
