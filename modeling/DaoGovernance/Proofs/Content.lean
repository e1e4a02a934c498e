import DaoGovernance.Proofs.Genesis
import DaoGovernance.Proofs.Label
import Mathlib

/-!
The content of stored proposals.  What a submission stores was validated and brought to canonical
form, it is read back as it was, and no later step touches it.
-/

namespace DaoGovernance

variable {k : Keeper} {c d : Chain}

/-! ### Labels that are asked for -/

def Proposal.label (p : Proposal) : Option String :=
  match p.content.unpack with
  | .ok (.addLabel l) => some (Label.normalize l)
  | _ => none

theorem Proposal.label_eq_some {p : Proposal} {l : String} :
    p.label = some l ↔ ∃ l', p.content.unpack = .ok (.addLabel l') ∧ Label.normalize l' = l := by
  unfold label
  split
  · rename_i l' h
    simp [h]
  · rename_i h
    constructor
    · rintro ⟨⟩
    · rintro ⟨l', h', -⟩
      exact absurd h' (h l')

/-! ### Content that was accepted -/

structure Content.Accepted (content : Content) : Prop where
  fits : content.Fits
  registrable : ∀ l, content = .addLabel l → Label.Registrable l

namespace Content.Accepted

variable {content content' : Content} {p q : Proposal}

theorem unpack (h : content.Accepted) (hp : p.content = content.pack) :
    p.content.unpack = .ok content := by
  rw [hp, unpack_pack h.fits]

theorem label (h : content.Accepted) (hp : p.content = content.pack) {l : String} :
    p.label = some l ↔ content = .addLabel l := by
  rw [Proposal.label_eq_some, h.unpack hp]
  constructor
  · rintro ⟨l', hl, rfl⟩
    cases hl
    rw [(h.registrable l' rfl).normal]
  · rintro rfl
    exact ⟨l, rfl, (h.registrable l rfl).normal⟩

end Content.Accepted

theorem Submission.accepted_of_readContent {s : Submission} {content : Content} (hs : s.Fits)
    (h : s.readContent = .ok content) : content.Accepted := by
  refine ⟨(fits_of_readContent hs h).1, ?_⟩
  intro l hl
  obtain ⟨e, read, -, -, hvalid, rfl⟩ := readContent_eq_ok h
  cases read with
  | requestTokens => cases hl
  | addLabel l' =>
    obtain rfl := Content.addLabel.inj hl
    exact Label.registrable_of_check (Content.check_of_validateLabel hvalid)
      (Label.normalize_normalize l')

def Chain.Accepts (c : Chain) : Prop :=
  ∀ id p, c.store.view.proposal id = some p →
    ∃ content : Content, content.Accepted ∧ p.content = content.pack

namespace Chain.Accepts

theorem congr (h : c.Accepts) (hv : d.store.view.proposals = c.store.view.proposals) :
    d.Accepts := by
  intro id p hp
  rw [Store.View.proposal_congr (congrFun hv id)] at hp
  exact h id p hp

theorem put (h : c.Accepts) {p : Proposal} {content : Content} (hp : p.Fits)
    (ha : content.Accepted) (hcontent : p.content = content.pack)
    (hv : d.store.view.proposals = (c.store.view.put p).proposals) : d.Accepts := by
  intro id q hq
  rw [Store.View.proposal_congr (congrFun hv id)] at hq
  by_cases hid : id = p.id
  · rw [hid, Store.View.proposal_put_self hp] at hq
    cases hq
    exact ⟨content, ha, hcontent⟩
  · rw [Store.View.proposal_put_of_ne hid] at hq
    exact h id q hq

theorem opens {s : Submission} {p : Proposal} (h : c.Accepts) (hs : s.Fits)
    (ho : Opens k s c p d) : d.Accepts := by
  obtain ⟨content, params, snapshot, hread, -, hp, -⟩ := ho.opened
  exact h.put (ho.fits hs) (Submission.accepted_of_readContent hs hread) (by rw [hp]; rfl)
    ho.proposals

theorem finalizes {params : Params} {p : Proposal} {s : Settled} (h : c.Accepts)
    (hf : Finalizing k params p c s d) : d.Accepts := by
  obtain ⟨content, ha, hcontent⟩ := h p.id p hf.stored
  exact h.put ((Store.View.fits_of_proposal hf.stored).finish _ _) ha hcontent hf.proposals

end Chain.Accepts

theorem Chain.Fresh.accepts {p : Params} (h : c.Fresh p) : c.Accepts := by
  intro id q hq
  rw [h.proposal] at hq
  cases hq

/-! ### The registry -/

theorem Finalizing.registry {params : Params} {p : Proposal} {s : Settled}
    (hf : Finalizing k params p c s d) (h : c.Accepts) :
    d.registry = c.registry ∧ (s.finalized.outcome = .executed → p.label = none) ∨
    ∃ l, s.finalized.outcome = .executed ∧ p.label = some l ∧
      c.registry.isPermitted l = false ∧ d.registry = c.registry.preload l := by
  by_cases ho : s.finalized.outcome = .executed
  · obtain ⟨content, ha, hcontent⟩ := h p.id p hf.stored
    obtain ⟨content', hunpack, henacts⟩ := hf.enacts ho
    rw [ha.unpack hcontent] at hunpack
    cases hunpack
    have none_of_ne (hne : ∀ l, content ≠ .addLabel l) : p.label = none :=
      Option.eq_none_iff_forall_ne_some.2 fun l hl => hne l ((ha.label hcontent).1 hl)
    cases henacts with
    | @permitted l hpermit =>
      rw [(ha.registrable l rfl).normal] at hpermit
      exact .inr ⟨l, ho, (ha.label hcontent).2 rfl, Registry.permit_eq_ok hpermit⟩
    | paid _ hkept => exact .inl ⟨hkept.registry, fun _ => none_of_ne nofun⟩
    | granted _ _ hr => exact .inl ⟨hr, fun _ => none_of_ne nofun⟩
  · exact .inl ⟨(hf.grants.kept ho).registry, fun h => absurd h ho⟩

/-- Nobody but the keeper permits a label. -/
def Operation.LeavesLabels : Operation → Prop
  | .incident (.preload _) => False
  | _ => True

theorem Incident.isPermitted {i : Incident} (h : (Operation.incident i).LeavesLabels) (c : Chain)
    (l : String) : (i.apply c).registry.isPermitted l = c.registry.isPermitted l := by
  cases i with
  | preload => exact h.elim
  | _ => rfl

/-- What only the proposals and the registry tell is kept in every run, if what opens and what is
finalized keeps it. -/
theorem Invariant.of_labels {P : Chain → Prop}
    (congr : ∀ {c d : Chain}, P c → d.store.view.proposals = c.store.view.proposals →
      (∀ l, d.registry.isPermitted l = c.registry.isPermitted l) → P d)
    (opens : ∀ {c d : Chain} {s : Submission} {p : Proposal}, c.WellKept → P c → s.Fits →
      Opens k s c p d → P d)
    (finalizes : ∀ {c d : Chain} {params : Params} {p : Proposal} {s : Settled}, P c →
      Finalizing k params p c s d → P d) :
    Invariant k (fun op => op.Fits ∧ op.LeavesLabels) fun _ c => P c where
  quiet _ h hq := congr h hq.sameRecords.proposals fun l => by rw [hq.registry]
  opens hA hw h ho := opens hw h hA.1 ho
  refuses _ h hr := congr h hr.sameRecords.proposals fun l => by rw [hr.registry]
  casts _ h hv := congr h (by rw [hv.view]) fun l => by rw [hv.registry]
  finalizes _ h hf := finalizes h hf
  updates _ _ h _ := congr h (Chain.SameRecords.putParams _ _).proposals fun _ => rfl
  moves _ _ h := congr h rfl fun _ => rfl
  incidents i hA _ h := congr h (i.sameRecords _).proposals (Incident.isPermitted hA.2 _)

end DaoGovernance
