import DaoGovernance.Host
import DaoGovernance.Proofs.Alike
import DaoGovernance.Proofs.Genesis.Loading
import DaoGovernance.Proofs.Lasting
import Mathlib

/-!
A keeper is opened on tables as a whole or not at all.  If that fails, all records are as before, and
only the schema may have been brought up to date and the tables left open.
-/

namespace DaoGovernance

open DaoGovernance.Action

/-! ### Tables -/

namespace TableStore

variable {t t' t₁ : TableStore} {size : UInt64} {found : Option UInt32}

structure SameRecords (t t' : TableStore) : Prop where
  proposals : t'.proposals = t.proposals
  votes : t'.votes = t.votes
  lots : t'.lots = t.lots
  params : t'.params = t.params
  info : ∀ key, key ≠ schemaKey → t'.info.get? key = t.info.get? key

theorem SameRecords.trans {t₂ : TableStore} (h : t.SameRecords t₁) (k : t₁.SameRecords t₂) :
    t.SameRecords t₂ where
  proposals := k.proposals.trans h.proposals
  votes := k.votes.trans h.votes
  lots := k.lots.trans h.lots
  params := k.params.trans h.params
  info key hkey := (k.info key hkey).trans (h.info key hkey)

theorem SameRecords.resize (h : t.SameRecords t') (size size' : Option UInt64) :
    SameRecords { t with openSize := size } { t' with openSize := size' } :=
  ⟨h.proposals, h.votes, h.lots, h.params, h.info⟩

inductive Opened (t : TableStore) : TableStore → Prop
  | kept (size : Option UInt64) : Opened t { t with openSize := size }
  | upgraded {t' : TableStore} {found : Option UInt32} (h : t.upgrade = .ok (t', found))
      (size : Option UInt64) : Opened t { t' with openSize := size }

theorem attach_eq_ok (h : t.attach size = .ok t') : t' = { t with openSize := some size } := by
  unfold attach at h
  split at h
  · rename_i hopen
    split at h
    · rename_i hsize
      cases h
      rw [← hsize, ← hopen]
    · cases h
  · split at h
    · cases h
    · cases h
      rfl

theorem upgrade_openSize (t : TableStore) (size : Option UInt64) :
    { t with openSize := size }.upgrade =
      Prod.map (fun t' => { t' with openSize := size }) id <$> t.upgrade := by
  have hschema : { t with openSize := size }.schema = t.schema := rfl
  unfold upgrade
  rw [hschema]
  cases t.schema with
  | error e => rfl
  | ok version =>
    dsimp only
    split
    · rfl
    · split <;> rfl

theorem upgrade_of_openSize {size : Option UInt64}
    (h : { t with openSize := size }.upgrade = .ok (t', found)) :
    ∃ t₁, t.upgrade = .ok (t₁, found) ∧ t' = { t₁ with openSize := size } := by
  rw [upgrade_openSize] at h
  cases hup : t.upgrade with
  | error e =>
    rw [hup] at h
    cases h
  | ok r =>
    rw [hup] at h
    cases h
    exact ⟨r.1, rfl, rfl⟩

theorem upgrade_of_current (h : t.schema = .ok currentSchema) : t.upgrade = .ok (t, none) := by
  rw [upgrade, h]
  rfl

theorem upgrade_eq_ok (h : t.upgrade = .ok (t', found)) :
    t.SameRecords t' ∧ t'.upgrade = .ok (t', none) := by
  have hup := h
  unfold upgrade at h
  split at h
  · cases h
  · split at h
    · cases h
    · split at h
      · cases h
        refine ⟨⟨rfl, rfl, rfl, rfl, fun key hkey => SortedMap.get?_insert_of_ne _ _ hkey.symm⟩, ?_⟩
        apply upgrade_of_current
        rw [schema, SortedMap.get?_insert_self]
        rfl
      · cases h
        exact ⟨⟨rfl, rfl, rfl, rfl, fun _ _ => rfl⟩, hup⟩

namespace Opened

theorem sameRecords (h : t.Opened t') : t.SameRecords t' := by
  cases h with
  | kept => exact ⟨rfl, rfl, rfl, rfl, fun _ _ => rfl⟩
  | upgraded h => exact (upgrade_eq_ok h).1.resize t.openSize _

theorem closed (h : t.Opened t') : Opened { t with openSize := none } { t' with openSize := none } := by
  cases h with
  | kept => exact .kept none
  | @upgraded t' found h =>
    have hup : { t with openSize := none }.upgrade = .ok ({ t' with openSize := none }, found) := by
      rw [upgrade_openSize, h]
      rfl
    exact .upgraded hup none

theorem upgrade_alike (h : t.Opened t') (size : Option UInt64) :
    (∃ e, { t with openSize := size }.upgrade = .error e ∧
      { t' with openSize := size }.upgrade = .error e) ∨
    ∃ t₁ found found', { t with openSize := size }.upgrade = .ok (t₁, found) ∧
      { t' with openSize := size }.upgrade = .ok (t₁, found') := by
  cases h with
  | kept =>
    cases { t with openSize := size }.upgrade with
    | error e => exact .inl ⟨e, rfl, rfl⟩
    | ok r => exact .inr ⟨r.1, r.2, r.2, rfl, rfl⟩
  | @upgraded t' found h =>
    refine .inr ⟨{ t' with openSize := size }, found, none, ?_, ?_⟩
    · rw [upgrade_openSize, h]
      rfl
    · rw [upgrade_openSize { t' with openSize := _ }, upgrade_openSize t', (upgrade_eq_ok h).2]
      rfl

end Opened

def AttachAlike (size : UInt64) (t t' : TableStore) : Prop :=
  (∃ e, t.attach size = .error e ∧ t'.attach size = .error e) ∨
    t.attach size = .ok { t with openSize := some size } ∧
      t'.attach size = .ok { t' with openSize := some size }

theorem attach_of_open (h : t.openSize = some size) :
    t.attach size = .ok { t with openSize := some size } := by
  rw [attach, h]
  dsimp only
  rw [if_pos rfl, ← h]

theorem attachAlike_of_openSize (h : t'.openSize = t.openSize) : AttachAlike size t t' := by
  by_cases hopen : t.openSize = some size
  · exact .inr ⟨attach_of_open hopen, attach_of_open (h.trans hopen)⟩
  · unfold AttachAlike attach
    rw [h]
    split
    · rename_i size' hsize
      have hne : size' ≠ size := fun he => hopen (he ▸ hsize)
      rw [if_neg hne, if_neg hne]
      exact .inl ⟨_, rfl, rfl⟩
    · split
      · exact .inl ⟨_, rfl, rfl⟩
      · exact .inr ⟨rfl, rfl⟩

theorem attachAlike_of_left (h : t.attach size = .ok t₁) (h' : t'.openSize = some size) :
    AttachAlike size t t' := by
  rw [attach_eq_ok h] at h
  exact .inr ⟨h, attach_of_open h'⟩

end TableStore

/-! ### Stores and chains -/

def Store.SameTables : Store → Store → Prop
  | .tables t, .tables t' => t.SameRecords t'
  | s, s' => s' = s

theorem Store.SameTables.refl (s : Store) : s.SameTables s := by
  cases s with
  | memory m => rfl
  | tables t => exact ⟨rfl, rfl, rfl, rfl, fun _ _ => rfl⟩

structure Chain.SameTables (c d : Chain) : Prop where
  store : c.store.SameTables d.store
  others : d = { c with store := d.store, log := d.log }

theorem Store.SameTables.trans {s t u : Store} (h : s.SameTables t) (k : t.SameTables u) :
    s.SameTables u := by
  cases s with
  | memory m =>
    cases h
    exact k
  | tables t₁ =>
    cases t with
    | memory m => cases h
    | tables t₂ =>
      cases u with
      | memory m => cases k
      | tables t₃ => exact TableStore.SameRecords.trans h k

instance : Std.Refl Chain.SameTables := ⟨fun c => ⟨.refl c.store, rfl⟩⟩

instance : IsTrans Chain Chain.SameTables where
  trans c d e h k := by
    refine ⟨h.store.trans k.store, ?_⟩
    rw [k.others, h.others]

theorem Chain.SameTables.of_tables {c : Chain} {t t' : TableStore} {log : List Notice}
    (hc : c.store = .tables t) (h : t.SameRecords t') :
    c.SameTables { c with store := .tables t', log } := by
  refine ⟨?_, rfl⟩
  rw [hc]
  exact h

theorem Store.SameTables.getParams {s t : Store} (h : s.SameTables t) :
    t.getParams = s.getParams := by
  cases s with
  | memory m => rw [show t = .memory m from h]
  | tables u =>
    cases t with
    | memory m => cases h
    | tables u' =>
      have h : u.SameRecords u' := h
      simp only [Store.getParams, TableStore.getParams, h.params]

theorem Chain.Logs.sameTables {c d : Chain} (h : c.Logs d) : c.SameTables d := by
  rw [h]
  exact ⟨.refl _, rfl⟩

theorem TableStore.SameRecords.becomes {t t' : TableStore} (h : t.SameRecords t') :
    (Store.tables t).Becomes (.tables t') (Store.tables t).view (Store.tables t).lotAt := by
  have hseq := h.info sequenceKey (by decide)
  refine ⟨fun hk => ?_, rfl, ?_, ?_⟩
  · obtain ⟨⟨hp, hv, hn⟩, hl⟩ := hk
    refine ⟨⟨?_, ?_, ?_⟩, ?_⟩
    · rwa [h.proposals]
    · rwa [h.votes]
    · rwa [hseq]
    · rw [Store.LotsKeyed, h.lots]
      exact hl
  · have hproposals : t'.getProposal = t.getProposal := by
      funext id
      rw [getProposal, h.proposals, getProposal]
    simp only [Store.view, hproposals, getVote, getParams, nextId, h.votes, h.params, hseq]
  · simp only [Store.lotAt, h.lots]

theorem Store.exists_tables {s : Store} (h : s.isOnTables = true) : ∃ t, s = .tables t := by
  cases s with
  | memory m => cases h
  | tables t => exact ⟨t, rfl⟩

def Store.openSize : Store → Option UInt64
  | .memory _ => none
  | .tables t => t.openSize

def Store.closed : Store → Store
  | .memory m => .memory m
  | .tables t => .tables { t with openSize := none }

def Chain.restarted (c : Chain) : Chain := { c with store := c.store.closed }

/-! ### Opening tables -/

namespace Host

variable {t t₁ t₂ : TableStore} {size : UInt64} {found : Option UInt32} {e : TableError} {c d : Chain}
  {cfg : Config} {file : GenesisFile}

theorem onTables_ok {α : Type} (a : α) : onTables (.ok a) = pure a := rfl

theorem setTables_apply (t : TableStore) (c : Chain) :
    setTables t c = .ok () { c with store := .tables t } := rfl

theorem openTables_of_refused (hc : c.store = .tables t) (h : t.attach size = .error e) :
    openTables size c = .error (.store e.toStoreError) c := by
  rw [openTables, bind_of_ok get_apply, hc]
  dsimp only
  rw [h]
  exact bind_of_error rfl

theorem openTables_of_unsupported (hc : c.store = .tables t) (h : t.attach size = .ok t₁)
    (hup : t₁.upgrade = .error e) :
    openTables size c = .error (.store e.toStoreError) { c with store := .tables t₁ } := by
  rw [openTables, bind_of_ok get_apply, hc]
  dsimp only
  rw [h, onTables_ok, pure_bind, bind_of_ok (setTables_apply _ _), hup]
  rfl

theorem openTables_of_upgraded (hc : c.store = .tables t) (h : t.attach size = .ok t₁)
    (hup : t₁.upgrade = .ok (t₂, found)) :
    openTables size c = .ok () { c with
      store := .tables t₂
      log := c.log ++ schemaNotices found ++ [.tablesOpened size] } := by
  rw [openTables, bind_of_ok get_apply, hc]
  dsimp only
  rw [h, onTables_ok, pure_bind, bind_of_ok (setTables_apply _ _), hup]
  rfl

theorem openTables_within : Within Chain.SameTables (openTables size) := by
  intro c
  cases hc : c.store with
  | memory m =>
    have hopen : openTables size c = .ok () c := by
      rw [openTables, bind_of_ok get_apply, hc]
      rfl
    rw [hopen]
    exact refl c
  | tables t =>
    cases h : t.attach size with
    | error e =>
      rw [openTables_of_refused hc h]
      exact refl c
    | ok t₁ =>
      obtain rfl := TableStore.attach_eq_ok h
      cases hup : { t with openSize := some size }.upgrade with
      | error e =>
        rw [openTables_of_unsupported hc h hup]
        exact .of_tables hc (TableStore.Opened.kept _).sameRecords
      | ok r =>
        rw [openTables_of_upgraded hc h hup]
        obtain ⟨t', hup', he⟩ := TableStore.upgrade_of_openSize hup
        rw [he]
        exact .of_tables hc (TableStore.Opened.upgraded hup' _).sameRecords

theorem loadFresh_ends (hc : c.store = .tables t) :
    Ends (loadFresh file) c
      (fun _ d => (t.getParams ≠ none ∧ d = c) ∨ (t.getParams = none ∧
        ∃ g, file.read = .ok g ∧ g.validate = .ok () ∧ g.Fills c.store d.store))
      fun _ d => d = c := by
  rw [loadFresh]
  refine .of_step get_apply ?_
  rw [hc]
  change Ends (if t.getParams.isNone = true then _ else _) c _ _
  cases hparams : t.getParams with
  | some b => exact .inl ⟨nofun, rfl⟩
  | none =>
    cases hread : file.read with
    | error e => exact .of_fail (check_eq_error.2 ⟨rfl, rfl⟩) rfl
    | ok g =>
      refine .of_step (check_eq_ok.2 ⟨rfl, rfl⟩) ?_
      cases hg : g.validate with
      | error e => exact .of_fail (check_eq_error.2 ⟨hg, rfl⟩) rfl
      | ok u =>
        obtain ⟨d, hd, hfill⟩ := Genesis.load_eq_ok (c := c) hg (by rw [hc]; rfl) (by rw [hc]; rfl)
        rw [Ends, hd]
        exact .inr ⟨rfl, g, rfl, hg, hc ▸ hfill⟩

/-! ### Opening a keeper -/

theorem wire_of_validate (h : cfg.validate = .ok ()) :
    ∃ k, wire cfg.authority cfg.moduleAccount = .ok k := by
  have hvalid : Address.isValid cfg.authority = true := by
    unfold Config.validate at h
    split at h
    · cases h
    · rename_i hnot
      simpa using hnot
  refine ⟨⟨⟨cfg.authority, hvalid⟩, cfg.moduleAccount⟩, ?_⟩
  rw [wire, Keeper.build, Address.parse, dif_pos hvalid]

theorem openKeeper_ends (cfg : Config) (file : GenesisFile) (hc : c.store = .tables t) :
    Ends (openKeeper cfg file) c
      (fun _ d => ∃ t', t.Opened t' ∧
        ((t.getParams ≠ none ∧ d = { c with store := .tables t', log := d.log }) ∨
          (t.getParams = none ∧ ∃ g, file.read = .ok g ∧ g.validate = .ok () ∧
            g.Fills (.tables t') d.store)))
      fun _ d => ∃ t', t.Opened t' ∧ d = { c with store := .tables t', log := d.log } ∧
        (t'.openSize = t.openSize ∨
          t'.openSize = some cfg.mapSize ∧ ∃ t₁, t.attach cfg.mapSize = .ok t₁) := by
  have hkept : t.Opened t := .kept t.openSize
  have hsame : c = { c with store := .tables t, log := c.log } := by rw [← hc]
  cases hv : cfg.validate with
  | error e => exact .of_fail (check_eq_error.2 ⟨hv, rfl⟩) ⟨t, hkept, hsame, .inl rfl⟩
  | ok u =>
    refine .of_step (check_eq_ok.2 ⟨hv, rfl⟩) ?_
    cases hattach : t.attach cfg.mapSize with
    | error e => exact .of_fail (openTables_of_refused hc hattach) ⟨t, hkept, hsame, .inl rfl⟩
    | ok t₁ =>
      obtain rfl := TableStore.attach_eq_ok hattach
      cases hup : { t with openSize := some cfg.mapSize }.upgrade with
      | error e =>
        refine .of_fail (openTables_of_unsupported hc hattach hup) ?_
        exact ⟨_, .kept (some cfg.mapSize), rfl, .inr ⟨rfl, _, rfl⟩⟩
      | ok r =>
        obtain ⟨t₂, found⟩ := r
        have ho : t.Opened t₂ ∧ t₂.openSize = some cfg.mapSize := by
          obtain ⟨t', h, rfl⟩ := TableStore.upgrade_of_openSize hup
          exact ⟨.upgraded h _, rfl⟩
        refine .of_step (openTables_of_upgraded hc hattach hup) ?_
        obtain ⟨k, hk⟩ := wire_of_validate hv
        refine .of_step (check_eq_ok.2 ⟨hk, rfl⟩) ?_
        have hparams : t₂.getParams = t.getParams := by
          rw [TableStore.getParams, ho.1.sameRecords.params, TableStore.getParams]
        refine .bind ((loadFresh_ends (t := t₂) rfl).mono (fun _ _ h => h) ?_) ?_
        · rintro _ _ rfl
          exact ⟨t₂, ho.1, rfl, .inr ⟨ho.2, _, rfl⟩⟩
        · rintro _ d - hd
          refine .of_step (note_apply _) ⟨t₂, ho.1, ?_⟩
          rw [hparams] at hd
          rcases hd with ⟨hp, rfl⟩ | ⟨hp, g, hfill⟩
          · exact .inl ⟨hp, rfl⟩
          · exact .inr ⟨hp, g, hfill⟩

def finishOpening (cfg : Config) (file : GenesisFile) : Action Keeper := do
  let k ← Action.check (wire cfg.authority cfg.moduleAccount)
  loadFresh file
  Action.note (.keeperReady k.moduleAccount)
  return k

theorem finishOpening_respects_logs : Respects Chain.Logs (finishOpening cfg file) := by
  have hload : Respects Chain.Logs (loadFresh file) := by
    refine .of_get (g := fun c => c.store.getParams.isNone)
      (f := fun b => if b = true then check file.read >>= Genesis.load else pure ()) ?_ fun b => ?_
    · intro c d h
      rw [h]
    · split
      · exact .bind (.check _) (HoldsOfLoading.load (H := fun _ x => Respects Chain.Logs x)
          ⟨compositional_respects_logs, fun w => write_respects_logs w.run⟩)
      · exact .pure ()
  refine .bind (.check _) fun k => .bind hload fun _ => ?_
  exact .bind (compositional_respects_logs.note _) fun _ => .pure k

theorem openKeeper_alike {t' : TableStore} (hc : c.store = .tables t)
    (hd : d = { c with store := .tables t', log := d.log }) (ho : t.Opened t')
    (ha : TableStore.AttachAlike cfg.mapSize t t') :
    Alike Chain.SameTables (openKeeper cfg file c) (openKeeper cfg file d) := by
  have hdt : d.store = .tables t' := by rw [hd]
  have hsame : c.SameTables d := by
    refine ⟨?_, ?_⟩
    · rw [hc, hdt]
      exact ho.sameRecords
    · rw [hdt]
      exact hd
  cases hv : cfg.validate with
  | error e =>
    exact .of_error (bind_of_error (check_eq_error.2 ⟨hv, rfl⟩))
      (bind_of_error (check_eq_error.2 ⟨hv, rfl⟩)) hsame
  | ok u =>
    have hopen (c : Chain) : openKeeper cfg file c =
        (openTables cfg.mapSize >>= fun _ => finishOpening cfg file) c :=
      bind_of_ok (check_eq_ok.2 ⟨hv, rfl⟩)
    rw [hopen, hopen]
    rcases ha with ⟨e, hct, hdt'⟩ | ⟨hct, hdt'⟩
    · exact .of_error (bind_of_error (openTables_of_refused hc hct))
        (bind_of_error (openTables_of_refused hdt hdt')) hsame
    · rcases ho.upgrade_alike (some cfg.mapSize) with ⟨e, hup, hup'⟩ | ⟨t₁, v, v', hup, hup'⟩
      · refine .of_error (bind_of_error (openTables_of_unsupported hc hct hup))
          (bind_of_error (openTables_of_unsupported hdt hdt' hup')) ?_
        refine ⟨ho.sameRecords.resize _ _, ?_⟩
        rw [hd]
      · rw [bind_of_ok (openTables_of_upgraded hc hct hup),
          bind_of_ok (openTables_of_upgraded hdt hdt' hup')]
        refine (finishOpening_respects_logs _ _ ?_).mono fun _ _ => Chain.Logs.sameTables
        rw [hd]
        rfl

theorem finishOpening_congr (h : c.store.getParams ≠ none) (file file' : GenesisFile) :
    finishOpening cfg file' c = finishOpening cfg file c := by
  have hload (file : GenesisFile) : loadFresh file c = .ok () c := by
    rw [loadFresh, bind_of_ok get_apply, if_neg (by simpa using h)]
    rfl
  cases hk : wire cfg.authority cfg.moduleAccount with
  | error e =>
    have hfail (file : GenesisFile) : finishOpening cfg file c = .error e c :=
      bind_of_error (check_eq_error.2 ⟨hk, rfl⟩)
    rw [hfail, hfail]
  | ok k =>
    have hdone (file : GenesisFile) : finishOpening cfg file c =
        (do Action.note (.keeperReady k.moduleAccount); return k) c :=
      (bind_of_ok (check_eq_ok.2 ⟨hk, rfl⟩)).trans (bind_of_ok (hload file))
    rw [hdone, hdone]

theorem openKeeper_congr (h : c.store.getParams ≠ none) (file file' : GenesisFile) :
    openKeeper cfg file' c = openKeeper cfg file c := by
  have hsplit (file : GenesisFile) : openKeeper cfg file =
      (check cfg.validate >>= fun _ => openTables cfg.mapSize) >>= fun _ =>
        finishOpening cfg file := by
    rw [bind_assoc]
    rfl
  have hwithin : Within Chain.SameTables (check cfg.validate >>= fun _ => openTables cfg.mapSize) :=
    .bind (.check _) fun _ => openTables_within
  rw [hsplit, hsplit]
  cases hx : (check cfg.validate >>= fun _ => openTables cfg.mapSize) c with
  | error e d => rw [bind_of_error hx, bind_of_error hx]
  | ok u d =>
    rw [bind_of_ok hx, bind_of_ok hx]
    apply finishOpening_congr
    rwa [(hwithin.of_ok hx).store.getParams]

/-! ### How opening ends -/

theorem sameTables_of_error {e : GovernanceError} (hc : c.store = .tables t)
    (h : openKeeper cfg file c = .error e d) : c.SameTables d := by
  obtain ⟨t', ho, hd, -⟩ := (openKeeper_ends cfg file hc).of_error h
  rw [hd]
  exact .of_tables hc ho.sameRecords

theorem sameTables_of_params (hc : c.store = .tables t) (hparams : c.store.getParams ≠ none) :
    c.SameTables (final (openKeeper cfg file c)) := by
  cases h : openKeeper cfg file c with
  | error e d => exact sameTables_of_error hc h
  | ok k d =>
    obtain ⟨t', ho, ⟨-, hd⟩ | ⟨hnone, -⟩⟩ := (openKeeper_ends cfg file hc).of_ok h
    · rw [final, hd]
      exact .of_tables hc ho.sameRecords
    · rw [hc] at hparams
      exact absurd hnone hparams

theorem fills_of_ok {k : Keeper} (hc : c.store = .tables t) (hparams : c.store.getParams = none)
    (h : openKeeper cfg file c = .ok k d) :
    ∃ g, file.read = .ok g ∧ g.validate = .ok () ∧ g.Fills c.store d.store := by
  obtain ⟨t', ho, ⟨hstored, -⟩ | ⟨-, g, hread, hvalid, hfill⟩⟩ :=
    (openKeeper_ends cfg file hc).of_ok h
  · rw [hc] at hparams
    exact absurd hparams hstored
  · refine ⟨g, hread, hvalid, ?_⟩
    have hb := ho.sameRecords.becomes
    rw [Genesis.Fills, hb.view, hb.lots] at hfill
    rw [hc]
    exact hb.trans hfill

theorem alike_of_error {e : GovernanceError} (hc : c.store = .tables t)
    (h : openKeeper cfg file c = .error e d) {cfg' : Config} {file' : GenesisFile}
    (hsize : d.store.openSize = c.store.openSize ∨ cfg'.mapSize = cfg.mapSize) :
    Alike Chain.SameTables (openKeeper cfg' file' c) (openKeeper cfg' file' d) := by
  obtain ⟨t', ho, hd, hopen⟩ := (openKeeper_ends cfg file hc).of_error h
  refine openKeeper_alike hc hd ho ?_
  rcases hopen with hsame | ⟨hleft, t₁, hattach⟩
  · exact TableStore.attachAlike_of_openSize hsame
  · rcases hsize with hsame | hsize
    · rw [hd, hc] at hsame
      exact TableStore.attachAlike_of_openSize hsame
    · rw [hsize]
      exact TableStore.attachAlike_of_left hattach hleft

theorem alike_of_restarted {e : GovernanceError} (hc : c.store = .tables t)
    (h : openKeeper cfg file c = .error e d) (cfg' : Config) (file' : GenesisFile) :
    Alike Chain.SameTables (openKeeper cfg' file' c.restarted)
      (openKeeper cfg' file' d.restarted) := by
  obtain ⟨t', ho, hd, -⟩ := (openKeeper_ends cfg file hc).of_error h
  have hc' : c.restarted.store = .tables { t with openSize := none } := by
    rw [Chain.restarted, hc]
    rfl
  refine openKeeper_alike hc' ?_ ho.closed (TableStore.attachAlike_of_openSize rfl)
  rw [hd]
  rfl

end Host

/-! ### As a whole -/

/-- Opening a keeper on the tables of `c` is all or nothing. -/
structure Config.OpensWhole (cfg : Config) (file : GenesisFile) (c : Chain) : Prop where
  wired : cfg.validate = .ok () → ∃ k, Host.wire cfg.authority cfg.moduleAccount = .ok k
  existing : c.store.getParams ≠ none → c.SameTables (final (Host.openKeeper cfg file c)) ∧
    ∀ file', Host.openKeeper cfg file' c = Host.openKeeper cfg file c
  filled : ∀ k d, c.store.getParams = none → Host.openKeeper cfg file c = .ok k d →
    ∃ g, file.read = .ok g ∧ g.validate = .ok () ∧ g.Fills c.store d.store
  failed : ∀ e d, Host.openKeeper cfg file c = .error e d → c.SameTables d
  /-- As long as the tables are not left open with a size that is not asked for again, the next one
  to open a keeper comes to the same as if nobody had tried before. -/
  retried : ∀ e d, Host.openKeeper cfg file c = .error e d → ∀ cfg' file',
    d.store.openSize = c.store.openSize ∨ cfg'.mapSize = cfg.mapSize →
      Alike Chain.SameTables (Host.openKeeper cfg' file' c) (Host.openKeeper cfg' file' d)
  restarted : ∀ e d, Host.openKeeper cfg file c = .error e d → ∀ cfg' file',
    Alike Chain.SameTables (Host.openKeeper cfg' file' c.restarted)
      (Host.openKeeper cfg' file' d.restarted)

theorem opensWhole {c : Chain} (hc : c.store.isOnTables = true) (cfg : Config)
    (file : GenesisFile) : cfg.OpensWhole file c := by
  obtain ⟨t, ht⟩ := Store.exists_tables hc
  exact {
    wired := Host.wire_of_validate
    existing := fun hparams =>
      ⟨Host.sameTables_of_params ht hparams, fun file' => Host.openKeeper_congr hparams file file'⟩
    filled := fun _ _ hnone h => Host.fills_of_ok ht hnone h
    failed := fun _ _ h => Host.sameTables_of_error ht h
    retried := fun _ _ h _ _ hsize => Host.alike_of_error ht h hsize
    restarted := fun _ _ h cfg' file' => Host.alike_of_restarted ht h cfg' file' }

/-! ### A file that is not there -/

namespace Sample

def config (mapSize : UInt64) : Config := { Config.new keeper.authority.text with mapSize }

def unopened : Chain := .fresh .emptyTables

def abandoned : Chain := final (Host.openKeeper (config 16777216) .missing unopened)

theorem openKeeper_unopened :
    Host.openKeeper (config 16777216) .missing unopened = .error (.config .missingFile) abandoned := by
  rfl

end Sample

theorem unopened_opensWhole :
    (Sample.config 16777216).OpensWhole .missing Sample.unopened ∧
      Sample.unopened.SameTables Sample.abandoned ∧
      ∃ d, Host.openKeeper (Sample.config 16777216) .none Sample.abandoned =
        .ok Sample.keeper d := by
  have hwhole := opensWhole (c := Sample.unopened) rfl (Sample.config 16777216) .missing
  refine ⟨hwhole, hwhole.failed _ _ Sample.openKeeper_unopened, ?_⟩
  obtain ⟨d, hd⟩ := exists_ok (x := Host.openKeeper (Sample.config 16777216) .none)
    (c := Sample.unopened) (a := Sample.keeper) (by decide +kernel)
  have hretried := hwhole.retried _ _ Sample.openKeeper_unopened (Sample.config 16777216) .none
    (.inr rfl)
  rw [hd] at hretried
  obtain ⟨d', hd', -⟩ := hretried.exists_ok
  exact ⟨d', hd'⟩

/-- In the same process a keeper that asks for another size is refused where it would have been the
first one. -/
theorem abandoned_not_alike :
    Host.openKeeper (Sample.config 16777216) .missing Sample.unopened =
        .error (.config .missingFile) Sample.abandoned ∧
      (∃ d, Host.openKeeper (Sample.config 33554432) .none Sample.unopened =
        .ok Sample.keeper d) ∧
      ∃ d, Host.openKeeper (Sample.config 33554432) .none Sample.abandoned =
        .error (.store TableStore.otherOptions.toStoreError) d := by
  refine ⟨Sample.openKeeper_unopened, exists_ok (by decide +kernel), ?_⟩
  exact ⟨_, rfl⟩

end DaoGovernance
