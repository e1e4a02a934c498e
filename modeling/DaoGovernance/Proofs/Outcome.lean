import DaoGovernance.Outcome
import DaoGovernance.Proofs.Action
import DaoGovernance.Proofs.Ledger
import DaoGovernance.Proofs.Store.Listing
import Mathlib

/-!
Carrying out a proposal leaves the records of proposals and votes alone.  If it is executed, its
label is permitted, or what it asks for is minted and paid and its lot is written.  Otherwise labels
and lots stay as they are, and what was minted is burned again.
-/

namespace DaoGovernance

open DaoGovernance.Action
open Ledger (Spares)

theorem AddressRole.text_of_parse {r : AddressRole} {s : String} {a : Address}
    (h : r.parse s = .ok a) : a.text = s := by
  unfold AddressRole.parse at h
  split at h
  · rename_i hs
    cases h
    exact Address.text_of_parse hs
  · cases h

structure Chain.Carried (c d : Chain) : Prop where
  view : d.store.view = c.store.view
  sound : c.store.Sound → d.store.Sound
  faults : d.faults = c.faults
  block : d.block = c.block

variable {c c' d : Chain} {k : Keeper} {params : Params} {id : UInt64}

structure Chain.KeepsGrants (c d : Chain) : Prop where
  registry : d.registry = c.registry
  lots : d.store.lotAt = c.store.lotAt

theorem Chain.KeepsGrants.trans (h : c.KeepsGrants c') (k : c'.KeepsGrants d) : c.KeepsGrants d :=
  ⟨k.registry.trans h.registry, k.lots.trans h.lots⟩

structure Chain.Moved (c d : Chain) : Prop extends c.Carried d, c.KeepsGrants d

theorem Chain.Quiet.keepsGrants (h : c.Quiet d) : c.KeepsGrants d := ⟨h.registry, h.lots⟩

theorem Chain.Quiet.moved (h : c.Quiet d) : c.Moved d :=
  ⟨⟨h.view, h.sound, h.faults, h.block⟩, h.keepsGrants⟩

theorem Chain.Carried.trans (h : c.Carried c') (k : c'.Carried d) : c.Carried d :=
  ⟨k.view.trans h.view, k.sound ∘ h.sound, k.faults.trans h.faults, k.block.trans h.block⟩

theorem Chain.Moved.trans (h : c.Moved c') (k : c'.Moved d) : c.Moved d :=
  ⟨h.toCarried.trans k.toCarried, h.toKeepsGrants.trans k.toKeepsGrants⟩

/-! ### Money -/

section

variable {l l' : Ledger} {content : Content}

inductive Keeper.Pays (k : Keeper) (l : Ledger) : Content → Ledger → Prop
  | permitted {label : String} : Pays k l (.addLabel label) l
  | paid {a : Address} {amount : Coins} {activity : String} {m l' : Ledger}
      (hm : l.mint k.moduleAccount amount = .ok m)
      (ha : m.toAccount k.moduleAccount a amount = .ok l') :
      Pays k l (.requestTokens a.text amount activity) l'

inductive Keeper.TakesBack (k : Keeper) (l : Ledger) : Ledger → Prop
  | kept : TakesBack k l l
  | burned {amount : Coins} {m l' : Ledger} (hm : l.mint k.moduleAccount amount = .ok m)
      (hb : m.burn k.moduleAccount amount = .ok l') : TakesBack k l l'
  | stuck {amount : Coins} {m : Ledger} {e : BankError}
      (hm : l.mint k.moduleAccount amount = .ok m)
      (hb : m.burn k.moduleAccount amount = .error e) : TakesBack k l m

theorem Keeper.Pays.spares (h : k.Pays l content l') : Spares k.moduleAccount l l' := by
  cases h with
  | permitted => exact .refl _ l
  | paid hm ha => exact ⟨_, _, (Ledger.mint_shifts hm).trans (Ledger.toAccount_shifts ha), by simp⟩

theorem Keeper.TakesBack.spares (h : k.TakesBack l l') : Spares k.moduleAccount l l' := by
  cases h with
  | kept => exact .refl _ l
  | burned hm hb => exact ⟨_, _, (Ledger.mint_shifts hm).trans (Ledger.burn_shifts hb), by simp⟩
  | stuck hm => exact .of_gain (Ledger.mint_shifts hm)

end

/-! ### Grants -/

/-- What the content of proposal `id` asks for was done at `c`, which left `d`. -/
inductive Chain.Enacts (params : Params) (id : UInt64) (c d : Chain) : Content → Prop
  | permitted {l : String} (registry : c.registry.permit (Label.normalize l) = .ok d.registry)
      (lots : d.store.lotAt = c.store.lotAt) : Enacts params id c d (.addLabel l)
  | paid {a : Address} {amount : Coins} {activity : String}
      (hn : amount.amountOf params.votingDenom = 0 ∨ c.store.view.failLots = true)
      (h : c.KeepsGrants d) : Enacts params id c d (.requestTokens a.text amount activity)
  | granted {a : Address} {amount : Coins} {activity : String} {l : Lot}
      (hl : l = ⟨a, id, amount.amountOf params.votingDenom, c.block.height⟩) (hz : l.initial ≠ 0)
      (registry : d.registry = c.registry)
      (lots : d.store.lotAt = Function.update c.store.lotAt l.key (some l.encode)) :
      Enacts params id c d (.requestTokens a.text amount activity)

theorem Chain.Enacts.congr {content : Content} {d' : Chain} (h : c'.Enacts params id d content)
    (hc : c.KeepsGrants c') (hblock : c'.block = c.block)
    (hview : c'.store.view.failLots = c.store.view.failLots) (hd : d.KeepsGrants d') :
    c.Enacts params id d' content := by
  cases h with
  | permitted hr hl =>
    exact .permitted (by rw [hd.registry, ← hr, hc.registry]) (by rw [hd.lots, hl, hc.lots])
  | paid hn h => exact .paid (hview ▸ hn) ((hc.trans h).trans hd)
  | granted hl hz hr hlots =>
    exact .granted (hblock ▸ hl) hz (by rw [hd.registry, hr, hc.registry])
      (by rw [hd.lots, hlots, hc.lots])

theorem permit_ends (hp : c.storeAtPermit = c.store) (label : String) :
    Ends (permit label) c
      (fun _ d => c.Carried d ∧ d.ledger = c.ledger ∧ c.registry.permit label = .ok d.registry ∧
        d.store.lotAt = c.store.lotAt)
      fun _ d => c.Moved d ∧ d.ledger = c.ledger := by
  apply Ends.permit
  · intro r hr
    rw [hp]
    exact ⟨⟨rfl, fun h => h, rfl, rfl⟩, rfl, hr, rfl⟩
  · intro e _
    rw [hp]
    exact ⟨⟨⟨rfl, fun h => h, rfl, rfl⟩, ⟨rfl, rfl⟩⟩, rfl⟩

theorem permitLabel_ends (params : Params) (hp : c.storeAtPermit = c.store) (label : String) :
    Ends (permitLabel id label) c
      (fun _ d => c.Carried d ∧ c.Enacts params id d (.addLabel label) ∧ d.ledger = c.ledger)
      fun _ d => c.Moved d ∧ d.ledger = c.ledger := by
  have hd (n : Notice) : c.Moved { c with log := c.log ++ [n] } :=
    Chain.Quiet.moved (IgnoresLog.log c [n])
  refine .of_step (note_apply _)
    ((permit_ends ?_ _).mono ?_ fun _ _ h => ⟨(hd _).trans h.1, h.2⟩)
  · exact hp
  rintro _ d' ⟨h, hl, hr, hlots⟩
  exact ⟨(hd _).toCarried.trans h, .permitted hr hlots, hl⟩

theorem grantLot_ends (l : Lot) :
    Ends (grantLot l) c
      (fun _ d => c.Carried d ∧ d.ledger = c.ledger ∧ d.registry = c.registry ∧
        (c.store.view.failLots = true ∧ d.store.lotAt = c.store.lotAt ∨
          d.store.lotAt = Function.update c.store.lotAt l.key (some l.encode)))
      fun _ _ => False := by
  rcases Store.setLot_eq c.store l with ⟨hf, e, he⟩ | ⟨-, s, hs, hsound, hview⟩
  · refine .of_step (attempt_of_error (write_eq_error.2 ⟨he, rfl⟩)) ?_
    exact ⟨⟨rfl, fun h => h, rfl, rfl⟩, rfl, rfl, .inl ⟨hf, rfl⟩⟩
  · refine .of_step (attempt_of_ok (a := ()) (write_eq_ok.2 ⟨s, hs, rfl⟩)) ?_
    exact ⟨⟨hview, hsound, rfl, rfl⟩, rfl, rfl,
      .inr (Store.putLot_becomes (Store.stored_eq_ok.1 hs)).lots⟩

theorem payOut_ends {l : Ledger} {amount : Coins} (id : UInt64) (recipient : Address)
    (hm : l.mint k.moduleAccount amount = .ok c.ledger) :
    Ends (k.payOut id recipient amount) c
      (fun _ d => { c with ledger := l }.Moved d ∧
        c.ledger.toAccount k.moduleAccount recipient amount = .ok d.ledger)
      fun _ d => { c with ledger := l }.Moved d ∧ k.TakesBack l d.ledger := by
  have moved (l' : Ledger) (log : List Notice) :
      { c with ledger := l }.Moved { c with ledger := l', log := log } :=
    ⟨⟨rfl, fun h => h, rfl, rfl⟩, ⟨rfl, rfl⟩⟩
  cases ha : c.ledger.toAccount k.moduleAccount recipient amount with
  | ok l' =>
    refine .of_step (tryMove_of_ok ha) ?_
    exact ⟨moved l' _, rfl⟩
  | error e =>
    refine .of_step (tryMove_of_error ha) ?_
    cases hb : c.ledger.burn k.moduleAccount amount with
    | ok l' =>
      refine .of_step (tryMove_of_ok hb) ?_
      exact ⟨moved l' _, .burned hm hb⟩
    | error e' =>
      refine .of_step (tryMove_of_error hb) ?_
      exact ⟨moved c.ledger _, .stuck hm hb⟩

theorem grantTokens_ends (recipient : String) (amount : Coins) (activity : String) :
    Ends (k.grantTokens params id recipient amount) c
      (fun _ d => c.Carried d ∧ c.Enacts params id d (.requestTokens recipient amount activity) ∧
        k.Pays c.ledger (.requestTokens recipient amount activity) d.ledger)
      fun _ d => c.Moved d ∧ k.TakesBack c.ledger d.ledger := by
  have quiet : ∀ (e : GovernanceError) d, c.Quiet d → c.Moved d ∧ k.TakesBack c.ledger d.ledger :=
    fun _ _ h => ⟨h.moved, h.ledger ▸ .kept⟩
  refine .within_bind (refl c) (.check _) quiet fun r d hr hd => ?_
  obtain rfl := AddressRole.text_of_parse (check_eq_ok.1 hr).1
  refine .within_bind hd (Within.note _) quiet fun _ d _ hd => ?_
  cases hm : d.ledger.mint k.moduleAccount amount with
  | error e => exact .of_fail (move_eq_error.2 ⟨e, hm, rfl, rfl⟩) (quiet (.bank e) d hd)
  | ok l =>
    refine .of_step (a := ()) (move_eq_ok.2 ⟨l, hm, rfl⟩) ?_
    have hpay := payOut_ends (k := k) (c := { d with ledger := l }) id r hm
    refine .bind (hpay.mono (fun _ _ h => h) ?_) fun _ d' _ ⟨hmoved, ha⟩ => ?_
    · exact fun _ _ h => ⟨hd.moved.trans h.1, hd.ledger ▸ h.2⟩
    have hd' := hd.moved.trans hmoved
    have hpaid : k.Pays c.ledger (.requestTokens r.text amount activity) d'.ledger :=
      .paid (hd.ledger ▸ hm) ha
    dsimp only
    split
    · rename_i hz
      refine .of_step height_apply ((grantLot_ends _).mono ?_ fun _ _ h => h.elim)
      rintro _ d'' ⟨h, hledger, hr, hlots⟩
      refine ⟨hd'.toCarried.trans h, ?_, hledger ▸ hpaid⟩
      rcases hlots with ⟨hf, hlots⟩ | hlots
      · exact .paid (.inr (hd'.view ▸ hf)) (hd'.toKeepsGrants.trans ⟨hr, hlots⟩)
      · exact .granted (hd'.block ▸ rfl) hz (hr.trans hd'.registry) (hd'.lots ▸ hlots)
    · rename_i hz
      exact ⟨hd'.toCarried, .paid (.inl (not_not.1 hz)) hd'.toKeepsGrants, hpaid⟩

theorem execute_ends (params : Params) (id : UInt64) (hp : c.storeAtPermit = c.store)
    (content : Content) :
    Ends (k.execute params id content) c
      (fun _ d => c.Carried d ∧ c.Enacts params id d content ∧ k.Pays c.ledger content d.ledger)
      fun _ d => c.Moved d ∧ k.TakesBack c.ledger d.ledger := by
  cases content with
  | addLabel l =>
    refine (permitLabel_ends params hp l).mono ?_ fun _ _ h => ⟨h.1, h.2 ▸ .kept⟩
    exact fun _ _ h => ⟨h.1, h.2.1, h.2.2 ▸ .permitted⟩
  | requestTokens r a activity => exact grantTokens_ends r a activity

end DaoGovernance
