import DaoGovernance.Proofs.Conservation
import Mathlib

/-!
The books of a ledger.  From an empty ledger, and as long as all that was funded and minted fits one
amount, the holders together have what was funded and minted less what was burned, and the supply
says the same.  Calls that change the ledger in place, amount by amount, and stop where an amount
would be out of range, tell the rest: on such a run they never stop there, and a call that is
refused has changed nothing by then.
-/

namespace DaoGovernance

namespace Balances

variable {κ : Type} [KeyOrder κ]

def HasRoom (b : Balances κ) (k : κ) (a : Amount) : Prop :=
  (b.amount k).toNat + a.toNat < Amount.size

instance (b : Balances κ) (k : κ) (a : Amount) : Decidable (b.HasRoom k a) :=
  inferInstanceAs (Decidable (_ < _))

end Balances

namespace Ledger

variable {l l' m : Ledger} {h s u : Holder} {c : Coin} {cs : List Coin} {d : String}

/-! ### Calls in place -/

inductive Stop
  | refused (e : BankError)
  | outOfRange

/-- What changes the ledger in place; where it stops, the ledger stays as it is by then. -/
abbrev Call := EStateM Stop Ledger Unit

namespace Call

def refuseIf (p : Ledger → Bool) (e : BankError) : Call := do
  if p (← get) then throw (.refused e)

def entry (fits : Ledger → Prop) [DecidablePred fits] (post : Ledger → Ledger) : Call := do
  if fits (← get) then modify post else throw .outOfRange

def debit (h : Holder) (c : Coin) : Call :=
  entry (fun l => c.amount ≤ l.balance h c.denom) fun l =>
    { l with balances := l.balances.update (h, c.denom) (· - c.amount) }

def credit (h : Holder) (c : Coin) : Call :=
  entry (·.balances.HasRoom (h, c.denom) c.amount) fun l =>
    { l with balances := l.balances.add (h, c.denom) c.amount }

def addSupply (c : Coin) : Call :=
  entry (·.supplies.HasRoom c.denom c.amount) fun l =>
    { l with supplies := l.supplies.add c.denom c.amount }

def cutSupply (c : Coin) : Call :=
  entry (fun l => c.amount ≤ l.supplies.amount c.denom) fun l =>
    { l with supplies := l.supplies.update c.denom (· - c.amount) }

def countMinted (c : Coin) : Call :=
  entry (·.minted.HasRoom c.denom c.amount) fun l =>
    { l with minted := l.minted.add c.denom c.amount }

def countBurned (c : Coin) : Call :=
  entry (·.burned.HasRoom c.denom c.amount) fun l =>
    { l with burned := l.burned.add c.denom c.amount }

def fund (a : Address) (c : Coin) : Call := do
  addSupply c
  credit (.account a) c

def move (source target : Holder) (c : Coin) : Call := do
  debit source c
  credit target c

def mintCoin (h : Holder) (c : Coin) : Call := do
  credit h c
  addSupply c
  countMinted c

def burnCoin (h : Holder) (c : Coin) : Call := do
  debit h c
  cutSupply c
  countBurned c

def ensureCovers (h : Holder) (cs : Coins) : Call :=
  refuseIf (fun l => !l.covers h cs) (.insufficientFunds h cs)

def transfer (source target : Holder) (cs : Coins) : Call := do
  ensureCovers source cs
  cs.list.forM (move source target)

def toModule (a : Address) (name : String) (cs : Coins) : Call :=
  transfer (.account a) (.moduleAccount name) cs

def toAccount (name : String) (a : Address) (cs : Coins) : Call := do
  refuseIf (·.blocked.contains a) (.blocked a)
  transfer (.moduleAccount name) (.account a) cs

def mint (name : String) (cs : Coins) : Call := do
  refuseIf (·.failMints) (.backend "injected mint failure")
  cs.list.forM (mintCoin (.moduleAccount name))

def burn (name : String) (cs : Coins) : Call := do
  refuseIf (·.failBurns) (.backend "injected burn failure")
  ensureCovers (.moduleAccount name) cs
  cs.list.forM (burnCoin (.moduleAccount name))

theorem run_seq {x y : Call} (h : x.run l = .ok () l') : (do x; y).run l = y.run l' := by
  rw [EStateM.run_bind, h]

theorem run_refused {p : Ledger → Bool} {e : BankError} {x : Call} (h : p l = true) :
    (do refuseIf p e; x).run l = .error (.refused e) l := by
  have hp : (refuseIf p e).run l = .error (.refused e) l := by
    rw [refuseIf, EStateM.run_bind, EStateM.run_get]
    simp only [h, if_true, EStateM.run_throw]
  rw [EStateM.run_bind, hp]

theorem run_passed {p : Ledger → Bool} {e : BankError} {x : Call} (h : p l = false) :
    (do refuseIf p e; x).run l = x.run l := by
  refine run_seq ?_
  rw [refuseIf, EStateM.run_bind, EStateM.run_get]
  simp only [h, Bool.false_eq_true, if_false, EStateM.run_pure]

theorem run_entry {fits : Ledger → Prop} [DecidablePred fits] {post : Ledger → Ledger}
    (h : fits l) : (entry fits post).run l = .ok () (post l) := by
  rw [entry, EStateM.run_bind, EStateM.run_get]
  simp only [if_pos h, EStateM.run_modify]

/-! ### Entries in range -/

theorem run_debit (hle : c.amount ≤ l.balance h c.denom) :
    (debit h c).run l = .ok () (l.debit h c) := by
  rw [debit, run_entry hle, Ledger.debit, Balances.differenceOverflows_of_le hle, Bool.or_false]

theorem run_credit (hb : l.balances.HasRoom (h, c.denom) c.amount) :
    (credit h c).run l = .ok () (l.credit h c) := by
  rw [credit, run_entry hb, Ledger.credit, Balances.sumOverflows_of_lt hb, Bool.or_false]

theorem run_addSupply (hs : l.supplies.HasRoom c.denom c.amount) :
    (addSupply c).run l = .ok () (l.addSupply c) := by
  rw [addSupply, run_entry hs, Ledger.addSupply, Balances.sumOverflows_of_lt hs, Bool.or_false]

theorem run_fund {a : Address} (hb : l.balances.HasRoom (.account a, c.denom) c.amount)
    (hs : l.supplies.HasRoom c.denom c.amount) : (fund a c).run l = .ok () (l.fund a c) := by
  rw [fund, run_seq (run_addSupply hs), run_credit (l := l.addSupply c) hb, Ledger.fund]

theorem run_move (hle : c.amount ≤ l.balance s c.denom)
    (hb : (l.debit s c).balances.HasRoom (u, c.denom) c.amount) :
    (move s u c).run l = .ok () (Ledger.move s u l c) := by
  rw [move, run_seq (run_debit hle), run_credit hb, Ledger.move]

theorem run_mintCoin (hb : l.balances.HasRoom (h, c.denom) c.amount)
    (hs : l.supplies.HasRoom c.denom c.amount) (hm : l.minted.HasRoom c.denom c.amount) :
    (mintCoin h c).run l = .ok () (Ledger.mintCoin h l c) := by
  have hflag := Balances.sumOverflows_of_lt hm
  rw [mintCoin, run_seq (run_credit hb), run_seq (run_addSupply (l := l.credit h c) hs),
    countMinted, run_entry (l := (l.credit h c).addSupply c) hm, Ledger.mintCoin]
  simp only [Ledger.addSupply, Ledger.credit, hflag, Bool.or_false]

theorem run_burnCoin (hle : c.amount ≤ l.balance h c.denom)
    (hs : c.amount ≤ l.supplies.amount c.denom) (hm : l.burned.HasRoom c.denom c.amount) :
    (burnCoin h c).run l = .ok () (Ledger.burnCoin h l c) := by
  have hflag := Balances.sumOverflows_of_lt hm
  have hcut := Balances.update_saturatingSub hs
  rw [burnCoin, run_seq (run_debit hle), cutSupply, run_seq (run_entry hs), countBurned,
    run_entry hm, Ledger.burnCoin]
  simp only [Ledger.debit, hflag, hcut, Bool.or_false]

end Call

/-! ### Books -/

structure Totals where
  funded : String → Nat
  minted : String → Nat
  burned : String → Nat

namespace Totals

def zero : Totals := ⟨0, 0, 0⟩

def fund (t : Totals) (c : Coin) : Totals := { t with funded := t.funded + worth [c] }

def mint (t : Totals) (cs : List Coin) : Totals := { t with minted := t.minted + worth cs }

def burn (t : Totals) (cs : List Coin) : Totals := { t with burned := t.burned + worth cs }

section Fields

variable (t : Totals) (c : Coin) (cs : List Coin) (d : String)

@[simp] theorem fund_funded : (t.fund c).funded d = t.funded d + worth [c] d := rfl

@[simp] theorem fund_minted : (t.fund c).minted d = t.minted d := rfl

@[simp] theorem fund_burned : (t.fund c).burned d = t.burned d := rfl

@[simp] theorem mint_funded : (t.mint cs).funded d = t.funded d := rfl

@[simp] theorem mint_minted : (t.mint cs).minted d = t.minted d + worth cs d := rfl

@[simp] theorem mint_burned : (t.mint cs).burned d = t.burned d := rfl

@[simp] theorem burn_funded : (t.burn cs).funded d = t.funded d := rfl

@[simp] theorem burn_minted : (t.burn cs).minted d = t.minted d := rfl

@[simp] theorem burn_burned : (t.burn cs).burned d = t.burned d + worth cs d := rfl

theorem mint_cons : t.mint (c :: cs) = (t.mint [c]).mint cs := by
  rw [mint, worth_cons, ← add_assoc]
  rfl

theorem burn_cons : t.burn (c :: cs) = (t.burn [c]).burn cs := by
  rw [burn, worth_cons, ← add_assoc]
  rfl

end Fields

/-- All that was ever put into circulation fits one amount. -/
def Fits (t : Totals) : Prop := ∀ d, t.funded d + t.minted d < Amount.size

variable {t t' : Totals}

theorem Fits.mono (ht : t'.Fits)
    (hle : ∀ d, t.funded d + t.minted d ≤ t'.funded d + t'.minted d) : t.Fits :=
  fun d => (hle d).trans_lt (ht d)

theorem Fits.of_fund (ht : (t.fund c).Fits) : t.Fits := by
  refine ht.mono fun d => ?_
  rw [fund_funded, fund_minted]
  omega

theorem Fits.of_mint (ht : (t.mint cs).Fits) : t.Fits := by
  refine ht.mono fun d => ?_
  rw [mint_funded, mint_minted]
  omega

end Totals

variable {t t' : Totals} {b i : String → Nat}

/-- The ledger is exact and agrees with the totals. -/
structure Books (l : Ledger) (t : Totals) : Prop where
  exact : l.overflowed = false
  supply : ∀ d, l.total d = (l.supplies.amount d).toNat
  total : ∀ d, l.total d + t.burned d = t.funded d + t.minted d
  minted : ∀ d, (l.minted.amount d).toNat = t.minted d
  burned : ∀ d, (l.burned.amount d).toNat = t.burned d

theorem worth_self : worth [c] c.denom = c.amount.toNat := by
  rw [worth, totalIn_singleton, if_pos rfl]

theorem balances_hasRoom (hlt : l.total c.denom + c.amount.toNat < Amount.size) (h : Holder) :
    l.balances.HasRoom (h, c.denom) c.amount :=
  (Nat.add_le_add_right (l.balance_le_total h c.denom) _).trans_lt hlt

namespace Books

theorem balanced (hb : Books l t) : l.Balanced := fun _ => hb.supply

theorem total_le (hb : Books l t) (d : String) : l.total d ≤ t.funded d + t.minted d := by
  have := hb.total d
  omega

theorem supplies_hasRoom (hb : Books l t) (hlt : l.total c.denom + c.amount.toNat < Amount.size) :
    l.supplies.HasRoom c.denom c.amount := by
  rw [Balances.HasRoom, ← hb.supply]
  exact hlt

theorem of_issues (hb : Books l t) (hi : Issues l l' b i) (ho : l'.overflowed = false)
    (hnet : ∀ d, t'.funded d + t'.minted d + t.burned d + b d =
      t.funded d + t.minted d + t'.burned d + i d)
    (hm : ∀ d, (l'.minted.amount d).toNat = t'.minted d)
    (hburned : ∀ d, (l'.burned.amount d).toNat = t'.burned d) : Books l' t' where
  exact := ho
  supply := hi.balanced hb.balanced ho
  total d := by
    have := hi.total ho d
    have := hb.total d
    have := hnet d
    omega
  minted := hm
  burned := hburned

end Books

structure Completes (x : Call) (l l' : Ledger) (t : Totals) : Prop where
  run : x.run l = .ok () l'
  books : Books l' t

theorem Completes.seq {x y : Call} (h : Completes x l m t) (k : Completes y m l' t') :
    Completes (do x; y) l l' t' :=
  ⟨(Call.run_seq h.run).trans k.run, k.books⟩

namespace Books

theorem move (hb : Books l t) (ht : t.Fits) (hle : c.amount ≤ l.balance s c.denom) (u : Holder) :
    Completes (Call.move s u c) l (Ledger.move s u l c) t := by
  have hn := Balances.eq_zero_of_le hle
  have hdebit := Balances.differenceOverflows_of_le hle
  have ho : (l.debit s c).overflowed = false := by
    rw [debit, hb.exact, hdebit]
    rfl
  -- The coin is in no account between the debit and the credit, so there is room for it.
  have hlt : (l.debit s c).total c.denom + c.amount.toNat < Amount.size :=
    calc (l.debit s c).total c.denom + c.amount.toNat
      _ = (l.debit s c).total c.denom + worth [c] c.denom := by rw [worth_self]
      _ = l.total c.denom := total_debit ho hn
      _ ≤ t.funded c.denom + t.minted c.denom := hb.total_le c.denom
      _ < Amount.size := ht c.denom
  have hroom := balances_hasRoom hlt u
  have hmoved : (Ledger.move s u l c).overflowed = false := by
    rw [Ledger.move, credit, ho, Balances.sumOverflows_of_lt hroom]
    rfl
  exact ⟨Call.run_move hle hroom,
    hb.of_issues (move_issues hn) hmoved (fun _ => rfl) hb.minted hb.burned⟩

theorem fund (hb : Books l t) (ht : (t.fund c).Fits) (a : Address) :
    Completes (Call.fund a c) l (l.fund a c) (t.fund c) := by
  have hfits := ht c.denom
  have htotal := hb.total_le c.denom
  rw [Totals.fund_funded, Totals.fund_minted, worth_self] at hfits
  have hlt : l.total c.denom + c.amount.toNat < Amount.size := by omega
  have hbalance := balances_hasRoom hlt (.account a)
  have hsupply := hb.supplies_hasRoom hlt
  have ho : (l.fund a c).overflowed = false := by
    simp only [Ledger.fund, credit, addSupply, hb.exact, Bool.false_or, Bool.or_eq_false_iff]
    exact ⟨Balances.sumOverflows_of_lt hsupply, Balances.sumOverflows_of_lt hbalance⟩
  refine ⟨Call.run_fund hbalance hsupply,
    hb.of_issues (l.fund_issues a c) ho (fun d => ?_) hb.minted hb.burned⟩
  simp only [Totals.fund_funded, Totals.fund_minted, Totals.fund_burned, Pi.zero_apply]
  omega

theorem mintCoin (hb : Books l t) (ht : (t.mint [c]).Fits) (h : Holder) :
    Completes (Call.mintCoin h c) l (Ledger.mintCoin h l c) (t.mint [c]) := by
  have hfits := ht c.denom
  have htotal := hb.total_le c.denom
  rw [Totals.mint_funded, Totals.mint_minted, worth_self] at hfits
  have hlt : l.total c.denom + c.amount.toNat < Amount.size := by omega
  have hbalance := balances_hasRoom hlt h
  have hsupply := hb.supplies_hasRoom hlt
  have hcounter : l.minted.HasRoom c.denom c.amount := by
    rw [Balances.HasRoom, hb.minted]
    omega
  have hcount := Balances.sumOverflows_of_lt hcounter
  have ho : (Ledger.mintCoin h l c).overflowed = false := by
    simp only [Ledger.mintCoin, credit, addSupply, hb.exact, Bool.false_or, Bool.or_eq_false_iff]
    exact ⟨⟨Balances.sumOverflows_of_lt hbalance, Balances.sumOverflows_of_lt hsupply⟩, hcount⟩
  refine ⟨Call.run_mintCoin hbalance hsupply hcounter,
    hb.of_issues (l.mintCoin_issues h c) ho (fun d => ?_) (fun d => ?_) hb.burned⟩
  · simp only [Totals.mint_funded, Totals.mint_minted, Totals.mint_burned, Pi.zero_apply]
    omega
  · rw [Totals.mint_minted, ← hb.minted]
    exact supply_add hcount

theorem burnCoin (hb : Books l t) (ht : t.Fits) (hle : c.amount ≤ l.balance h c.denom) :
    Completes (Call.burnCoin h c) l (Ledger.burnCoin h l c) (t.burn [c]) := by
  have hn := Balances.eq_zero_of_le hle
  have hamount : c.amount.toNat ≤ l.total c.denom :=
    (BitVec.le_def.1 hle).trans (l.balance_le_total h c.denom)
  have hsupply : c.amount ≤ l.supplies.amount c.denom := by
    rw [BitVec.le_def, ← hb.supply]
    exact hamount
  -- What is left and what was burned are together what ever came in.
  have hcounter : l.burned.HasRoom c.denom c.amount := by
    have htotal := hb.total c.denom
    have hfits := ht c.denom
    rw [Balances.HasRoom, hb.burned]
    omega
  have hcount := Balances.sumOverflows_of_lt hcounter
  have ho : (Ledger.burnCoin h l c).overflowed = false := by
    simp only [Ledger.burnCoin, debit, hb.exact, Bool.false_or, Bool.or_eq_false_iff]
    exact ⟨Balances.differenceOverflows_of_le hle, hcount⟩
  refine ⟨Call.run_burnCoin hle hsupply hcounter,
    hb.of_issues (burnCoin_issues hn) ho (fun d => ?_) hb.minted (fun d => ?_)⟩
  · simp only [Totals.burn_funded, Totals.burn_minted, Totals.burn_burned, Pi.zero_apply]
    omega
  · rw [Totals.burn_burned, ← hb.burned]
    exact supply_add hcount

end Books

/-! ### Sets of coins -/

def Covered (l : Ledger) (h : Holder) (cs : List Coin) : Prop :=
  ∀ c ∈ cs, c.amount ≤ l.balance h c.denom

theorem covers_iff {cs : Coins} : l.covers h cs = true ↔ l.Covered h cs.list := by
  simp only [covers, Covered, List.all_eq_true, decide_eq_true_eq]

theorem Covered.tail {gained : Flow} (hc : l.Covered h (c :: cs))
    (hord : (c :: cs).Pairwise Coins.Precedes) (hs : Shifts l l' (flow h [c]) gained)
    (ho : l'.overflowed = false) : l'.Covered h cs := by
  intro e he
  have hne : c.denom ≠ e.denom := KeyOrder.ne_of_before (List.rel_of_pairwise_cons hord he)
  have hbalance := hs.balance ho h e.denom
  rw [flow_self, totalIn_singleton, if_neg hne] at hbalance
  have hle := BitVec.le_def.1 (hc e (List.mem_cons_of_mem c he))
  rw [BitVec.le_def]
  omega

namespace Books

theorem forM_move (hb : Books l t) (ht : t.Fits) (hord : cs.Pairwise Coins.Precedes)
    (hc : l.Covered s cs) (u : Holder) :
    Completes (cs.forM (Call.move s u)) l (cs.foldl (Ledger.move s u) l) t := by
  induction cs generalizing l with
  | nil => exact ⟨rfl, hb⟩
  | cons c cs ih =>
    have hle := hc c List.mem_cons_self
    have hmoved := hb.move ht hle u
    have hshifts := l.move_shifts s u c (Balances.eq_zero_of_le hle)
    have hrest := hc.tail hord hshifts hmoved.books.exact
    exact hmoved.seq (ih hmoved.books hord.of_cons hrest)

theorem forM_mintCoin (hb : Books l t) (ht : (t.mint cs).Fits) (h : Holder) :
    Completes (cs.forM (Call.mintCoin h)) l (cs.foldl (Ledger.mintCoin h) l) (t.mint cs) := by
  induction cs generalizing l t with
  | nil => exact ⟨rfl, hb⟩
  | cons c cs ih =>
    rw [Totals.mint_cons] at ht ⊢
    have hminted := hb.mintCoin ht.of_mint h
    exact hminted.seq (ih hminted.books ht)

theorem forM_burnCoin (hb : Books l t) (ht : t.Fits) (hord : cs.Pairwise Coins.Precedes)
    (hc : l.Covered h cs) :
    Completes (cs.forM (Call.burnCoin h)) l (cs.foldl (Ledger.burnCoin h) l) (t.burn cs) := by
  induction cs generalizing l t with
  | nil => exact ⟨rfl, hb⟩
  | cons c cs ih =>
    rw [Totals.burn_cons]
    have hle := hc c List.mem_cons_self
    have hburned := hb.burnCoin ht hle
    have hshifts := l.burnCoin_shifts h c (Balances.eq_zero_of_le hle)
    have hrest := hc.tail hord hshifts hburned.books.exact
    exact hburned.seq (ih hburned.books ht hord.of_cons hrest)

end Books

/-! ### Operations -/

namespace Operation

def call (l : Ledger) : Operation → Except BankError Ledger
  | .fund a c => .ok (l.fund a c)
  | .toModule a name cs => l.toModule a name cs
  | .toAccount name a cs => l.toAccount name a cs
  | .mint name cs => l.mint name cs
  | .burn name cs => l.burn name cs
  | .pinSupply denom a => .ok (l.pinSupply denom a)
  | .blockRecipient a => .ok (l.blockRecipient a)
  | .failMints on => .ok { l with failMints := on }
  | .failBurns on => .ok { l with failBurns := on }

theorem apply_eq (op : Operation) (l : Ledger) : op.apply l = l.orSame (op.call l) := by
  cases op <;> rfl

def inPlace : Operation → Call
  | .fund a c => .fund a c
  | .toModule a name cs => .toModule a name cs
  | .toAccount name a cs => .toAccount name a cs
  | .mint name cs => .mint name cs
  | .burn name cs => .burn name cs
  | .pinSupply denom a => modify (·.pinSupply denom a)
  | .blockRecipient a => modify (·.blockRecipient a)
  | .failMints on => modify fun l => { l with failMints := on }
  | .failBurns on => modify fun l => { l with failBurns := on }

def Valid : Operation → Prop
  | .toModule _ _ cs | .toAccount _ _ cs | .mint _ cs | .burn _ cs => cs.validate = .ok ()
  | _ => True

def record (t : Totals) : Operation → Totals
  | .fund _ c => t.fund c
  | .mint _ cs => t.mint cs.list
  | .burn _ cs => t.burn cs.list
  | _ => t

/-- The call in place does what its result says; it is never out of range, and where it is refused
it has changed nothing. -/
structure Sound (op : Operation) (l : Ledger) : Prop where
  inRange : ∀ l', op.inPlace.run l ≠ .error .outOfRange l'
  done : ∀ l', op.inPlace.run l = .ok () l' ↔ op.call l = .ok l'
  refused : ∀ e l', op.inPlace.run l = .error (.refused e) l' ↔ op.call l = .error e ∧ l' = l

end Operation

def outcome (l : Ledger) : Except BankError Ledger → EStateM.Result Stop Ledger Unit
  | .ok l' => .ok () l'
  | .error e => .error (.refused e) l

theorem Operation.sound_of_run {op : Operation} (h : op.inPlace.run l = l.outcome (op.call l)) :
    op.Sound l where
  inRange l' := by
    rw [h]
    cases op.call l <;> simp [outcome]
  done l' := by
    rw [h]
    cases op.call l <;> simp [outcome]
  refused e l' := by
    rw [h]
    cases op.call l <;> simp [outcome, eq_comm]

structure Agrees (x : Call) (l : Ledger) (r : Except BankError Ledger) (t : Totals) : Prop where
  run : x.run l = l.outcome r
  books : ∀ l', r = .ok l' → Books l' t

section Agrees

variable {x : Call} {r : Except BankError Ledger} {p : Ledger → Bool} {e : BankError}

theorem Completes.agrees (h : Completes x l l' t) : Agrees x l (.ok l') t :=
  ⟨h.run, fun _ he => Except.ok.inj he ▸ h.books⟩

theorem Agrees.refused (hp : p l = true) : Agrees (do Call.refuseIf p e; x) l (.error e) t :=
  ⟨Call.run_refused hp, nofun⟩

theorem Agrees.passed (hp : p l = false) (h : Agrees x l r t) :
    Agrees (do Call.refuseIf p e; x) l r t :=
  ⟨(Call.run_passed hp).trans h.run, h.books⟩

end Agrees

namespace Books

variable {cs : Coins} {name : String} {a : Address}

theorem transfer (hb : Books l t) (ht : t.Fits) (hv : cs.validate = .ok ()) (s u : Holder) :
    Agrees (Call.transfer s u cs) l (l.transfer s u cs) t := by
  have hord := (Coins.canonical_of_validate hv).ordered
  rw [Ledger.transfer]
  split
  · rename_i hc
    have hmoved := hb.forM_move ht hord (covers_iff.1 hc) u
    exact .passed (by simp only [hc, Bool.not_true]) hmoved.agrees
  · rename_i hc
    exact .refused (by simp only [hc, Bool.not_false])

theorem toAccount (hb : Books l t) (ht : t.Fits) (hv : cs.validate = .ok ()) :
    Agrees (Call.toAccount name a cs) l (l.toAccount name a cs) t := by
  rw [Ledger.toAccount]
  split
  · rename_i hblocked
    exact .refused hblocked
  · rename_i hblocked
    exact .passed (Bool.eq_false_iff.2 hblocked) (hb.transfer ht hv _ _)

theorem mint (hb : Books l t) (ht : l.failMints = false → (t.mint cs.list).Fits) :
    Agrees (Call.mint name cs) l (l.mint name cs) (t.mint cs.list) := by
  rw [Ledger.mint]
  split
  · rename_i hf
    exact .refused hf
  · rename_i hf
    have hf := Bool.eq_false_iff.2 hf
    exact .passed hf (hb.forM_mintCoin (ht hf) _).agrees

theorem burn (hb : Books l t) (ht : t.Fits) (hv : cs.validate = .ok ()) :
    Agrees (Call.burn name cs) l (l.burn name cs) (t.burn cs.list) := by
  have hord := (Coins.canonical_of_validate hv).ordered
  rw [Ledger.burn]
  split_ifs with hf hc
  · exact .refused hf
  · refine .passed (Bool.eq_false_iff.2 hf) (.passed (by simp only [hc, Bool.not_true]) ?_)
    exact (hb.forM_burnCoin ht hord (covers_iff.1 hc)).agrees
  · exact .passed (Bool.eq_false_iff.2 hf) (.refused (by simp only [hc, Bool.not_false]))

end Books

/-! ### Runs -/

def Totals.after (t : Totals) (l : Ledger) (op : Operation) : Totals :=
  match op.call l with
  | .ok _ => op.record t
  | .error _ => t

variable {op : Operation} {ops : List Operation}

theorem Totals.Fits.of_after (ht : (t.after l op).Fits) : t.Fits := by
  unfold Totals.after at ht
  split at ht
  · cases op with
    | fund => exact ht.of_fund
    | mint => exact ht.of_mint
    | _ => exact ht
  · exact ht

theorem Books.agrees (hb : Books l t) (hv : op.Valid) (ht : (t.after l op).Fits) :
    Agrees op.inPlace l (op.call l) (op.record t) := by
  cases op with
  | fund a c => exact (hb.fund ht a).agrees
  | toModule a name cs => exact hb.transfer ht.of_after hv _ _
  | toAccount name a cs => exact hb.toAccount ht.of_after hv
  | mint name cs =>
    refine hb.mint fun hf => ?_
    rw [Totals.after, Operation.call, Ledger.mint, hf] at ht
    exact ht
  | burn name cs => exact hb.burn ht.of_after hv
  | _ =>
    refine ⟨rfl, ?_⟩
    rintro _ ⟨⟩
    exact ⟨hb.exact, hb.supply, hb.total, hb.minted, hb.burned⟩

theorem Books.apply (hb : Books l t) (hv : op.Valid) (ht : (t.after l op).Fits) :
    Books (op.apply l) (t.after l op) := by
  have hagrees := hb.agrees hv ht
  rw [Operation.apply_eq, Totals.after]
  cases hr : op.call l with
  | ok l' => exact hagrees.books l' hr
  | error e => exact hb

def after (l : Ledger) : List Operation → Ledger
  | [] => l
  | op :: ops => (op.apply l).after ops

def Totals.over (t : Totals) (l : Ledger) : List Operation → Totals
  | [] => t
  | op :: ops => (t.after l op).over (op.apply l) ops

theorem after_append (l : Ledger) (ops ops' : List Operation) :
    l.after (ops ++ ops') = (l.after ops).after ops' := by
  induction ops generalizing l with
  | nil => rfl
  | cons op ops ih => exact ih (op.apply l)

theorem Totals.over_append (t : Totals) (l : Ledger) (ops ops' : List Operation) :
    t.over l (ops ++ ops') = (t.over l ops).over (l.after ops) ops' := by
  induction ops generalizing l t with
  | nil => rfl
  | cons op ops ih => exact ih (t.after l op) (op.apply l)

theorem Totals.Fits.of_over (ht : (t.over l ops).Fits) : t.Fits := by
  induction ops generalizing l t with
  | nil => exact ht
  | cons op ops ih => exact (ih ht).of_after

theorem Books.run (hb : Books l t) (hv : ∀ op ∈ ops, op.Valid) (ht : (t.over l ops).Fits) :
    Books (l.after ops) (t.over l ops) := by
  induction ops generalizing l t with
  | nil => exact hb
  | cons op ops ih =>
    have hrest : ((t.after l op).over (op.apply l) ops).Fits := ht
    have hop := hb.apply (hv op List.mem_cons_self) hrest.of_over
    exact ih hop (fun e he => hv e (List.mem_cons_of_mem op he)) hrest

theorem books_empty : Books empty .zero where
  exact := rfl
  supply _ := rfl
  total _ := rfl
  minted _ := rfl
  burned _ := rfl

/-- At every point of a run from the empty ledger the books are right, and so is the next call. -/
theorem books_kept (hvalid : ∀ op ∈ ops, op.Valid) (hfits : (Totals.zero.over empty ops).Fits) :
    (∀ done, done <+: ops → Books (empty.after done) (Totals.zero.over empty done)) ∧
      ∀ done op, done ++ [op] <+: ops → op.Sound (empty.after done) := by
  have hfits' {done : List Operation} (hd : done <+: ops) : (Totals.zero.over empty done).Fits := by
    obtain ⟨rest, rfl⟩ := hd
    rw [Totals.over_append] at hfits
    exact hfits.of_over
  have hbooks {done : List Operation} (hd : done <+: ops) :
      Books (empty.after done) (Totals.zero.over empty done) :=
    books_empty.run (fun op hop => hvalid op (hd.subset hop)) (hfits' hd)
  refine ⟨fun done => hbooks, fun done op hd => ?_⟩
  have hop := hfits' hd
  rw [Totals.over_append] at hop
  have hvop := hvalid op (hd.subset (by simp))
  have hdone := hbooks ((List.prefix_append done [op]).trans hd)
  exact Operation.sound_of_run (hdone.agrees hvop hop).run

namespace Sample

def holder : Address := ⟨"dns1hhhhhhhh", by decide⟩

def trade : List Operation := [
  .fund holder ⟨"stake", 100⟩,
  .fund holder ⟨"udnsc", 7⟩,
  .toModule holder "dao" ⟨[⟨"stake", 60⟩, ⟨"udnsc", 5⟩]⟩,
  .mint "dao" ⟨[⟨"udnsc", 10⟩]⟩,
  .burn "dao" ⟨[⟨"stake", 20⟩, ⟨"udnsc", 11⟩]⟩,
  .failBurns true,
  .burn "dao" ⟨[⟨"stake", 20⟩]⟩,
  .failBurns false]

def overdraft : Coins := ⟨[⟨"stake", 20⟩, ⟨"udnsc", 5⟩]⟩

def traded : Totals :=
  (((Totals.zero.fund ⟨"stake", 100⟩).fund ⟨"udnsc", 7⟩).mint [⟨"udnsc", 10⟩]).burn
    [⟨"stake", 20⟩, ⟨"udnsc", 11⟩]

theorem trade_valid : ∀ op ∈ trade ++ [.burn "dao" overdraft], op.Valid := by
  intro op hop
  fin_cases hop <;> first | rfl | trivial

theorem traded_fits : traded.Fits := by
  intro d
  simp only [traded, Totals.fund, Totals.mint, Totals.burn, Totals.zero, Pi.add_apply,
    Pi.zero_apply, totalIn_singleton]
  split_ifs <;> decide

theorem trade_books :
    (∀ op ∈ trade ++ [.burn "dao" overdraft], op.Valid) ∧
    (Totals.zero.over empty (trade ++ [.burn "dao" overdraft])).Fits ∧
    Books (empty.after trade) traded ∧
    (Call.burn "dao" overdraft).run (empty.after trade) =
      .error (.refused (.insufficientFunds (.moduleAccount "dao") overdraft))
        (empty.after trade) := by
  have hfits : (Totals.zero.over empty (trade ++ [.burn "dao" overdraft])).Fits := traded_fits
  obtain ⟨hbooks, hsound⟩ := books_kept trade_valid hfits
  have hlast := hsound trade (.burn "dao" overdraft) List.prefix_rfl
  exact ⟨trade_valid, hfits, hbooks trade (List.prefix_append _ _),
    (hlast.refused _ _).2 ⟨rfl, rfl⟩⟩

end Sample

end Ledger

end DaoGovernance
