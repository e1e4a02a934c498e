import DaoGovernance.Proofs.Ledger
import Mathlib

/-!
Conservation of tokens.  As long as nothing was out of range, what all holders have in a denom is
its supply: coins are put into circulation and taken out of it, and otherwise only change hands.
-/

namespace DaoGovernance

open KeyOrder

/-! ### Sums over maps -/

namespace SortedMap

variable {κ ν : Type} [KeyOrder κ] {k : κ} {v : ν}

def sum (f : κ → ν → Nat) (m : SortedMap κ ν) : Nat := (m.entries.map fun e => f e.1 e.2).sum

theorem lookup_eq_none_of_before {es : List (κ × ν)} (h : ∀ e ∈ es, before k e.1 = true) :
    lookup k es = none := by
  induction es with
  | nil => rfl
  | cons e es ih =>
    have hne : same e.1 k = false := by
      rw [Bool.eq_false_iff, Ne, same_iff]
      exact (ne_of_before (h e (by simp))).symm
    rw [lookup, hne, if_neg Bool.false_ne_true, ih fun e he => h e (by simp [he])]

theorem sum_put (f : κ → ν → Nat) {es : List (κ × ν)}
    (h : es.Pairwise fun e f => before e.1 f.1 = true) :
    ((put k v es).map fun e => f e.1 e.2).sum + (lookup k es).elim 0 (f k) =
      (es.map fun e => f e.1 e.2).sum + f k v := by
  induction es with
  | nil => simp [put, lookup]
  | cons e es ih =>
    obtain ⟨k', v'⟩ := e
    rw [List.pairwise_cons] at h
    have ih := ih h.2
    simp only [put]
    split
    · rename_i hk
      have hnone : lookup k ((k', v') :: es) = none := by
        refine lookup_eq_none_of_before fun x hx => ?_
        rcases List.mem_cons.1 hx with rfl | hx
        · exact hk
        · exact KeyOrder.trans hk (h.1 x hx)
      simp only [hnone, List.map_cons, List.sum_cons, Option.elim_none]
      omega
    · rename_i hk
      split
      · rename_i hk'
        have hne : same k' k = false := by
          rw [Bool.eq_false_iff, Ne, same_iff]
          exact ne_of_before hk'
        simp only [lookup, hne, Bool.false_eq_true, if_false, List.map_cons, List.sum_cons]
        omega
      · rename_i hk'
        obtain rfl := trichotomy (Bool.eq_false_iff.2 hk) (Bool.eq_false_iff.2 hk')
        simp only [lookup, same_self, if_true, List.map_cons, List.sum_cons, Option.elim_some]
        omega

theorem sum_insert (f : κ → ν → Nat) (m : SortedMap κ ν) (k : κ) (v : ν) :
    (m.insert k v).sum f + (m.get? k).elim 0 (f k) = m.sum f + f k v :=
  sum_put f m.sorted

theorem le_sum {f : κ → ν → Nat} {m : SortedMap κ ν} (h : m.get? k = some v) : f k v ≤ m.sum f :=
  List.le_sum_of_mem (List.mem_map_of_mem (f := fun e => f e.1 e.2) (m.get?_eq_some_iff.1 h))

end SortedMap

namespace Ledger

variable {l l' m : Ledger} {h s t : Holder} {c : Coin} {cs : List Coin} {d : String}

/-! ### Totals -/

def total (l : Ledger) (d : String) : Nat :=
  l.balances.sum fun k a => if k.2 = d then a.toNat else 0

theorem balance_le_total (l : Ledger) (h : Holder) (d : String) :
    (l.balance h d).toNat ≤ l.total d := by
  rw [balance_eq, Balances.amount]
  cases hb : l.balances.get? (h, d) with
  | none => exact Nat.zero_le _
  | some a =>
    have hle := SortedMap.le_sum (f := fun k a => if k.2 = d then a.toNat else 0) hb
    rwa [if_pos rfl] at hle

theorem totalIn_singleton (d : String) (c : Coin) :
    Coins.totalIn d [c] = if c.denom = d then c.amount.toNat else 0 := by
  simp [Coins.totalIn]

theorem total_insert {e : String} {a : Amount} (hl : m.balances = l.balances.insert (h, e) a) :
    m.total d + (if e = d then (l.balance h e).toNat else 0) =
      l.total d + if e = d then a.toNat else 0 := by
  have hs := l.balances.sum_insert (fun k a => if k.2 = d then a.toNat else 0) (h, e) a
  rw [total, total, hl, balance_eq, Balances.amount, ← hs]
  cases l.balances.get? (h, e) <;> simp

theorem total_credit (ho : (l.credit h c).overflowed = false) :
    (l.credit h c).total d = l.total d + Coins.totalIn d [c] := by
  have hs := total_insert (l := l) (m := l.credit h c) (d := d) rfl
  have ha := not_le.1 (of_decide_eq_false (Bool.or_eq_false_iff.1 ho).2)
  rw [Amount.size_eq] at ha
  rw [BitVec.toNat_add_of_lt ha, ← balance_eq] at hs
  rw [totalIn_singleton]
  split at hs <;> rename_i hd
  · rw [if_pos hd]
    omega
  · rw [if_neg hd]
    omega

theorem total_debit (ho : (l.debit h c).overflowed = false)
    (hn : l.balances.get? (h, c.denom) = none → c.amount = 0) :
    (l.debit h c).total d + Coins.totalIn d [c] = l.total d := by
  rw [totalIn_singleton]
  cases hb : l.balances.get? (h, c.denom) with
  | none =>
    have hsame : (l.debit h c).balances = l.balances := by
      simp only [debit, Balances.update, hb]
    simp [total, hsame, hn hb]
  | some v =>
    have hle := (Bool.or_eq_false_iff.1 ho).2
    simp only [Balances.differenceOverflows, hb, decide_eq_false_iff_not, BitVec.not_lt] at hle
    have hs := total_insert (l := l) (m := l.debit h c) (d := d) (h := h) (e := c.denom)
      (a := v - c.amount) (by simp only [debit, Balances.update, hb])
    rw [balance_eq, Balances.amount, hb, Option.getD_some, BitVec.toNat_sub_of_le hle] at hs
    have hle := BitVec.le_def.1 hle
    split at hs <;> rename_i hd
    · rw [if_pos hd]
      omega
    · rw [if_neg hd]
      omega

theorem supply_add {b : Balances String} (ho : b.sumOverflows c.denom c.amount = false) :
    ((b.add c.denom c.amount).amount d).toNat = (b.amount d).toNat + Coins.totalIn d [c] := by
  rw [Balances.amount_add d ho, totalIn_singleton]
  simp only [@eq_comm _ d]

theorem supply_sub {b : Balances String} (hle : c.amount ≤ b.amount c.denom) :
    ((b.update c.denom (·.saturatingSub c.amount)).amount d).toNat + Coins.totalIn d [c] =
      (b.amount d).toNat := by
  rw [Balances.update_saturatingSub hle, totalIn_singleton,
    ← Balances.amount_sub d (Balances.differenceOverflows_of_le hle) (Balances.eq_zero_of_le hle)]
  simp only [@eq_comm _ d]

/-! ### Circulation -/

/-- The supply is what all holders have, unless something was out of range. -/
def Balanced (l : Ledger) : Prop :=
  l.overflowed = false → ∀ d, l.total d = (l.supplies.amount d).toNat

structure Issues (l l' : Ledger) (burned minted : String → Nat) : Prop where
  exact : l'.overflowed = false → l.overflowed = false
  total : l'.overflowed = false → ∀ d, l'.total d + burned d = l.total d + minted d
  supply : l'.overflowed = false → l.Balanced → ∀ d,
    (l'.supplies.amount d).toNat + burned d = (l.supplies.amount d).toNat + minted d

namespace Issues

variable {b b' i i' : String → Nat}

theorem refl (l : Ledger) : Issues l l 0 0 := ⟨id, fun _ _ => rfl, fun _ _ _ => rfl⟩

theorem balanced (h : Issues l l' b i) (hl : l.Balanced) : l'.Balanced := by
  intro ho d
  have htotal := h.total ho d
  have hsupply := h.supply ho hl d
  have hbefore := hl (h.exact ho) d
  omega

theorem trans (h : Issues l l' b i) (k : Issues l' m b' i') : Issues l m (b + b') (i + i') where
  exact ho := h.exact (k.exact ho)
  total ho d := by
    have h₁ := h.total (k.exact ho) d
    have h₂ := k.total ho d
    simp only [Pi.add_apply]
    omega
  supply ho hl d := by
    have h₁ := h.supply (k.exact ho) hl d
    have h₂ := k.supply ho (h.balanced hl) d
    simp only [Pi.add_apply]
    omega

end Issues

abbrev worth (cs : List Coin) : String → Nat := fun d => Coins.totalIn d cs

theorem worth_cons : worth (c :: cs) = worth [c] + worth cs := by
  funext d
  simp [worth, Coins.totalIn]

theorem move_issues (hn : l.balances.get? (s, c.denom) = none → c.amount = 0) :
    Issues l (move s t l c) 0 0 where
  exact := (l.move_shifts s t c hn).exact
  total ho d := by
    have hdebit := total_debit (d := d) ((credit_shifts (l.debit s c) t c).exact ho) hn
    have hcredit := total_credit (l := l.debit s c) (h := t) (c := c) (d := d) ho
    rw [move, hcredit, hdebit]
  supply _ _ _ := rfl

theorem foldl_move_issues (hst : s ≠ t) (hb : l.Backs s cs) :
    Issues l (cs.foldl (move s t) l) 0 0 := by
  induction cs generalizing l with
  | nil => exact .refl l
  | cons c cs ih =>
    have hc := move_issues (t := t) (hb c (by simp))
    have hcs : (move s t l c).Backs s cs := Backs.move (fun e he => hb e (by simp [he])) hst c
    simpa using hc.trans (ih hcs)

theorem mintCoin_issues (l : Ledger) (h : Holder) (c : Coin) :
    Issues l (mintCoin h l c) 0 (worth [c]) where
  exact := (l.mintCoin_shifts h c).exact
  total ho _ := total_credit (Bool.or_eq_false_iff.1 (Bool.or_eq_false_iff.1 ho).1).1
  supply ho _ _ := supply_add (Bool.or_eq_false_iff.1 (Bool.or_eq_false_iff.1 ho).1).2

theorem foldl_mintCoin_issues (l : Ledger) (h : Holder) (cs : List Coin) :
    Issues l (cs.foldl (mintCoin h) l) 0 (worth cs) := by
  induction cs generalizing l with
  | nil => exact .refl l
  | cons c cs ih =>
    rw [worth_cons, List.foldl_cons]
    simpa using (l.mintCoin_issues h c).trans (ih _)

theorem amount_le_balance (ho : (l.debit h c).overflowed = false)
    (hn : l.balances.get? (h, c.denom) = none → c.amount = 0) :
    c.amount.toNat ≤ (l.balance h c.denom).toNat := by
  have hs := (l.debit_shifts h c hn).balance ho h c.denom
  rw [flow_self, totalIn_singleton, if_pos rfl] at hs
  simp only [Pi.zero_apply] at hs
  omega

theorem burnCoin_issues (hn : l.balances.get? (h, c.denom) = none → c.amount = 0) :
    Issues l (burnCoin h l c) (worth [c]) 0 where
  exact := (l.burnCoin_shifts h c hn).exact
  total ho _ := total_debit (Bool.or_eq_false_iff.1 ho).1 hn
  supply ho hl _ := by
    refine supply_sub ?_
    calc c.amount.toNat
      _ ≤ (l.balance h c.denom).toNat := amount_le_balance (Bool.or_eq_false_iff.1 ho).1 hn
      _ ≤ l.total c.denom := l.balance_le_total h c.denom
      _ = (l.supplies.amount c.denom).toNat := hl ((l.burnCoin_shifts h c hn).exact ho) c.denom

theorem foldl_burnCoin_issues (hb : l.Backs h cs) :
    Issues l (cs.foldl (burnCoin h) l) (worth cs) 0 := by
  induction cs generalizing l with
  | nil => exact .refl l
  | cons c cs ih =>
    have hc := burnCoin_issues (hb c (by simp))
    have hcs : (burnCoin h l c).Backs h cs := Backs.debit (fun e he => hb e (by simp [he])) h c
    rw [worth_cons, List.foldl_cons]
    simpa using hc.trans (ih hcs)

/-! ### Operations -/

theorem transfer_issues {cs : Coins} (hst : s ≠ t) (h : l.transfer s t cs = .ok l') :
    Issues l l' 0 0 := by
  unfold transfer at h
  split at h
  · rename_i hc
    cases h
    exact foldl_move_issues hst (backs_of_covers hc)
  · cases h

theorem toModule_issues {a : Address} {name : String} {cs : Coins}
    (h : l.toModule a name cs = .ok l') : Issues l l' 0 0 :=
  transfer_issues (by simp) h

theorem toAccount_issues {a : Address} {name : String} {cs : Coins}
    (h : l.toAccount name a cs = .ok l') : Issues l l' 0 0 := by
  unfold toAccount at h
  split at h
  · cases h
  · exact transfer_issues (by simp) h

theorem mint_issues {name : String} {cs : Coins} (h : l.mint name cs = .ok l') :
    Issues l l' 0 (worth cs.list) := by
  unfold mint at h
  split at h
  · cases h
  · cases h
    exact l.foldl_mintCoin_issues _ _

theorem burn_issues {name : String} {cs : Coins} (h : l.burn name cs = .ok l') :
    Issues l l' (worth cs.list) 0 := by
  unfold burn at h
  split_ifs at h with hf hc
  cases h
  exact foldl_burnCoin_issues (backs_of_covers hc)

theorem fund_issues (l : Ledger) (a : Address) (c : Coin) :
    Issues l (l.fund a c) 0 (worth [c]) where
  exact := (l.fund_shifts a c).exact
  total ho _ := total_credit (l := l.addSupply c) ho
  supply ho _ _ := supply_add (Bool.or_eq_false_iff.1 (Bool.or_eq_false_iff.1 ho).1).2

/-! ### Funds -/

variable {o o' i i' : Flow} {b b' q q' : String → Nat}

structure SameFunds (l l' : Ledger) : Prop where
  balance : ∀ h d, l'.balance h d = l.balance h d
  supply : ∀ d, l'.supplies.amount d = l.supplies.amount d

/-- Holders lose `lost` and gain `gained`, and the supply loses `burned` and gains `minted`. -/
structure Posts (l l' : Ledger) (lost gained : Flow) (burned minted : String → Nat) : Prop where
  balance : ∀ h d, (l'.balance h d).toNat + lost h d = (l.balance h d).toNat + gained h d
  supply : ∀ d, (l'.supplies.amount d).toNat + burned d = (l.supplies.amount d).toNat + minted d

namespace Posts

theorem refl (l : Ledger) : Posts l l 0 0 0 0 := ⟨fun _ _ => rfl, fun _ => rfl⟩

theorem trans (h : Posts l l' o i b q) (k : Posts l' m o' i' b' q') :
    Posts l m (o + o') (i + i') (b + b') (q + q') := by
  constructor
  · intro a d
    have h₁ := h.balance a d
    have h₂ := k.balance a d
    simp only [Pi.add_apply]
    omega
  · intro d
    have h₁ := h.supply d
    have h₂ := k.supply d
    simp only [Pi.add_apply]
    omega

theorem net (h : Posts l l' o i b q) (hbalance : ∀ a d, o a d + i' a d = o' a d + i a d)
    (hsupply : ∀ d, b d + q' d = b' d + q d) : Posts l l' o' i' b' q' := by
  constructor
  · intro a d
    have h₁ := h.balance a d
    have h₂ := hbalance a d
    omega
  · intro d
    have h₁ := h.supply d
    have h₂ := hsupply d
    omega

theorem of_shifts (hs : Shifts l l' o i) (hi : Issues l l' b q) (hl : l.Balanced)
    (ho : l'.overflowed = false) : Posts l l' o i b q :=
  ⟨hs.balance ho, hi.supply ho hl⟩

theorem sameFunds (h : Posts l l' o o b b) : l.SameFunds l' := by
  constructor
  · intro a d
    exact BitVec.eq_of_toNat_eq (Nat.add_right_cancel (h.balance a d))
  · intro d
    exact BitVec.eq_of_toNat_eq (Nat.add_right_cancel (h.supply d))

end Posts

theorem SameFunds.posts (h : l.SameFunds l') : Posts l l' 0 0 0 0 :=
  ⟨fun a d => by rw [h.balance], fun d => by rw [h.supply]⟩

theorem burn_of_mint {name : String} {cs : Coins} (hm : l.mint name cs = .ok m)
    (ho : m.overflowed = false) (hf : l.failBurns = false) : ∃ l', m.burn name cs = .ok l' := by
  have hs := mint_shifts hm
  have hcovers : m.covers (.moduleAccount name) cs = true := by
    refine covers_of_totalIn_le fun d => ?_
    have hb := hs.balance ho (.moduleAccount name) d
    simp only [flow_self, Pi.zero_apply] at hb
    omega
  rw [burn, hs.failBurns, hf, if_neg Bool.false_ne_true, if_pos hcovers]
  exact ⟨_, rfl⟩

/-! ### Ledgers built by their operations -/

theorem Balanced.congr (hl : l.Balanced) (hb : l'.balances = l.balances)
    (hs : l'.supplies = l.supplies) (ho : l'.overflowed = l.overflowed) : l'.Balanced := by
  intro h d
  rw [total, hb, hs]
  exact hl (ho ▸ h) d

theorem balanced_empty : Ledger.empty.Balanced := fun _ _ => rfl

inductive Operation
  | fund (a : Address) (c : Coin)
  | toModule (a : Address) (name : String) (cs : Coins)
  | toAccount (name : String) (a : Address) (cs : Coins)
  | mint (name : String) (cs : Coins)
  | burn (name : String) (cs : Coins)
  | pinSupply (denom : String) (a : Amount)
  | blockRecipient (a : Address)
  | failMints (on : Bool)
  | failBurns (on : Bool)

def orSame (l : Ledger) : Except BankError Ledger → Ledger
  | .ok l' => l'
  | .error _ => l

def Operation.apply (l : Ledger) : Operation → Ledger
  | .fund a c => l.fund a c
  | .toModule a name cs => l.orSame (l.toModule a name cs)
  | .toAccount name a cs => l.orSame (l.toAccount name a cs)
  | .mint name cs => l.orSame (l.mint name cs)
  | .burn name cs => l.orSame (l.burn name cs)
  | .pinSupply denom a => l.pinSupply denom a
  | .blockRecipient a => l.blockRecipient a
  | .failMints on => { l with failMints := on }
  | .failBurns on => { l with failBurns := on }

theorem Balanced.orSame {r : Except BankError Ledger} (hl : l.Balanced)
    (h : ∀ l', r = .ok l' → ∃ b i, Issues l l' b i) : (l.orSame r).Balanced := by
  cases r with
  | error e => exact hl
  | ok l' =>
    obtain ⟨b, i, hi⟩ := h l' rfl
    exact hi.balanced hl

theorem Balanced.apply (hl : l.Balanced) (op : Operation) : (op.apply l).Balanced := by
  cases op with
  | fund a c => exact (l.fund_issues a c).balanced hl
  | toModule => exact hl.orSame fun _ h => ⟨_, _, toModule_issues h⟩
  | toAccount => exact hl.orSame fun _ h => ⟨_, _, toAccount_issues h⟩
  | mint => exact hl.orSame fun _ h => ⟨_, _, mint_issues h⟩
  | burn => exact hl.orSame fun _ h => ⟨_, _, burn_issues h⟩
  | _ => exact hl.congr rfl rfl rfl

end Ledger

end DaoGovernance
