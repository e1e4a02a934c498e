import DaoGovernance.Ledger
import DaoGovernance.Proofs.Coins
import DaoGovernance.Proofs.Decimal
import Mathlib

/-!
Exact accounting on the ledger.  As long as no sum and no difference was out of range, what a
holder has changes by what it loses and gains, coin by coin and denom by denom.
-/

namespace DaoGovernance

open KeyOrder

/-! ### Balances -/

namespace Balances

variable {κ : Type} [KeyOrder κ] {b : Balances κ} {k : κ} {a : Amount}

theorem sumOverflows_of_lt (h : (b.amount k).toNat + a.toNat < Amount.size) :
    b.sumOverflows k a = false := decide_eq_false (not_le.2 h)

theorem differenceOverflows_of_le (h : a ≤ b.amount k) : b.differenceOverflows k a = false := by
  unfold differenceOverflows
  cases hb : b.get? k with
  | none => rfl
  | some v =>
    rw [amount, hb, Option.getD_some] at h
    simpa using h

theorem eq_zero_of_le (h : a ≤ b.amount k) (hn : b.get? k = none) : a = 0 := by
  rw [amount, hn, Option.getD_none] at h
  exact BitVec.eq_of_toNat_eq (Nat.le_zero.1 h)

theorem update_saturatingSub (h : a ≤ b.amount k) :
    b.update k (·.saturatingSub a) = b.update k (· - a) := by
  unfold update
  cases hb : b.get? k with
  | none => rfl
  | some v =>
    rw [amount, hb, Option.getD_some] at h
    simp only [Amount.saturatingSub, if_pos h]

variable [DecidableEq κ]

theorem amount_add (k' : κ) (h : b.sumOverflows k a = false) :
    ((b.add k a).amount k').toNat =
      (b.amount k').toNat + if k' = k then a.toNat else 0 := by
  have h := not_le.1 (of_decide_eq_false h)
  rw [Amount.size_eq] at h
  by_cases hk : k' = k
  · subst hk
    rw [if_pos rfl, amount, add, SortedMap.get?_insert_self, Option.getD_some,
      BitVec.toNat_add_of_lt h]
  · rw [if_neg hk, amount, add, SortedMap.get?_insert_of_ne _ _ (Ne.symm hk), Nat.add_zero, amount]

theorem amount_sub (k' : κ) (h : b.differenceOverflows k a = false) (hn : b.get? k = none → a = 0) :
    ((b.update k (· - a)).amount k').toNat + (if k' = k then a.toNat else 0) =
      (b.amount k').toNat := by
  cases hb : b.get? k with
  | none =>
    have hu : b.update k (· - a) = b := by simp only [update, hb]
    rw [hu, hn hb]
    simp
  | some v =>
    have hu : b.update k (· - a) = b.insert k (v - a) := by simp only [update, hb]
    simp only [differenceOverflows, hb, decide_eq_false_iff_not, BitVec.not_lt] at h
    rw [hu]
    by_cases hk : k' = k
    · subst hk
      rw [if_pos rfl, amount, SortedMap.get?_insert_self, Option.getD_some, amount, hb,
        Option.getD_some, BitVec.toNat_sub_of_le h]
      exact Nat.sub_add_cancel h
    · rw [if_neg hk, amount, SortedMap.get?_insert_of_ne _ _ (Ne.symm hk), Nat.add_zero, amount]

end Balances

/-! ### Shifts -/

namespace Ledger

variable {l l' m : Ledger} {h s t : Holder} {c : Coin} {cs : List Coin}

abbrev Flow := Holder → String → Nat

def flow (h : Holder) (cs : List Coin) : Flow := fun k d =>
  if k = h then Coins.totalIn d cs else 0

@[simp] theorem flow_nil : flow h [] = 0 := by
  funext k d
  simp [flow, Coins.totalIn]

theorem flow_cons : flow h (c :: cs) = flow h [c] + flow h cs := by
  funext k d
  simp only [flow, Coins.totalIn, Pi.add_apply, List.map_cons, List.map_nil, List.sum_cons,
    List.sum_nil, Nat.add_zero]
  split <;> rfl

@[simp] theorem flow_self {d : String} : flow h cs h d = Coins.totalIn d cs := by simp [flow]

theorem flow_single (k : Holder) (d : String) :
    flow h [c] k d = if (k, d) = (h, c.denom) then c.amount.toNat else 0 := by
  simp only [flow, Coins.totalIn, List.map_cons, List.map_nil, List.sum_cons, List.sum_nil,
    Nat.add_zero, Prod.mk.injEq]
  by_cases hk : k = h <;> simp [hk, eq_comm]

theorem flow_of_ne {k : Holder} {d : String} (hk : k ≠ h) : flow h cs k d = 0 := by
  simp [flow, hk]

/-- Holders lose `lost` and gain `gained`, unless something was out of range. -/
structure Shifts (l l' : Ledger) (lost gained : Flow) : Prop where
  exact : l'.overflowed = false → l.overflowed = false
  blocked : l'.blocked = l.blocked
  failBurns : l'.failBurns = l.failBurns
  balance : l'.overflowed = false → ∀ h d,
    (l'.balance h d).toNat + lost h d = (l.balance h d).toNat + gained h d

variable {o o' i i' : Flow}

theorem Shifts.refl (l : Ledger) : Shifts l l 0 0 := ⟨id, rfl, rfl, fun _ _ _ => rfl⟩

theorem Shifts.trans (h : Shifts l l' o i) (k : Shifts l' m o' i') :
    Shifts l m (o + o') (i + i') where
  exact hm := h.exact (k.exact hm)
  blocked := k.blocked.trans h.blocked
  failBurns := k.failBurns.trans h.failBurns
  balance hm a d := by
    have h₁ := h.balance (k.exact hm) a d
    have h₂ := k.balance hm a d
    simp only [Pi.add_apply]
    omega

theorem balance_eq (l : Ledger) (h : Holder) (d : String) :
    l.balance h d = l.balances.amount (h, d) := rfl

theorem credit_shifts (l : Ledger) (h : Holder) (c : Coin) :
    Shifts l (l.credit h c) 0 (flow h [c]) where
  exact ho := (Bool.or_eq_false_iff.1 ho).1
  blocked := rfl
  failBurns := rfl
  balance ho k d := by
    have hb := Balances.amount_add (k, d) (Bool.or_eq_false_iff.1 ho).2
    rw [balance_eq, balance_eq, credit, hb, flow_single]
    rfl

theorem debit_shifts (l : Ledger) (h : Holder) (c : Coin)
    (hn : l.balances.get? (h, c.denom) = none → c.amount = 0) :
    Shifts l (l.debit h c) (flow h [c]) 0 where
  exact ho := (Bool.or_eq_false_iff.1 ho).1
  blocked := rfl
  failBurns := rfl
  balance ho k d := by
    have hb := Balances.amount_sub (k, d) (Bool.or_eq_false_iff.1 ho).2 hn
    rw [balance_eq, balance_eq, debit, ← hb, flow_single]
    rfl

theorem addSupply_shifts (l : Ledger) (c : Coin) : Shifts l (l.addSupply c) 0 0 where
  exact ho := (Bool.or_eq_false_iff.1 ho).1
  blocked := rfl
  failBurns := rfl
  balance _ _ _ := rfl

theorem move_shifts (l : Ledger) (s t : Holder) (c : Coin)
    (hn : l.balances.get? (s, c.denom) = none → c.amount = 0) :
    Shifts l (move s t l c) (flow s [c]) (flow t [c]) := by
  rw [move]
  simpa using (l.debit_shifts s c hn).trans (credit_shifts _ t c)

/-- A coin that the holder has no entry for is zero. -/
def Backs (l : Ledger) (h : Holder) (cs : List Coin) : Prop :=
  ∀ c ∈ cs, l.balances.get? (h, c.denom) = none → c.amount = 0

theorem backs_of_covers {cs : Coins} (hc : l.covers h cs = true) : l.Backs h cs.list := by
  intro c hm hn
  exact Balances.eq_zero_of_le (of_decide_eq_true (List.all_eq_true.1 hc c hm)) hn

theorem get?_update_eq_none {κ : Type} [KeyOrder κ] {b : Balances κ} {k k' : κ}
    {f : Amount → Amount} : (b.update k f).get? k' = none ↔ b.get? k' = none := by
  unfold Balances.update
  split
  · rename_i v hv
    rw [SortedMap.get?_insert]
    split
    · rename_i hk
      obtain rfl := same_iff.1 hk
      simp [hv]
    · exact Iff.rfl
  · exact Iff.rfl

theorem Backs.debit (hb : l.Backs h cs) (k : Holder) (c : Coin) : (l.debit k c).Backs h cs :=
  fun e he hn => hb e he (get?_update_eq_none.1 hn)

theorem Backs.move (hb : l.Backs s cs) (hst : s ≠ t) (c : Coin) : (move s t l c).Backs s cs := by
  intro e he hn
  apply hb.debit s c e he
  rwa [Ledger.move, credit, Balances.add, SortedMap.get?_insert_of_ne] at hn
  intro hk
  exact hst (Prod.ext_iff.1 hk).1.symm

theorem foldl_move_shifts (hst : s ≠ t) (hb : l.Backs s cs) :
    Shifts l (cs.foldl (move s t) l) (flow s cs) (flow t cs) := by
  induction cs generalizing l with
  | nil => simpa using Shifts.refl l
  | cons c cs ih =>
    rw [flow_cons (h := s), flow_cons (h := t), List.foldl_cons]
    apply (l.move_shifts s t c (hb c (by simp))).trans
    apply ih
    exact Backs.move (fun e he => hb e (by simp [he])) hst c

/-! ### Operations -/

theorem transfer_shifts {cs : Coins} (hst : s ≠ t) (h : l.transfer s t cs = .ok l') :
    Shifts l l' (flow s cs.list) (flow t cs.list) := by
  unfold transfer at h
  split at h
  · rename_i hc
    cases h
    exact foldl_move_shifts hst (backs_of_covers hc)
  · cases h

theorem toModule_shifts {a : Address} {name : String} {cs : Coins}
    (h : l.toModule a name cs = .ok l') :
    Shifts l l' (flow (.account a) cs.list) (flow (.moduleAccount name) cs.list) :=
  transfer_shifts (by simp) h

theorem toAccount_shifts {a : Address} {name : String} {cs : Coins}
    (h : l.toAccount name a cs = .ok l') :
    Shifts l l' (flow (.moduleAccount name) cs.list) (flow (.account a) cs.list) := by
  unfold toAccount at h
  split at h
  · cases h
  · exact transfer_shifts (by simp) h

theorem mintCoin_shifts (l : Ledger) (h : Holder) (c : Coin) :
    Shifts l (mintCoin h l c) 0 (flow h [c]) := by
  have hs := (l.credit_shifts h c).trans (addSupply_shifts _ c)
  have hm : Shifts ((l.credit h c).addSupply c) (mintCoin h l c) 0 0 :=
    ⟨fun ho => (Bool.or_eq_false_iff.1 ho).1, rfl, rfl, fun _ _ _ => rfl⟩
  simpa using hs.trans hm

theorem foldl_mintCoin_shifts (l : Ledger) (h : Holder) (cs : List Coin) :
    Shifts l (cs.foldl (mintCoin h) l) 0 (flow h cs) := by
  induction cs generalizing l with
  | nil => simpa using Shifts.refl l
  | cons c cs ih =>
    rw [flow_cons, List.foldl_cons]
    simpa using (l.mintCoin_shifts h c).trans (ih _)

theorem mint_shifts {name : String} {cs : Coins} (h : l.mint name cs = .ok l') :
    Shifts l l' 0 (flow (.moduleAccount name) cs.list) := by
  unfold mint at h
  split at h
  · cases h
  · cases h
    exact l.foldl_mintCoin_shifts _ _

theorem burnCoin_shifts (l : Ledger) (h : Holder) (c : Coin)
    (hn : l.balances.get? (h, c.denom) = none → c.amount = 0) :
    Shifts l (burnCoin h l c) (flow h [c]) 0 := by
  have hm : Shifts (l.debit h c) (burnCoin h l c) 0 0 :=
    ⟨fun ho => (Bool.or_eq_false_iff.1 ho).1, rfl, rfl, fun _ _ _ => rfl⟩
  simpa using (l.debit_shifts h c hn).trans hm

theorem foldl_burnCoin_shifts (hb : l.Backs h cs) :
    Shifts l (cs.foldl (burnCoin h) l) (flow h cs) 0 := by
  induction cs generalizing l with
  | nil => simpa using Shifts.refl l
  | cons c cs ih =>
    rw [flow_cons, List.foldl_cons]
    have hc := l.burnCoin_shifts h c (hb c (by simp))
    have hcs : (burnCoin h l c).Backs h cs := Backs.debit (fun e he => hb e (by simp [he])) h c
    simpa using hc.trans (ih hcs)

theorem burn_shifts {name : String} {cs : Coins} (h : l.burn name cs = .ok l') :
    Shifts l l' (flow (.moduleAccount name) cs.list) 0 := by
  unfold burn at h
  split_ifs at h with hf hc
  cases h
  exact foldl_burnCoin_shifts (backs_of_covers hc)

theorem fund_shifts (l : Ledger) (a : Address) (c : Coin) :
    Shifts l (l.fund a c) 0 (flow (.account a) [c]) := by
  rw [fund]
  simpa using (l.addSupply_shifts c).trans (credit_shifts _ (.account a) c)

theorem covers_of_totalIn_le {cs : Coins}
    (h : ∀ d, Coins.totalIn d cs.list ≤ (l.balance s d).toNat) : l.covers s cs = true := by
  rw [covers, List.all_eq_true]
  intro c hc
  rw [decide_eq_true_eq, BitVec.le_def]
  exact (Coins.le_totalIn hc).trans (h c.denom)

/-! ### Module accounts that lose nothing -/

def Spares (name : String) (l l' : Ledger) : Prop :=
  ∃ lost gained, Shifts l l' lost gained ∧
    ∀ d, lost (.moduleAccount name) d ≤ gained (.moduleAccount name) d

theorem Spares.refl (name : String) (l : Ledger) : Spares name l l :=
  ⟨0, 0, .refl l, fun _ => Nat.le_refl _⟩

theorem Spares.trans {name : String} (h : Spares name l l') (k : Spares name l' m) :
    Spares name l m := by
  obtain ⟨o, i, hs, hle⟩ := h
  obtain ⟨o', i', ks, kle⟩ := k
  exact ⟨o + o', i + i', hs.trans ks, fun d => Nat.add_le_add (hle d) (kle d)⟩

theorem Spares.of_gain {name : String} {cs : List Coin} (h : Shifts l l' 0 (flow t cs)) :
    Spares name l l' :=
  ⟨_, _, h, fun _ => Nat.zero_le _⟩

theorem Spares.toNat_balance_le {name d : String} (h : Spares name l l')
    (ho : l'.overflowed = false) :
    (l.balance (.moduleAccount name) d).toNat ≤ (l'.balance (.moduleAccount name) d).toNat := by
  obtain ⟨o, i, hs, hle⟩ := h
  have := hs.balance ho (.moduleAccount name) d
  have := hle d
  omega

end Ledger

end DaoGovernance
