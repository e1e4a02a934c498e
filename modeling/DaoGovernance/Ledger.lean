import DaoGovernance.Address
import DaoGovernance.Coins
import DaoGovernance.SortedMap

/-!
A token ledger in memory.  Accounts are held under their address and module accounts under their
name.  An operation on several coins checks all of them before it moves the first.
-/

namespace DaoGovernance

inductive Holder
  | account (address : Address)
  | moduleAccount (name : String)
  deriving DecidableEq

namespace Holder

def rank : Holder → Nat × String
  | .account a => (0, a.text)
  | .moduleAccount n => (1, n)

theorem rank_inj {h k : Holder} (e : h.rank = k.rank) : h = k := by
  cases h <;> cases k <;> simp [rank] at e
  · exact congrArg _ (Address.text_inj e)
  · exact congrArg _ e

instance : KeyOrder Holder := KeyOrder.pullback rank rank_inj

def text : Holder → String
  | .account a => a.text
  | .moduleAccount n => "module " ++ n

end Holder

inductive BankError
  | insufficientFunds (holder : Holder) (needed : Coins)
  | blocked (account : Address)
  | unknownModule (name : String)
  | backend (reason : String)
  deriving DecidableEq

def BankError.message : BankError → String
  | .insufficientFunds h cs => "insufficient funds: " ++ h.text ++ " cannot cover " ++ cs.text
  | .blocked a => "account " ++ a.text ++ " is not allowed to receive funds"
  | .unknownModule n => "unknown module account: " ++ n
  | .backend r => "bank backend: " ++ r

/-- Amounts per key; a key without an entry has none. -/
abbrev Balances (κ : Type) [KeyOrder κ] := SortedMap κ Amount

namespace Balances

variable {κ : Type} [KeyOrder κ]

def amount (b : Balances κ) (k : κ) : Amount := (b.get? k).getD 0

def add (b : Balances κ) (k : κ) (a : Amount) : Balances κ := b.insert k (b.amount k + a)

def update (b : Balances κ) (k : κ) (f : Amount → Amount) : Balances κ :=
  match b.get? k with
  | some a => b.insert k (f a)
  | none => b

def sumOverflows (b : Balances κ) (k : κ) (a : Amount) : Bool :=
  Amount.size ≤ (b.amount k).toNat + a.toNat

def differenceOverflows (b : Balances κ) (k : κ) (a : Amount) : Bool :=
  match b.get? k with
  | some c => c < a
  | none => false

end Balances

structure Ledger where
  balances : Balances (Holder × String)
  /-- What was funded and minted, less what was burned. -/
  supplies : Balances String
  /-- Supplies that are reported instead of the real ones. -/
  pinned : Balances String
  minted : Balances String
  burned : Balances String
  blocked : List Address
  failMints : Bool
  failBurns : Bool
  /-- Whether a sum or a difference was ever out of range; it was then stored wrapped around. -/
  overflowed : Bool

namespace Ledger

def empty : Ledger where
  balances := .empty
  supplies := .empty
  pinned := .empty
  minted := .empty
  burned := .empty
  blocked := []
  failMints := false
  failBurns := false
  overflowed := false

def balance (l : Ledger) (h : Holder) (denom : String) : Amount := l.balances.amount (h, denom)

def supply (l : Ledger) (denom : String) : Amount :=
  match l.pinned.get? denom with
  | some a => a
  | none => l.supplies.amount denom

def covers (l : Ledger) (h : Holder) (cs : Coins) : Bool :=
  cs.list.all fun c => c.amount ≤ l.balance h c.denom

def credit (l : Ledger) (h : Holder) (c : Coin) : Ledger :=
  { l with
    balances := l.balances.add (h, c.denom) c.amount
    overflowed := l.overflowed || l.balances.sumOverflows (h, c.denom) c.amount }

def debit (l : Ledger) (h : Holder) (c : Coin) : Ledger :=
  { l with
    balances := l.balances.update (h, c.denom) (· - c.amount)
    overflowed := l.overflowed || l.balances.differenceOverflows (h, c.denom) c.amount }

def addSupply (l : Ledger) (c : Coin) : Ledger :=
  { l with
    supplies := l.supplies.add c.denom c.amount
    overflowed := l.overflowed || l.supplies.sumOverflows c.denom c.amount }

def move (source target : Holder) (l : Ledger) (c : Coin) : Ledger :=
  (l.debit source c).credit target c

def transfer (l : Ledger) (source target : Holder) (cs : Coins) : Except BankError Ledger :=
  if l.covers source cs then .ok (cs.list.foldl (move source target) l)
  else .error (.insufficientFunds source cs)

def fund (l : Ledger) (a : Address) (c : Coin) : Ledger :=
  (l.addSupply c).credit (.account a) c

def pinSupply (l : Ledger) (denom : String) (a : Amount) : Ledger :=
  { l with pinned := l.pinned.insert denom a }

def blockRecipient (l : Ledger) (a : Address) : Ledger := { l with blocked := a :: l.blocked }

def toModule (l : Ledger) (a : Address) (name : String) (cs : Coins) : Except BankError Ledger :=
  l.transfer (.account a) (.moduleAccount name) cs

def toAccount (l : Ledger) (name : String) (a : Address) (cs : Coins) : Except BankError Ledger :=
  if l.blocked.contains a then .error (.blocked a)
  else l.transfer (.moduleAccount name) (.account a) cs

def mintCoin (h : Holder) (l : Ledger) (c : Coin) : Ledger :=
  let l := (l.credit h c).addSupply c
  { l with
    minted := l.minted.add c.denom c.amount
    overflowed := l.overflowed || l.minted.sumOverflows c.denom c.amount }

def mint (l : Ledger) (name : String) (cs : Coins) : Except BankError Ledger :=
  if l.failMints then .error (.backend "injected mint failure")
  else .ok (cs.list.foldl (mintCoin (.moduleAccount name)) l)

def burnCoin (h : Holder) (l : Ledger) (c : Coin) : Ledger :=
  let l := l.debit h c
  { l with
    supplies := l.supplies.update c.denom (·.saturatingSub c.amount)
    burned := l.burned.add c.denom c.amount
    overflowed := l.overflowed || l.burned.sumOverflows c.denom c.amount }

def burn (l : Ledger) (name : String) (cs : Coins) : Except BankError Ledger :=
  if l.failBurns then .error (.backend "injected burn failure")
  else if l.covers (.moduleAccount name) cs then
    .ok (cs.list.foldl (burnCoin (.moduleAccount name)) l)
  else .error (.insufficientFunds (.moduleAccount name) cs)

end Ledger

end DaoGovernance
