import DaoGovernance.Amount
import DaoGovernance.InvalidValue
import DaoGovernance.KeyOrder
import DaoGovernance.Text.Blank

/-!
Coins and sets of coins.  A set is taken as it comes; `Coins.new` makes it canonical (no zero
amounts, denoms valid and strictly ascending) and `Coins.validate` checks that it is.
-/

namespace DaoGovernance

namespace Denom

def minLength : Nat := 3

def maxLength : Nat := 128

def isInner (c : Char) : Bool :=
  c.isAlphanum || c = '/' || c = ':' || c = '.' || c = '_' || c = '-'

def isValid (s : String) : Bool :=
  match s.toList with
  | [] => false
  | c :: cs =>
    c.isAlpha && cs.all isInner && minLength ≤ cs.length + 1 && cs.length + 1 ≤ maxLength

def validate (s : String) : Except InvalidValue Unit :=
  if isValid s then .ok () else .error (.denom s)

end Denom

structure Coin where
  denom : String
  amount : Amount
  deriving DecidableEq

namespace Coin

def isZero (c : Coin) : Bool := c.amount = 0

/-- A zero amount is allowed. -/
def validate (c : Coin) : Except InvalidValue Unit := Denom.validate c.denom

def text (c : Coin) : String := c.amount.text ++ c.denom

def missingDenom (s : String) : InvalidValue := .coins ("missing denom in '" ++ s ++ "'")

def badAmount (s : String) (e : Amount.ReadError) : InvalidValue :=
  .coins ("bad amount in '" ++ s ++ "': " ++ e.message)

/-- Reads an amount and a denom with nothing between them, such as `5000000udnsc`. -/
def parse (s : String) : Except InvalidValue Coin :=
  let s := Text.trim s
  let cs := s.toList
  let amount := cs.takeWhile Char.isDigit
  let denom := String.ofList (cs.dropWhile Char.isDigit)
  if denom.isEmpty then .error (missingDenom s)
  else match Amount.ofDigits amount with
    | .error e => .error (badAmount s e)
    | .ok a =>
      match Denom.validate denom with
      | .error e => .error e
      | .ok () => .ok ⟨denom, a⟩

end Coin

structure Coins where
  list : List Coin
  deriving DecidableEq, Inhabited

namespace Coins

def empty : Coins := ⟨[]⟩

def zeroAmount (denom : String) : InvalidValue := .coins ("coin " ++ denom ++ " has zero amount")

def notSorted (d e : String) : InvalidValue :=
  .coins ("denoms not sorted or duplicated: " ++ d ++ ", " ++ e)

def checkEach : List Coin → Except InvalidValue Unit
  | [] => .ok ()
  | c :: cs =>
    match c.validate with
    | .error e => .error e
    | .ok () => if c.isZero then .error (zeroAmount c.denom) else checkEach cs

def checkOrder : List Coin → Except InvalidValue Unit
  | c :: d :: cs =>
    if KeyOrder.before c.denom d.denom then checkOrder (d :: cs)
    else .error (notSorted c.denom d.denom)
  | _ => .ok ()

def validate (cs : Coins) : Except InvalidValue Unit :=
  match checkEach cs.list with
  | .error e => .error e
  | .ok () => checkOrder cs.list

def insertByDenom (c : Coin) : List Coin → List Coin
  | [] => [c]
  | d :: ds => if KeyOrder.before d.denom c.denom then d :: insertByDenom c ds else c :: d :: ds

/-- Sorts by denom and keeps the order of coins of one denom. -/
def sortByDenom : List Coin → List Coin
  | [] => []
  | c :: cs => insertByDenom c (sortByDenom cs)

def new (cs : List Coin) : Except InvalidValue Coins :=
  let set : Coins := ⟨sortByDenom (cs.filter fun c => !c.isZero)⟩
  match set.validate with
  | .error e => .error e
  | .ok () => .ok set

def isZero (cs : Coins) : Bool := cs.list.all Coin.isZero

def isEmpty (cs : Coins) : Bool := cs.list.isEmpty

def size (cs : Coins) : Nat := cs.list.length

def isAllPositive (cs : Coins) : Bool := !cs.list.isEmpty && cs.list.all fun c => !c.isZero

def amountOf (cs : Coins) (denom : String) : Amount :=
  match cs.list.find? fun c => c.denom = denom with
  | some c => c.amount
  | none => 0

def text (cs : Coins) : String := ",".intercalate (cs.list.map Coin.text)

def splitOn (sep : Char) : List Char → List (List Char)
  | [] => [[]]
  | c :: cs =>
    if c = sep then [] :: splitOn sep cs
    else match splitOn sep cs with
      | [] => [[c]]
      | w :: ws => (c :: w) :: ws

def parseEach : List (List Char) → Except InvalidValue (List Coin)
  | [] => .ok []
  | w :: ws =>
    match Coin.parse (.ofList w) with
    | .error e => .error e
    | .ok c =>
      match parseEach ws with
      | .error e => .error e
      | .ok cs => .ok (c :: cs)

/-- Reads coins separated by commas; a blank text is the empty set. -/
def parse (s : String) : Except InvalidValue Coins :=
  if Text.isBlankText s then .ok empty
  else match parseEach (splitOn ',' s.toList) with
    | .error e => .error e
    | .ok cs => new cs

end Coins

end DaoGovernance
