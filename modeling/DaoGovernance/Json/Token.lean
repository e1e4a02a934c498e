import DaoGovernance.Text.Mark

/-!
The tokens of JSON text.  Two tokens may stand next to each other without a blank; a value is
never written as two.
-/

namespace DaoGovernance.Json

open Text

inductive Token
  | openObject
  | closeObject
  | openArray
  | closeArray
  | colon
  | comma
  | null
  | bool (b : Bool)
  | number (text : List Char)
  | string (text : Option String)

inductive Piece
  | char (c : Char)
  | unit (n : Nat)

def isHighSurrogate (n : Nat) : Bool := 0xD800 ≤ n && n < 0xDC00

def isLowSurrogate (n : Nat) : Bool := 0xDC00 ≤ n && n < 0xE000

def ofSurrogates (high low : Nat) : Char :=
  .ofNat (0x10000 + (high - 0xD800) * 0x400 + (low - 0xDC00))

def joinPieces : List Piece → Option (List Char)
  | [] => some []
  | .char c :: ps => (c :: ·) <$> joinPieces ps
  | .unit n :: ps =>
    if isLowSurrogate n then none
    else if isHighSurrogate n then
      match ps with
      | .unit m :: ps =>
        if isLowSurrogate m then (ofSurrogates n m :: ·) <$> joinPieces ps else none
      | _ => none
    else (Char.ofNat n :: ·) <$> joinPieces ps

def escape? : Char → Option Char
  | '\x22' => some quote
  | '\x5c' => some backslash
  | '/' => some '/'
  | 'b' => some backspace
  | 'f' => some formFeed
  | 'n' => some newline
  | 'r' => some carriageReturn
  | 't' => some tab
  | _ => none

def lexString (acc : List Piece) : List Char → Option (List Piece × List Char)
  | [] => none
  | '\x5c' :: 'u' :: a :: b :: c :: d :: r =>
    match hexNumber? [a, b, c, d] with
    | some n => lexString (.unit n :: acc) r
    | none => none
  | '\x5c' :: e :: r =>
    match escape? e with
    | some c => lexString (.char c :: acc) r
    | none => none
  | c :: r =>
    if c = quote then some (acc.reverse, r)
    else if c.toNat < 0x20 then none
    else lexString (.char c :: acc) r

def lexDigits (cs : List Char) : Option (List Char × List Char) :=
  let ds := cs.takeWhile Char.isDigit
  if ds.isEmpty then none else some (ds, cs.dropWhile Char.isDigit)

def lexWhole (cs : List Char) : Option (List Char × List Char) :=
  match lexDigits cs with
  | some (ds, r) => if ds.head? = some '0' ∧ ds.length ≠ 1 then none else some (ds, r)
  | none => none

def lexFraction : List Char → Option (List Char × List Char)
  | '.' :: r => (fun (ds, r) => ('.' :: ds, r)) <$> lexDigits r
  | r => some ([], r)

def lexSigned : List Char → Option (List Char × List Char)
  | '+' :: r => (fun (ds, r) => ('+' :: ds, r)) <$> lexDigits r
  | '-' :: r => (fun (ds, r) => ('-' :: ds, r)) <$> lexDigits r
  | r => lexDigits r

def lexExponent : List Char → Option (List Char × List Char)
  | 'e' :: r => (fun (ds, r) => ('e' :: ds, r)) <$> lexSigned r
  | 'E' :: r => (fun (ds, r) => ('E' :: ds, r)) <$> lexSigned r
  | r => some ([], r)

def lexUnsigned (cs : List Char) : Option (List Char × List Char) := do
  let (w, r) ← lexWhole cs
  let (f, r) ← lexFraction r
  let (e, r) ← lexExponent r
  return (w ++ f ++ e, r)

def lexNumber : List Char → Option (List Char × List Char)
  | '-' :: r => (fun (ds, r) => ('-' :: ds, r)) <$> lexUnsigned r
  | r => lexUnsigned r

def isSpace (c : Char) : Bool := c = ' ' || c = newline || c = tab || c = carriageReturn

def lexOne : List Char → Option (Token × List Char)
  | '\x7b' :: r => some (.openObject, r)
  | '\x7d' :: r => some (.closeObject, r)
  | '[' :: r => some (.openArray, r)
  | ']' :: r => some (.closeArray, r)
  | ':' :: r => some (.colon, r)
  | ',' :: r => some (.comma, r)
  | 'n' :: 'u' :: 'l' :: 'l' :: r => some (.null, r)
  | 't' :: 'r' :: 'u' :: 'e' :: r => some (.bool true, r)
  | 'f' :: 'a' :: 'l' :: 's' :: 'e' :: r => some (.bool false, r)
  | '\x22' :: r =>
    (fun (ps, r) => (.string (String.ofList <$> joinPieces ps), r)) <$> lexString [] r
  | cs => (fun (ds, r) => (.number ds, r)) <$> lexNumber cs

/-- Reads all tokens.  Every step takes a character at least, so the length of the text is fuel
enough. -/
def lexAll : Nat → List Token → List Char → Option (List Token)
  | _, acc, [] => some acc.reverse
  | 0, _, _ :: _ => none
  | fuel + 1, acc, c :: cs =>
    if isSpace c then lexAll fuel acc cs
    else match lexOne (c :: cs) with
      | some (t, r) => lexAll fuel (t :: acc) r
      | none => none

def tokens (s : String) : Option (List Token) :=
  let cs := s.toList
  lexAll cs.length [] cs

end DaoGovernance.Json
