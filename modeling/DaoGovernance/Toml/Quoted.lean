import DaoGovernance.Text.Mark
import DaoGovernance.Text.Scan

/-!
Strings of TOML: basic ones with escapes, literal ones without, each on one line or on several.
-/

namespace DaoGovernance.Toml

open Text

def isBlank (c : Char) : Bool := c = ' ' || c = tab

def isPlain (c : Char) : Bool := c = tab || (0x20 ≤ c.toNat && c.toNat ≠ 0x7F)

def ofCode? (n : Nat) : Option Char := if n.isValidChar then some (.ofNat n) else none

def escape? : List Char → Option (Char × List Char)
  | 'b' :: r => some (backspace, r)
  | 't' :: r => some (tab, r)
  | 'n' :: r => some (newline, r)
  | 'f' :: r => some (formFeed, r)
  | 'r' :: r => some (carriageReturn, r)
  | '\x22' :: r => some (quote, r)
  | '\x5c' :: r => some (backslash, r)
  | 'u' :: r => code? 4 r
  | 'U' :: r => code? 8 r
  | _ => none
where
  code? (width : Nat) (r : List Char) : Option (Char × List Char) := do
    let ds := r.take width
    if ds.length ≠ width then none
    return (← ofCode? (← hexNumber? ds), r.drop width)

def basicFrom : Nat → List Char → Scan (List Char)
  | 0, _ => Scan.refuse
  | fuel + 1, acc => fun
    | [] => none
    | c :: r =>
      if c = quote then some (acc.reverse, r)
      else if c = backslash then
        match escape? r with
        | some (e, r) => basicFrom fuel (e :: acc) r
        | none => none
      else if isPlain c then basicFrom fuel (c :: acc) r
      else none

def basic : Scan String := do
  Scan.word "\x22"
  return .ofList (← fun cs => basicFrom (cs.length + 1) [] cs)

def literal : Scan String := do
  Scan.word "'"
  let cs ← Scan.span fun c => isPlain c && c ≠ apostrophe
  Scan.word "'"
  return .ofList cs

def lineEnd? : List Char → Option (List Char)
  | '\n' :: r => some r
  | '\r' :: '\n' :: r => some r
  | _ => none

def dropSpace : Nat → List Char → List Char
  | 0, cs => cs
  | fuel + 1, cs =>
    let cs := cs.dropWhile isBlank
    match lineEnd? cs with
    | some r => dropSpace fuel r
    | none => cs

def continuation? (cs : List Char) : Option (List Char) :=
  match lineEnd? (cs.dropWhile isBlank) with
  | some r => some (dropSpace r.length r)
  | none => none

/-- What a run of delimiters says inside a string that three of them end: up to two belong to the
string, wherever they stand. -/
def closing (delimiter : Char) (run : Nat) : Option (List Char × Bool) :=
  if run < 3 then some (List.replicate run delimiter, false)
  else if run ≤ 5 then some (List.replicate (run - 3) delimiter, true)
  else none

def linesFrom (delimiter : Char) (escapes : Bool) : Nat → List Char → Scan (List Char)
  | 0, _ => Scan.refuse
  | fuel + 1, acc => fun
    | [] => none
    | c :: r =>
      if c = delimiter then
        let run := (c :: r).takeWhile (· = delimiter)
        let r := (c :: r).dropWhile (· = delimiter)
        match closing delimiter run.length with
        | some (ds, true) => some (acc.reverse ++ ds, r)
        | some (ds, false) => linesFrom delimiter escapes fuel (ds ++ acc) r
        | none => none
      else if escapes && c = backslash then
        match continuation? r with
        | some r => linesFrom delimiter escapes fuel acc r
        | none =>
          match escape? r with
          | some (e, r) => linesFrom delimiter escapes fuel (e :: acc) r
          | none => none
      else match lineEnd? (c :: r) with
        | some r => linesFrom delimiter escapes fuel (newline :: acc) r
        | none => if isPlain c then linesFrom delimiter escapes fuel (c :: acc) r else none

def severalLines (delimiter : Char) (escapes : Bool) : Scan String := do
  Scan.word (.ofList [delimiter, delimiter, delimiter])
  return .ofList (← fun cs =>
    let cs := (lineEnd? cs).getD cs
    linesFrom delimiter escapes (cs.length + 1) [] cs)

def quoted : Scan String :=
  severalLines quote true <|> basic <|> severalLines apostrophe false <|> literal

end DaoGovernance.Toml
