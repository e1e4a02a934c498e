import DaoGovernance.Toml.Number
import DaoGovernance.Toml.Quoted

/-!
Reading a TOML document.  Arrays and inline tables may nest seventy-nine deep, and a dotted key
has seventy-nine parts at most.
-/

namespace DaoGovernance.Toml

open Text

def maxNesting : Nat := 79

def blanks : Scan Unit := discard (Scan.span isBlank)

def lineEnd : Scan Unit := fun cs => (fun r => ((), r)) <$> lineEnd? cs

def comment : Scan Unit := do
  Scan.word "#"
  discard (Scan.span isPlain)

def space : Scan Unit :=
  discard (Scan.many (discard (Scan.span1 isBlank) <|> lineEnd <|> (do comment; lineEnd)))

def isBare (c : Char) : Bool := c.isAlphanum || c = '-' || c = '_'

def keyPart : Scan String := do
  blanks
  let k ← basic <|> literal <|> String.ofList <$> Scan.span1 isBare
  blanks
  return k

def key : Scan (List String × String) := do
  let parts ← Scan.separated1 keyPart (Scan.word ".")
  if maxNesting < parts.length then Scan.refuse
  let last ← Scan.ofOption parts.getLast?
  return (parts.dropLast, last)

def boolean : Scan Toml :=
  (do Scan.word "true"; return .bool true) <|> (do Scan.word "false"; return .bool false)

def scalar : Scan Toml := (Toml.string <$> quoted) <|> boolean <|> scanNumber

def scanArray (item : Scan Toml) : Scan Toml := do
  Scan.word "["
  space
  let items ← Scan.separated (do
    space
    let v ← item
    space
    return v) (Scan.word ",")
  unless items.isEmpty do
    Scan.optional (Scan.word ",") ()
  space
  Scan.word "]"
  return .array items

def member (value : Scan Toml) : Scan (List String × String × Toml) := do
  let (path, k) ← key
  Scan.word "="
  blanks
  return (path, k, ← value)

def ofMembers : List (List String × String × Toml) → Table → Option Table
  | [], t => some t
  | (path, k, v) :: ms, t =>
    match t.assign path k v with
    | some t => ofMembers ms t
    | none => none

def scanTable (value : Scan Toml) : Scan Toml := do
  Scan.word "\x7b"
  let ms ← Scan.separated (do
    let m ← member value
    blanks
    return m) (Scan.word ",")
  blanks
  Scan.word "\x7d"
  return .table .inline (← Scan.ofOption (ofMembers ms []))

def value : Nat → Scan Toml
  | 0 => scalar
  | n + 1 => scanArray (value n) <|> scanTable (value n) <|> scalar

/-- The tables read so far, and the path of the table that members go to. -/
structure Document where
  root : Table
  current : List String

namespace Document

def empty : Document := ⟨[], []⟩

def assign (d : Document) (path : List String) (k : String) (v : Toml) : Option Document :=
  (fun root => { d with root }) <$>
    Table.change false (fun _ t => t.assign path k v) .header d.current d.root

def openTable (d : Document) (path : List String) (k : String) : Option Document :=
  (fun root => ⟨root, path ++ [k]⟩) <$> d.root.openTable path k

def openNext (d : Document) (path : List String) (k : String) : Option Document :=
  (fun root => ⟨root, path ++ [k]⟩) <$> d.root.openNext path k

end Document

def tableHeader (d : Document) : Scan Document := do
  Scan.word "["
  let (path, k) ← key
  Scan.word "]"
  Scan.ofOption (d.openTable path k)

def tablesHeader (d : Document) : Scan Document := do
  Scan.word "[["
  let (path, k) ← key
  Scan.word "]]"
  Scan.ofOption (d.openNext path k)

def assignment (d : Document) : Scan Document := do
  let (path, k, v) ← member (value maxNesting)
  Scan.ofOption (d.assign path k v)

def expression (d : Document) : Scan Document := do
  if ← Scan.sees "[[" then tablesHeader d
  else if ← Scan.sees "[" then tableHeader d
  else if (← Scan.atEnd) || (← Scan.sees "#") || (← Scan.sees "\n") || (← Scan.sees "\r") then
    return d
  else assignment d

def scanLine (d : Document) : Scan Document := do
  blanks
  let d ← expression d
  blanks
  Scan.optional comment ()
  return d

def scanLines : Nat → Document → Scan Document
  | 0, _ => Scan.refuse
  | fuel + 1, d => do
    let d ← scanLine d
    if ← Scan.atEnd then return d
    lineEnd
    scanLines fuel d

def byteOrderMark : Char := .ofNat 0xFEFF

def parse (s : String) : Option Table :=
  Scan.whole (do
    Scan.optional (discard (Scan.char (· = byteOrderMark))) ()
    let d ← fun cs => scanLines (cs.length + 1) .empty cs
    return d.root) s

end DaoGovernance.Toml
