import DaoGovernance.Text.Mark

/-!
Writing TOML strings.  A string is written in the plainest way that it allows: between quotes,
between apostrophes, between three quotes, between three apostrophes, and with escapes if none of
these will do.
-/

namespace DaoGovernance.Toml

open Text

def longestRun (c : Char) : List Char → Nat
  | [] => 0
  | d :: ds =>
    if d = c then max ((d :: ds).takeWhile (· = c)).length (longestRun c ds) else longestRun c ds

def needsCode (c : Char) : Bool :=
  (c.toNat < 0x20 && c ≠ tab && c ≠ newline) || c.toNat = 0x7F

def codeEscape (c : Char) : List Char :=
  backslash :: 'u' :: (hexFour c.toNat).map Char.toUpper

def escapeChar (c : Char) : List Char :=
  if c = backspace then [backslash, 'b']
  else if c = tab then [backslash, 't']
  else if c = formFeed then [backslash, 'f']
  else if c = carriageReturn then [backslash, 'r']
  else if c = backslash then [backslash, backslash]
  else if needsCode c then codeEscape c
  else [c]

def escapeInLine (c : Char) : List Char :=
  if c = quote then [backslash, quote] else if c = newline then [backslash, 'n'] else escapeChar c

/-- On several lines, only every third quote of a run is escaped. -/
def escapeLines (run : Nat) : List Char → List Char
  | [] => []
  | c :: cs =>
    if c = quote then
      if run < 2 then c :: escapeLines (run + 1) cs
      else backslash :: quote :: escapeLines 0 cs
    else escapeChar c ++ escapeLines 0 cs

def three (delimiter : Char) : List Char := List.replicate 3 delimiter

def wrapLines (delimiter : Char) (cs body : List Char) : List Char :=
  three delimiter ++ (if cs.contains newline then [newline] else []) ++ body ++ three delimiter

def stringChars (cs : List Char) : List Char :=
  let coded := cs.any needsCode
  let lines := cs.contains newline
  let quotes := longestRun quote cs
  let apostrophes := longestRun apostrophe cs
  if !coded && !cs.contains backslash && quotes = 0 && !lines then
    quote :: (cs.flatMap escapeInLine ++ [quote])
  else if !coded && apostrophes = 0 && !lines then apostrophe :: (cs ++ [apostrophe])
  else if !coded && !cs.contains backslash && quotes ≤ 2 then
    wrapLines quote cs (escapeLines 0 cs)
  else if !coded && apostrophes ≤ 2 then wrapLines apostrophe cs cs
  else if lines then wrapLines quote cs (escapeLines 0 cs)
  else quote :: (cs.flatMap escapeInLine ++ [quote])

def stringText (s : String) : String := .ofList (stringChars s.toList)

def line (key value : String) : String := key ++ " = " ++ value ++ "\n"

end DaoGovernance.Toml
