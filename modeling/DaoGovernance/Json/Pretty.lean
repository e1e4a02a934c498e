import DaoGovernance.Json.Basic
import DaoGovernance.Text.Mark

/-!
Writing JSON with one item a line and two blanks for every level of nesting.
-/

namespace DaoGovernance.Json

open Text

def escapeChar (c : Char) : List Char :=
  if c = quote || c = backslash then [backslash, c]
  else if c = backspace then [backslash, 'b']
  else if c = formFeed then [backslash, 'f']
  else if c = newline then [backslash, 'n']
  else if c = carriageReturn then [backslash, 'r']
  else if c = tab then [backslash, 't']
  else if c.toNat < 0x20 then backslash :: 'u' :: hexFour c.toNat
  else [c]

def quoted (s : String) : List Char := quote :: (s.toList.flatMap escapeChar ++ [quote])

/-- A string without a value is written as an empty one. -/
def textChars (s : Option String) : List Char := quoted (s.getD "")

def line (level : Nat) : List Char := newline :: List.replicate (2 * level) ' '

mutual

def chars (level : Nat) : Json → List Char
  | .null => "null".toList
  | .bool true => "true".toList
  | .bool false => "false".toList
  | .number ds => ds
  | .string s => textChars s
  | .array [] => [openBracket, closeBracket]
  | .array (v :: vs) =>
    openBracket :: (line (level + 1) ++ chars (level + 1) v ++ itemChars (level + 1) vs ++
      line level ++ [closeBracket])
  | .object [] => [openBrace, closeBrace]
  | .object ((n, v) :: ms) =>
    openBrace :: (line (level + 1) ++ textChars n ++ [':', ' '] ++ chars (level + 1) v ++
      memberChars (level + 1) ms ++ line level ++ [closeBrace])

def itemChars (level : Nat) : List Json → List Char
  | [] => []
  | v :: vs => ',' :: (line level ++ chars level v ++ itemChars level vs)

def memberChars (level : Nat) : List (Option String × Json) → List Char
  | [] => []
  | (n, v) :: ms =>
    ',' :: (line level ++ textChars n ++ [':', ' '] ++ chars level v ++ memberChars level ms)

end

def pretty (v : Json) : String := .ofList (chars 0 v)

end DaoGovernance.Json
