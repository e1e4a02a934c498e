/-!
Scanners: each takes a part of a text from its front and leaves the rest, or refuses.
-/

namespace DaoGovernance.Text

abbrev Scan := StateT (List Char) Option

namespace Scan

variable {α β : Type}

def refuse : Scan α := fun _ => none

def ofOption : Option α → Scan α
  | some a => pure a
  | none => refuse

def span (p : Char → Bool) : Scan (List Char) := fun cs => some (cs.takeWhile p, cs.dropWhile p)

def span1 (p : Char → Bool) : Scan (List Char) := do
  let cs ← span p
  if cs.isEmpty then refuse else return cs

def char (p : Char → Bool) : Scan Char
  | [] => none
  | c :: cs => if p c then some (c, cs) else none

def exactly (p : Char → Bool) : Nat → Scan (List Char)
  | 0 => return []
  | n + 1 => return (← char p) :: (← exactly p n)

def word (w : String) : Scan Unit := fun cs =>
  if w.toList.isPrefixOf cs then some ((), cs.drop w.length) else none

def sees (w : String) : Scan Bool := fun cs => some (w.toList.isPrefixOf cs, cs)

def atEnd : Scan Bool := fun cs => some (cs.isEmpty, cs)

def optional (s : Scan α) (default : α) : Scan α := fun cs =>
  match s cs with
  | some r => some r
  | none => some (default, cs)

def repeatUpTo (s : Scan α) : Nat → Scan (List α)
  | 0 => return []
  | n + 1 => fun cs =>
    match s cs with
    | none => some ([], cs)
    | some (a, r) => ((a :: ·) <$> repeatUpTo s n) r

/-- Scans as often as it goes, for a scanner that takes a character at least. -/
def many (s : Scan α) : Scan (List α) := fun cs => repeatUpTo s cs.length cs

def separated1 (s : Scan α) (separator : Scan Unit) : Scan (List α) :=
  return (← s) :: (← many (do separator; s))

def separated (s : Scan α) (separator : Scan Unit) : Scan (List α) :=
  optional (separated1 s separator) []

def whole (s : Scan α) (text : String) : Option α :=
  match s text.toList with
  | some (a, []) => some a
  | _ => none

end Scan

end DaoGovernance.Text
