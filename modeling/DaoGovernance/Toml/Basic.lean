/-!
TOML values, and the tables of a document as headers and dotted keys build them.  A table is
defined once: by a header, by a value, or by dotted keys under one header.
-/

namespace DaoGovernance

namespace Toml

inductive Origin
  | inline
  | header
  /-- The header of a table inside it. -/
  | implied
  | dotted
  deriving DecidableEq

end Toml

inductive Toml
  | string (s : String)
  | integer (i : Int)
  | float (text : List Char)
  | bool (b : Bool)
  | dateTime
  | array (items : List Toml)
  | table (origin : Toml.Origin) (members : List (String × Toml))
  | tables (items : List (List (String × Toml)))

namespace Toml

def maxInteger : Nat := 9223372036854775807

abbrev Table := List (String × Toml)

namespace Table

def get? (k : String) : Table → Option Toml
  | [] => none
  | (n, v) :: t => if n = k then some v else get? k t

def set (k : String) (v : Toml) : Table → Table
  | [] => [(k, v)]
  | (n, w) :: t => if n = k then (k, v) :: t else (n, w) :: set k v t

def originOnWay (isDotted : Bool) : Origin := if isDotted then .dotted else .implied

/-- Whether a path may go on through a table.  A value is closed, and a dotted key adds nothing to
a table with a header. -/
def mayEnter (isDotted : Bool) (o : Origin) : Bool :=
  o ≠ .inline && !(isDotted && o = .header)

/-- Changes the table at the end of a path.  In a list of tables the path goes through the last. -/
def change (isDotted : Bool) (f : Origin → Table → Option Table) (o : Origin) :
    List String → Table → Option Table
  | [], t => f o t
  | k :: ks, t =>
    match get? k t with
    | none => do
      let made := originOnWay isDotted
      return set k (.table made (← change isDotted f made ks [])) t
    | some (.table o inner) =>
      if mayEnter isDotted o then do
        return set k (.table o (← change isDotted f o ks inner)) t
      else none
    | some (.tables ts) => do
      let last ← ts.getLast?
      return set k (.tables (ts.dropLast ++ [← change isDotted f .header ks last])) t
    | some _ => none

def add (k : String) (v : Toml) (t : Table) : Option Table :=
  match get? k t with
  | none => some (set k v t)
  | some _ => none

def assign (path : List String) (k : String) (v : Toml) : Table → Option Table :=
  change true (fun o t => if path.isEmpty = (o = .dotted : Bool) then none else add k v t) .header
    path

def openTable (path : List String) (k : String) : Table → Option Table :=
  change false (fun _ t =>
    match get? k t with
    | none => some (set k (.table .header []) t)
    | some (.table .implied inner) => some (set k (.table .header inner) t)
    | some _ => none) .header path

def openNext (path : List String) (k : String) : Table → Option Table :=
  change false (fun _ t =>
    match get? k t with
    | none => some (set k (.tables [[]]) t)
    | some (.tables ts) => some (set k (.tables (ts ++ [[]])) t)
    | some _ => none) .header path

end Table

end Toml

end DaoGovernance
