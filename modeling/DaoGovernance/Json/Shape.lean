import DaoGovernance.Amount
import DaoGovernance.Json.Basic
import DaoGovernance.Text.Digits

/-!
Shapes: how values of a type are written as JSON and read from it.  A record is written as an
object, and read from an object in any order of its fields or from an array of them in order.
Members of other names are ignored, a field may not come twice.
-/

namespace DaoGovernance.Json

structure Shape (α : Type) where
  write : α → Json
  read : Json → Option α

namespace Shape

variable {α β : Type}

def text : Shape String where
  write s := .string (some s)
  read
    | .string s => s
    | _ => none

def nat : Shape Nat where
  write n := .number (Text.digits n)
  read
    | .number ds => if ds.all Char.isDigit then some (Text.value ds) else none
    | _ => none

def refine (s : Shape α) (check : α → Option β) (g : β → α) : Shape β where
  write b := s.write (g b)
  read v :=
    match s.read v with
    | some a => check a
    | none => none

def iso (s : Shape α) (f : α → β) (g : β → α) : Shape β := s.refine (fun a => some (f a)) g

def below (bound n : Nat) : Option Nat := if n < bound then some n else none

def uint8 : Shape UInt8 := nat.refine (fun n => UInt8.ofNat <$> below UInt8.size n) UInt8.toNat

def uint64 : Shape UInt64 := nat.refine (fun n => UInt64.ofNat <$> below UInt64.size n) UInt64.toNat

def amount : Shape Amount := nat.refine Amount.ofNat? BitVec.toNat

def readAll (read : Json → Option α) : List Json → Option (List α)
  | [] => some []
  | v :: vs =>
    match read v with
    | none => none
    | some a =>
      match readAll read vs with
      | none => none
      | some as => some (a :: as)

def list (s : Shape α) : Shape (List α) where
  write as := .array (as.map s.write)
  read
    | .array vs => readAll s.read vs
    | _ => none

/-- One of the listed values by its name, alone or as the only member of an object, of value
null. -/
def choice (values : List α) (name : α → String) : Shape α where
  write a := .string (some (name a))
  read
    | .string (some s) => values.find? fun a => name a = s
    | .object [(some s, .null)] => values.find? fun a => name a = s
    | _ => none

end Shape

/-- The fields of a record.  Reading takes the values of the named members in order, with `none`
for a member that is missing, and leaves the rest. -/
structure Fields (α : Type) where
  names : List String
  write : α → List Json
  read : List (Option Json) → Option (α × List (Option Json))

namespace Fields

variable {α β : Type}

def required (name : String) (s : Shape α) : Fields α where
  names := [name]
  write a := [s.write a]
  read
    | some v :: vs => (·, vs) <$> s.read v
    | _ => none

def optional (name : String) (s : Shape α) (default : α) : Fields α where
  names := [name]
  write a := [s.write a]
  read
    | some v :: vs => (·, vs) <$> s.read v
    | none :: vs => some (default, vs)
    | [] => none

def pair (f : Fields α) (g : Fields β) : Fields (α × β) where
  names := f.names ++ g.names
  write p := f.write p.1 ++ g.write p.2
  read vs :=
    match f.read vs with
    | none => none
    | some (a, vs) =>
      match g.read vs with
      | none => none
      | some (b, vs) => some ((a, b), vs)

def iso (f : Fields α) (g : α → β) (h : β → α) : Fields β where
  names := f.names
  write b := f.write (h b)
  read vs :=
    match f.read vs with
    | some (a, vs) => some (g a, vs)
    | none => none

end Fields

def valuesOf (name : String) : List (Option String × Json) → List Json
  | [] => []
  | (n, v) :: ms => if n = some name then v :: valuesOf name ms else valuesOf name ms

def pick (ms : List (Option String × Json)) : List String → Option (List (Option Json))
  | [] => some []
  | n :: ns =>
    match valuesOf n ms with
    | _ :: _ :: _ => none
    | vs => (vs.head? :: ·) <$> pick ms ns

def align : List Json → List String → Option (List (Option Json))
  | [], ns => some (ns.map fun _ => none)
  | _ :: _, [] => none
  | v :: vs, _ :: ns => (some v :: ·) <$> align vs ns

namespace Fields

variable {α : Type}

def readWhole (f : Fields α) (vs : List (Option Json)) : Option α := Prod.fst <$> f.read vs

def shape (f : Fields α) : Shape α where
  write a := .object ((f.names.map some).zip (f.write a))
  read
    | .object ms =>
      if ms.all fun m => m.1.isSome then
        match pick ms f.names with
        | some vs => f.readWhole vs
        | none => none
      else none
    | .array items =>
      match align items f.names with
      | some vs => f.readWhole vs
      | none => none
    | _ => none

end Fields

end DaoGovernance.Json
