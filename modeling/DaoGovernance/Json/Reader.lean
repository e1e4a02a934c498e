import DaoGovernance.Json.Basic
import DaoGovernance.Json.Token

/-!
Reading a JSON value from tokens, one token at a time: the values that are open stand on a stack,
so nesting has no limit.
-/

namespace DaoGovernance.Json

abbrev Members := List (Option String × Json)

/-- A value that is not closed yet, with what it holds so far, the last first.  An object waits
for the value of a member. -/
inductive Frame
  | array (items : List Json)
  | object (members : Members) (name : Option String)

inductive State
  | value (stack : List Frame)
  | firstItem (stack : List Frame)
  | firstName (stack : List Frame)
  | nextName (members : Members) (stack : List Frame)
  | colon (members : Members) (name : Option String) (stack : List Frame)
  | closed (value : Json) (stack : List Frame)

def begin (fs : List Frame) : Token → Option State
  | .null => some (.closed .null fs)
  | .bool b => some (.closed (.bool b) fs)
  | .number n => some (.closed (.number n) fs)
  | .string s => some (.closed (.string s) fs)
  | .openArray => some (.firstItem fs)
  | .openObject => some (.firstName fs)
  | _ => none

def proceed (v : Json) : List Frame → Token → Option State
  | .array vs :: fs, .comma => some (.value (.array (v :: vs) :: fs))
  | .array vs :: fs, .closeArray => some (.closed (.array (v :: vs).reverse) fs)
  | .object ms n :: fs, .comma => some (.nextName ((n, v) :: ms) fs)
  | .object ms n :: fs, .closeObject => some (.closed (.object ((n, v) :: ms).reverse) fs)
  | _, _ => none

def State.step : State → Token → Option State
  | .value fs, t => begin fs t
  | .firstItem fs, .closeArray => some (.closed (.array []) fs)
  | .firstItem fs, t => begin (.array [] :: fs) t
  | .firstName fs, .closeObject => some (.closed (.object []) fs)
  | .firstName fs, .string n => some (.colon [] n fs)
  | .nextName ms fs, .string n => some (.colon ms n fs)
  | .colon ms n fs, .colon => some (.value (.object ms n :: fs))
  | .closed v fs, t => proceed v fs t
  | _, _ => none

def run : State → List Token → Option State
  | s, [] => some s
  | s, t :: ts =>
    match s.step t with
    | some s => run s ts
    | none => none

def parse (s : String) : Option Json := do
  let ts ← tokens s
  match ← run (.value []) ts with
  | .closed v [] => some v
  | _ => none

end DaoGovernance.Json
