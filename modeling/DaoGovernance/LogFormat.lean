import DaoGovernance.Text.Blank

/-!
The two formats of the log.
-/

namespace DaoGovernance

inductive LogFormat
  | human
  | json
  deriving DecidableEq, Inhabited

namespace LogFormat

def text : LogFormat → String
  | .human => "human"
  | .json => "json"

def all : List LogFormat := [human, json]

def ofName? (s : String) : Option LogFormat := all.find? fun f => f.text = s

def parse (s : String) : Except String LogFormat :=
  match ofName? (Text.lower s) with
  | some f => .ok f
  | none => .error ("unknown log format: " ++ Text.lower s)

end LogFormat

end DaoGovernance
