import DaoGovernance.SortedMap

/-!
The registry of labels that are open for registration.
-/

namespace DaoGovernance

inductive RegistryError
  | alreadyPermitted (label : String)
  | backend (reason : String)
  deriving DecidableEq

def RegistryError.message : RegistryError → String
  | .alreadyPermitted l => "TLD '" ++ l ++ "' is already permitted"
  | .backend r => "registry backend: " ++ r

structure Registry where
  permitted : SortedMap String Unit
  failPermits : Bool

namespace Registry

def empty : Registry := ⟨.empty, false⟩

def isPermitted (r : Registry) (label : String) : Bool := r.permitted.contains label

def labels (r : Registry) : List String := r.permitted.keys

def preload (r : Registry) (label : String) : Registry :=
  { r with permitted := r.permitted.insert label () }

def permit (r : Registry) (label : String) : Except RegistryError Registry :=
  if r.failPermits then .error (.backend "injected permit failure")
  else if r.isPermitted label then .error (.alreadyPermitted label)
  else .ok (r.preload label)

end Registry

end DaoGovernance
