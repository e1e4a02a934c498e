/-!
What is wrong with a value that was read or configured, by the kind of value.
-/

namespace DaoGovernance

inductive InvalidValue
  | address (text : String)
  | denom (text : String)
  | coins (reason : String)
  | decimal (text : String)
  | params (reason : String)
  deriving DecidableEq

def InvalidValue.message : InvalidValue → String
  | .address s => "invalid account address: " ++ s
  | .denom s => "invalid denom: " ++ s
  | .coins s => "invalid coins: " ++ s
  | .decimal s => "invalid decimal: " ++ s
  | .params s => "invalid params: " ++ s

end DaoGovernance
