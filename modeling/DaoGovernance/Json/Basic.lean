/-!
JSON values as they are written: numbers by their text and objects with all their members in
order, names that occur twice included.  A string that is no Unicode text, for a surrogate that
stands alone, has no value.
-/

namespace DaoGovernance

inductive Json
  | null
  | bool (b : Bool)
  | number (text : List Char)
  | string (text : Option String)
  | array (items : List Json)
  | object (members : List (Option String × Json))

end DaoGovernance
