import DaoGovernance.Text.Digits

/-!
What a store can fail with, and how the failures of a table file are reported by a store on it.
-/

namespace DaoGovernance

inductive StoreError
  | notFound (what : String)
  | backend (reason : String)
  | serialization (reason : String)
  | corruption (reason : String)
  deriving DecidableEq

def StoreError.message : StoreError → String
  | .notFound s => "key not found: " ++ s
  | .backend s => "storage backend error: " ++ s
  | .serialization s => "serialization error: " ++ s
  | .corruption s => "database is corrupted: " ++ s

def StoreError.idsExhausted : StoreError := .corruption "proposal id sequence exhausted"

inductive TableError
  | engine (reason : String)
  | notFound (what : String)
  | serialization (reason : String)
  | schemaVersion (found supported : UInt32)
  | file (reason : String)
  deriving DecidableEq

namespace TableError

def message : TableError → String
  | .engine s => "LMDB error: " ++ s
  | .notFound s => "key not found: " ++ s
  | .serialization s => "serialization error: " ++ s
  | .schemaVersion f s => "unsupported schema version " ++ Text.decimal f.toNat ++
      " (this build supports " ++ Text.decimal s.toNat ++ ")"
  | .file s => "io error: " ++ s

def toStoreError : TableError → StoreError
  | .serialization s => .serialization s
  | .notFound s => .notFound s
  | e => .backend e.message

end TableError

end DaoGovernance
