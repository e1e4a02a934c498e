import DaoGovernance.Config.Basic
import DaoGovernance.Toml.Reader
import DaoGovernance.Toml.Writer

/-!
Configurations as TOML documents.  Every key but the authority has a default, and keys of other
names are ignored.
-/

namespace DaoGovernance

namespace Toml

def string? : Toml → Option String
  | .string s => some s
  | _ => none

def natural? : Toml → Option Nat
  | .integer (.ofNat n) => some n
  | _ => none

def isEmpty : Toml → Bool
  | .table _ [] | .array [] => true
  | _ => false

def name? : Toml → Option String
  | .string s => some s
  | .table _ [(k, v)] => if v.isEmpty then some k else none
  | _ => none

def Table.field {α : Type} (t : Table) (k : String) (read : Toml → Option α) (default : α) :
    Option α :=
  match t.get? k with
  | some v => read v
  | none => some default

end Toml

namespace Config

def ofTable (t : Toml.Table) : Option Config := do
  let authority ← (← t.get? "authority").string?
  let c := new authority
  return {
    authority
    moduleAccount := ← t.field "module_account" Toml.string? c.moduleAccount
    logFormat := ← t.field "log_format" (·.name?.bind LogFormat.ofName?) c.logFormat
    logLevel := ← t.field "log_level" Toml.string? c.logLevel
    dataDir := ← t.field "data_dir" Toml.string? c.dataDir
    mapSize := ← t.field "lmdb_map_size" (·.natural?.map .ofNat) c.mapSize
    genesisFile := ← t.field "genesis_file" (some <$> ·.string?) c.genesisFile }

def ofToml (s : String) : Except GovernanceError Config :=
  match Toml.parse s >>= ofTable with
  | none => .error (.config .malformed)
  | some c =>
    match c.validate with
    | .ok () => .ok c
    | .error e => .error e

def toToml (c : Config) : Except GovernanceError String :=
  if c.mapSize.toNat ≤ Toml.maxInteger then
    .ok (Toml.line "authority" (Toml.stringText c.authority) ++
      Toml.line "module_account" (Toml.stringText c.moduleAccount) ++
      Toml.line "log_format" (Toml.stringText c.logFormat.text) ++
      Toml.line "log_level" (Toml.stringText c.logLevel) ++
      Toml.line "data_dir" (Toml.stringText c.dataDir) ++
      Toml.line "lmdb_map_size" (Text.decimal c.mapSize.toNat) ++
      match c.genesisFile with
      | some f => Toml.line "genesis_file" (Toml.stringText f)
      | none => "")
  else .error (.config .unwritable)

end Config

end DaoGovernance
