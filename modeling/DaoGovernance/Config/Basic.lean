import DaoGovernance.Keeper
import DaoGovernance.LogFormat

/-!
The configuration of a host.
-/

namespace DaoGovernance

structure Config where
  authority : String
  moduleAccount : String
  logFormat : LogFormat
  logLevel : String
  dataDir : String
  mapSize : UInt64
  genesisFile : Option String
  deriving DecidableEq

namespace Config

def new (authority : String) : Config where
  authority := authority
  moduleAccount := Keeper.defaultAccount
  logFormat := .human
  logLevel := "info"
  dataDir := "./dnsdao_data"
  mapSize := 1073741824
  genesisFile := none

def validate (c : Config) : Except GovernanceError Unit :=
  if !Address.isValid c.authority then .error (.config (.authority c.authority))
  else if Text.isBlankText c.moduleAccount then .error (.config .noModuleAccount)
  else if c.mapSize = 0 then .error (.config .noMapSize)
  else .ok ()

end Config

end DaoGovernance
