import DaoGovernance.Text.Blank
import DaoGovernance.Text.Digits

/-!
Top-level labels of the name system: how a proposed label is normalised, what a label may look
like, and which labels are taken for good.
-/

namespace DaoGovernance

namespace Label

def maxLength : Nat := 63

def reserved : List String := [
  "com", "org", "net", "gov", "edu", "mil", "int", "info", "biz", "name", "pro", "aero",
  "coop", "mobi", "cat", "jobs", "tel", "asia", "xyz", "club", "site", "online", "tech",
  "store", "app",
  "io", "co", "us", "uk", "de", "jp", "cn", "in", "br", "ca", "au", "fr", "ru", "it", "es",
  "mx", "ch", "nl", "se", "no", "fi", "dk", "pl", "ar", "at", "be", "kr", "sg", "za",
  "academy", "agency", "accountant", "ai", "bitcoin", "blockchain", "camera", "coffee",
  "company", "computer", "construction", "contact", "cool", "credit", "cruise", "dance",
  "data", "design", "diamond", "digital", "direct", "directory", "discount", "doctor", "dog",
  "domains", "email", "energy", "engineer", "enterprises", "equipment", "estate", "events",
  "expert", "express", "farm", "fashion", "finance", "fitness", "flights", "flowers",
  "foundation", "fund", "furniture", "futbol", "gallery", "gifts", "glass", "global",
  "graphics", "gratis", "green", "gripe", "guide", "guru", "health", "hockey", "holdings",
  "holiday", "home", "hospital", "hotel", "house", "immobilien", "industries", "institute",
  "insure", "international", "investments", "jewelry", "kitchen", "land", "lawyer", "lease",
  "legal", "life", "lighting", "limited", "limo", "link", "living", "loans", "london", "ltd",
  "luxury", "management", "marketing", "media", "medical", "men", "money", "movie", "music",
  "network", "news", "ninja", "partners",
  "example", "invalid", "local", "localhost", "test", "arpa"]

def normalize (s : String) : String :=
  Text.lower (.ofList (Text.strip (· = '.') s.toList))

def isReserved (s : String) : Bool := reserved.contains (normalize s)

def isLabelChar (c : Char) : Bool := c.isLower || c.isDigit || c = '-'

inductive Fault
  | empty
  | tooLong (label : String)
  | badCharacter (label : String)
  | hyphenAtEnd (label : String)
  | reserved (label : String)
  deriving DecidableEq

def quoted (label : String) : String := "TLD '" ++ label ++ "'"

def Fault.message : Fault → String
  | .empty => "TLD in proposal content cannot be empty"
  | .tooLong l => quoted l ++ " exceeds " ++ Text.decimal maxLength ++ " characters"
  | .badCharacter l => quoted l ++ " contains characters outside [a-z0-9-]"
  | .hyphenAtEnd l => quoted l ++ " cannot start or end with a hyphen"
  | .reserved l => quoted l ++ " is reserved by ICANN and cannot be proposed"

def check (label : String) : Except Fault Unit :=
  let cs := label.toList
  if cs.isEmpty then .error .empty
  else if maxLength < label.utf8ByteSize then .error (.tooLong label)
  else if !cs.all isLabelChar then .error (.badCharacter label)
  else if cs.head? = some '-' || cs.getLast? = some '-' then .error (.hyphenAtEnd label)
  else if isReserved label then .error (.reserved label)
  else .ok ()

end Label

end DaoGovernance
