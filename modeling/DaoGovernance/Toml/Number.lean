import DaoGovernance.Text.Digits
import DaoGovernance.Text.Mark
import DaoGovernance.Text.Scan
import DaoGovernance.Toml.Basic

/-!
Numbers and points in time of TOML.  Integers have 64 bits; a float must not be too large for a
double; a date must be one of the calendar.
-/

namespace DaoGovernance.Toml

open Text

def digitRun (isDigit : Char → Bool) : Scan (List Char) := do
  let first ← Scan.char isDigit
  let rest ← Scan.many (do
    Scan.optional (Scan.word "_") ()
    Scan.char isDigit)
  return first :: rest

def decimalRun : Scan (List Char) := digitRun Char.isDigit

def wholeRun : Scan (List Char) := do
  if ← Scan.sees "0" then
    Scan.word "0"
    return ['0']
  else decimalRun

def sign : Scan (List Char) :=
  (do Scan.word "+"; return ['+']) <|> (do Scan.word "-"; return ['-']) <|> pure []

def ofInt? (i : Int) : Option Toml :=
  if -maxInteger ≤ i + 1 ∧ i ≤ maxInteger then some (.integer i) else none

def digitBelow (base : Nat) (c : Char) : Bool :=
  match hexValue? c with
  | some d => d < base
  | none => false

def valueIn (base : Nat) (ds : List Char) : Nat :=
  ds.foldl (fun n c => base * n + (hexValue? c).getD 0) 0

def based (mark : String) (base : Nat) : Scan Toml := do
  Scan.word mark
  Scan.ofOption (ofInt? (valueIn base (← digitRun (digitBelow base))))

def decimalInteger : Scan Toml := do
  let s ← sign
  let n := Int.ofNat (Text.value (← wholeRun))
  Scan.ofOption (ofInt? (if s = ['-'] then -n else n))

def scanInteger : Scan Toml := based "0x" 16 <|> based "0o" 8 <|> based "0b" 2 <|> decimalInteger

def overflowBound : Nat := 1 <<< 1024 - 1 <<< 970

/-- Whether digits times a power of ten are too large.  Exponents far from the bound decide by the
number of digits. -/
def overflows (ds : List Char) (exponent : Int) : Bool :=
  let m := Text.value ds
  let magnitude := (Text.digits m).length + exponent
  if m = 0 || magnitude < 300 then false
  else if 320 < magnitude then true
  else if 0 ≤ exponent then overflowBound ≤ m * Nat.pow 10 exponent.toNat
  else overflowBound * Nat.pow 10 (-exponent).toNat ≤ m

def exponentPart : Scan Int := do
  discard (Scan.char fun c => c = 'e' || c = 'E')
  let s ← sign
  let n := Int.ofNat (Text.value (← decimalRun))
  return if s = ['-'] then -n else n

def fractionPart : Scan (List Char) := do
  Scan.word "."
  decimalRun

def finiteFloat (s whole fraction : List Char) (exponent : Int) : Scan Toml :=
  if s ≠ ['-'] && overflows (whole ++ fraction) (exponent - fraction.length) then Scan.refuse
  else return .float (s ++ whole ++ '.' :: fraction ++ 'e' :: (toString exponent).toList)

def scanFloat : Scan Toml := do
  let s ← sign
  let whole ← wholeRun
  (do
    let fraction ← fractionPart
    finiteFloat s whole fraction (← Scan.optional exponentPart 0)) <|>
  (do finiteFloat s whole [] (← exponentPart))

def scanSpecial : Scan Toml := do
  let s ← sign
  (do Scan.word "inf"; return .float (s ++ "inf".toList)) <|>
  (do Scan.word "nan"; return .float (s ++ "nan".toList))

def clock (width low high : Nat) : Scan Nat := do
  let n := Text.value (← Scan.exactly Char.isDigit width)
  if low ≤ n ∧ n ≤ high then return n else Scan.refuse

def isLeapYear (y : Nat) : Bool := y % 4 = 0 && (y % 100 ≠ 0 || y % 400 = 0)

def daysInMonth (y m : Nat) : Nat :=
  if m = 2 then (if isLeapYear y then 29 else 28)
  else if m = 4 || m = 6 || m = 9 || m = 11 then 30
  else 31

def date : Scan Unit := do
  let y ← clock 4 0 9999
  Scan.word "-"
  let m ← clock 2 1 12
  Scan.word "-"
  discard (clock 2 1 (daysInMonth y m))

def time : Scan Unit := do
  discard (clock 2 0 23)
  Scan.word ":"
  discard (clock 2 0 59)
  Scan.word ":"
  discard (clock 2 0 60)
  Scan.optional (do
    Scan.word "."
    discard (Scan.span1 Char.isDigit)) ()

def zone : Scan Unit :=
  Scan.word "Z" <|> Scan.word "z" <|> (do
    discard (Scan.char fun c => c = '+' || c = '-')
    discard (clock 2 0 23)
    Scan.word ":"
    discard (clock 2 0 59))

def scanDateTime : Scan Toml :=
  (do
    date
    Scan.optional (do
      discard (Scan.char fun c => c = 'T' || c = 't' || c = ' ')
      time
      Scan.optional zone ()) ()
    return .dateTime) <|>
  (do
    time
    return .dateTime)

def scanNumber : Scan Toml := scanDateTime <|> scanFloat <|> scanSpecial <|> scanInteger

end DaoGovernance.Toml
