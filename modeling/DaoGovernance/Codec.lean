import DaoGovernance.Address
import DaoGovernance.Amount
import DaoGovernance.Coins
import DaoGovernance.Decimal
import DaoGovernance.Height
import DaoGovernance.Text.Utf8

/-!
Binary record formats.  A codec writes a value and reads one from the front of its input, leaving
the rest.  Words are little-endian and of fixed width, texts and lists have their length in front
as a 64-bit word, a choice is a 32-bit index, and a record is its fields one after the other.
-/

namespace DaoGovernance

inductive DecodeError
  | endOfInput
  | textTooLong
  | notUtf8 (fault : Text.Utf8.Fault)
  | noVariant (index count : Nat)
  | value (error : InvalidValue)
  deriving DecidableEq

def Text.Utf8.Fault.message : Text.Utf8.Fault → String
  | .invalid n i => "invalid utf-8 sequence of " ++ decimal n ++ " bytes from index " ++ decimal i
  | .incomplete i => "incomplete utf-8 byte sequence from index " ++ decimal i

def DecodeError.message : DecodeError → String
  | .endOfInput => "io error: unexpected end of file"
  | .textTooLong => "io error: "
  | .notUtf8 f => "string is not valid utf8: " ++ f.message
  | .noVariant i n => "invalid value: integer `" ++ Text.decimal i ++
      "`, expected variant index 0 <= i < " ++ Text.decimal n
  | .value e => e.message

def littleEndian : Nat → Nat → Bytes
  | 0, _ => []
  | width + 1, n => .ofNat (n % 256) :: littleEndian width (n / 256)

def ofLittleEndian : Bytes → Nat
  | [] => 0
  | b :: bs => b.toNat + 256 * ofLittleEndian bs

def splitAt? {α : Type} : Nat → List α → Option (List α × List α)
  | 0, as => some ([], as)
  | _ + 1, [] => none
  | n + 1, a :: as =>
    match splitAt? n as with
    | some (bs, r) => some (a :: bs, r)
    | none => none

structure Codec (α : Type) where
  encode : α → Bytes
  decode : Bytes → Except DecodeError (α × Bytes)

namespace Codec

variable {α β : Type}

def byte : Codec UInt8 where
  encode b := [b]
  decode
    | [] => .error .endOfInput
    | b :: r => .ok (b, r)

def word (width : Nat) : Codec Nat where
  encode := littleEndian width
  decode bs :=
    match splitAt? width bs with
    | some (w, r) => .ok (ofLittleEndian w, r)
    | none => .error .endOfInput

def iso (c : Codec α) (f : α → β) (g : β → α) : Codec β where
  encode b := c.encode (g b)
  decode bs :=
    match c.decode bs with
    | .ok (a, r) => .ok (f a, r)
    | .error e => .error e

def refine (c : Codec α) (check : α → Except DecodeError β) (g : β → α) : Codec β where
  encode b := c.encode (g b)
  decode bs :=
    match c.decode bs with
    | .error e => .error e
    | .ok (a, r) =>
      match check a with
      | .error e => .error e
      | .ok b => .ok (b, r)

def pair (c : Codec α) (d : Codec β) : Codec (α × β) where
  encode p := c.encode p.1 ++ d.encode p.2
  decode bs :=
    match c.decode bs with
    | .error e => .error e
    | .ok (a, r) =>
      match d.decode r with
      | .error e => .error e
      | .ok (b, r) => .ok ((a, b), r)

def uint64 : Codec UInt64 := (word 8).iso .ofNat UInt64.toNat

def amount : Codec Amount := (word 16).iso (BitVec.ofNat 128) BitVec.toNat

def height : Codec Height := uint64.iso Height.mk Height.number

def decodeMany (c : Codec α) : Nat → Bytes → Except DecodeError (List α × Bytes)
  | 0, bs => .ok ([], bs)
  | n + 1, bs =>
    match c.decode bs with
    | .error e => .error e
    | .ok (a, r) =>
      match decodeMany c n r with
      | .error e => .error e
      | .ok (as, r) => .ok (a :: as, r)

def list (c : Codec α) : Codec (List α) where
  encode as := uint64.encode (.ofNat as.length) ++ as.flatMap c.encode
  decode bs :=
    match uint64.decode bs with
    | .error e => .error e
    | .ok (n, r) => decodeMany c n.toNat r

def bytes : Codec Bytes := list byte

def text : Codec String where
  encode s := let bs := Text.toBytes s; uint64.encode (.ofNat bs.length) ++ bs
  decode bs :=
    match uint64.decode bs with
    | .error e => .error e
    | .ok (n, r) =>
      match splitAt? n.toNat r with
      | none => .error .textTooLong
      | some (bs, r) =>
        match Text.ofBytes bs with
        | .error f => .error (.notUtf8 f)
        | .ok s => .ok (s, r)

/-- One of the listed values, as its position in the list. -/
def choice [DecidableEq α] (values : List α) : Codec α where
  encode a := (word 4).encode (values.idxOf a)
  decode bs :=
    match (word 4).decode bs with
    | .error e => .error e
    | .ok (i, r) =>
      match values[i]? with
      | some a => .ok (a, r)
      | none => .error (.noVariant i values.length)

def checked (f : α → Except InvalidValue β) (a : α) : Except DecodeError β :=
  match f a with
  | .ok b => .ok b
  | .error e => .error (.value e)

def address : Codec Address := text.refine (checked Address.parse) Address.text

def fraction : Codec Decimal := text.refine (checked Decimal.parse) Decimal.text

def coin : Codec Coin := (text.pair amount).iso (fun c => ⟨c.1, c.2⟩) fun c => (c.denom, c.amount)

def coins : Codec Coins := (list coin).iso Coins.mk Coins.list

def read (c : Codec α) (bs : Bytes) : Except DecodeError α :=
  match c.decode bs with
  | .ok (a, _) => .ok a
  | .error e => .error e

end Codec

end DaoGovernance
