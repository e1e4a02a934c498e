/-!
UTF-8: one to four bytes a character, least significant bits last.  Reading refuses bytes that
no character is written as, and says where the last whole character ended and how many bytes
after it can not begin a character.
-/

namespace DaoGovernance

abbrev Bytes := List UInt8

namespace Text.Utf8

/-- Why bytes are no text.  `index` counts the bytes of the whole characters before the fault. -/
inductive Fault
  | invalid (length index : Nat)
  | incomplete (index : Nat)
  deriving DecidableEq

def encodeChar (c : Char) : Bytes :=
  let n := c.toNat
  if n < 0x80 then [.ofNat n]
  else if n < 0x800 then [.ofNat (0xC0 + n / 0x40), .ofNat (0x80 + n % 0x40)]
  else if n < 0x10000 then
    [.ofNat (0xE0 + n / 0x1000), .ofNat (0x80 + n / 0x40 % 0x40), .ofNat (0x80 + n % 0x40)]
  else
    [.ofNat (0xF0 + n / 0x40000), .ofNat (0x80 + n / 0x1000 % 0x40),
      .ofNat (0x80 + n / 0x40 % 0x40), .ofNat (0x80 + n % 0x40)]

def encode (cs : List Char) : Bytes := cs.flatMap encodeChar

def isTail (b : UInt8) : Bool := 0x80 ≤ b && b < 0xC0

def isSecondOfThree (a b : UInt8) : Bool :=
  if a = 0xE0 then 0xA0 ≤ b && b < 0xC0
  else if a = 0xED then 0x80 ≤ b && b < 0xA0
  else isTail b

def isSecondOfFour (a b : UInt8) : Bool :=
  if a = 0xF0 then 0x90 ≤ b && b < 0xC0
  else if a = 0xF4 then 0x80 ≤ b && b < 0x90
  else isTail b

def bits (b : UInt8) : Nat := b.toNat % 0x40

def two (a b : UInt8) : Char := .ofNat (a.toNat % 0x20 * 0x40 + bits b)

def three (a b c : UInt8) : Char := .ofNat ((a.toNat % 0x10 * 0x40 + bits b) * 0x40 + bits c)

def four (a b c d : UInt8) : Char :=
  .ofNat (((a.toNat % 0x08 * 0x40 + bits b) * 0x40 + bits c) * 0x40 + bits d)

def decodeFrom (i : Nat) : Bytes → Except Fault (List Char)
  | [] => .ok []
  | a :: r =>
    if a < 0x80 then (Char.ofNat a.toNat :: ·) <$> decodeFrom (i + 1) r
    else if 0xC2 ≤ a && a < 0xE0 then
      match r with
      | [] => .error (.incomplete i)
      | b :: r =>
        if !isTail b then .error (.invalid 1 i)
        else (two a b :: ·) <$> decodeFrom (i + 2) r
    else if 0xE0 ≤ a && a < 0xF0 then
      match r with
      | [] => .error (.incomplete i)
      | b :: r =>
        if !isSecondOfThree a b then .error (.invalid 1 i)
        else match r with
          | [] => .error (.incomplete i)
          | c :: r =>
            if !isTail c then .error (.invalid 2 i)
            else (three a b c :: ·) <$> decodeFrom (i + 3) r
    else if 0xF0 ≤ a && a < 0xF5 then
      match r with
      | [] => .error (.incomplete i)
      | b :: r =>
        if !isSecondOfFour a b then .error (.invalid 1 i)
        else match r with
          | [] => .error (.incomplete i)
          | c :: r =>
            if !isTail c then .error (.invalid 2 i)
            else match r with
              | [] => .error (.incomplete i)
              | d :: r =>
                if !isTail d then .error (.invalid 3 i)
                else (four a b c d :: ·) <$> decodeFrom (i + 4) r
    else .error (.invalid 1 i)

def decode (bs : Bytes) : Except Fault (List Char) := decodeFrom 0 bs

end Text.Utf8

namespace Text

def toBytes (s : String) : Bytes := Utf8.encode s.toList

def ofBytes (bs : Bytes) : Except Utf8.Fault String := String.ofList <$> Utf8.decode bs

end Text

end DaoGovernance
