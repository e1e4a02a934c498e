import DaoGovernance.Codec

/-!
Keys of the tables.  Numbers are big-endian, so that the order of bytes is the order of numbers.
In front of a lot's voter stands its length, so that a scan for one voter meets no longer one.
-/

namespace DaoGovernance

inductive KeyError
  | idLength (length : Nat)
  | voteKeyTooShort
  | emptyLotKey
  | lotKeyLength (announced rest : Nat)
  | notUtf8 (fault : Text.Utf8.Fault)
  | voter (error : InvalidValue)
  deriving DecidableEq

def KeyError.message : KeyError → String
  | .idLength n => "expected 8-byte id, got " ++ Text.decimal n
  | .voteKeyTooShort => "vote key too short"
  | .emptyLotKey => "empty lot key"
  | .lotKeyLength n m => "lot key length mismatch: prefix says " ++ Text.decimal n ++ ", have " ++
      Text.decimal m
  | .notUtf8 f => f.message
  | .voter e => e.message

namespace Key

def ofId (id : UInt64) : Bytes := (littleEndian 8 id.toNat).reverse

def ofVote (id : UInt64) (voter : Address) : Bytes := ofId id ++ Text.toBytes voter.text

def ofVoter (voter : Address) : Bytes :=
  let bs := Text.toBytes voter.text
  .ofNat bs.length :: bs

def ofLot (voter : Address) (id : UInt64) : Bytes := ofVoter voter ++ ofId id

def toId (bs : Bytes) : Except KeyError UInt64 :=
  if bs.length = 8 then .ok (.ofNat (ofLittleEndian bs.reverse)) else .error (.idLength bs.length)

def toVoter (bs : Bytes) : Except KeyError Address :=
  match Text.ofBytes bs with
  | .error f => .error (.notUtf8 f)
  | .ok s =>
    match Address.parse s with
    | .error e => .error (.voter e)
    | .ok a => .ok a

def toVote (bs : Bytes) : Except KeyError (UInt64 × Address) :=
  if bs.length ≤ 8 then .error .voteKeyTooShort
  else do
    let id ← toId (bs.take 8)
    let voter ← toVoter (bs.drop 8)
    return (id, voter)

def toLot : Bytes → Except KeyError (Address × UInt64)
  | [] => .error .emptyLotKey
  | n :: bs =>
    if bs.length ≠ n.toNat + 8 then .error (.lotKeyLength n.toNat bs.length)
    else do
      let voter ← toVoter (bs.take n.toNat)
      let id ← toId (bs.drop n.toNat)
      return (voter, id)

end Key

end DaoGovernance
