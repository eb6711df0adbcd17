import Cofferwire.Library.Reader
import Cofferwire.Types.Queue

namespace Cofferwire.Codec

inductive DecodeError
  | frameTooLarge (actual : Nat)
  | truncated (offset : Nat)
  | reservedVersion
  | unsupportedVersion (version : UInt8) (requestId : RequestId)
  | nonCanonicalArgument (offset : Nat)
  | unexpectedType (offset : Nat) (expected : String)
  | wrongArrayLength (field : String) (expected actual : UInt64)
  | wrongByteStringLength (field : String) (expected actual : Nat)
  | byteStringTooLarge (field : String) (max : Nat) (actual : UInt64)
  | invalidValue (field : String) (value : UInt64)
  | trailingBytes (offset : Nat)
  | invalidProtocolValue (error : TypeError)
deriving DecidableEq, Repr

abbrev Decoder := Cursor UInt8

abbrev Decode := Reader DecodeError UInt8

-- Lifts a type's own validation into the decoder, i.e. `?` on a `TypeError`.
def validate (x : Except TypeError α) : Decode α :=
  liftM (x.mapError DecodeError.invalidProtocolValue)

namespace Decoder

def byte : Decode UInt8 :=
  Reader.item .truncated

-- An argument behind a lead byte which announces `width` more bytes.
def wide (start width : Nat) (minimum : UInt64) : Decode UInt64 := do
  let value := UInt64.ofNat <| BigEndian.decode <| ← Reader.items width .truncated
  if value < minimum then
    throw (.nonCanonicalArgument start)
  else
    return value

def argument (expectedMajor : UInt8) (expected : String) : Decode UInt64 := do
  let start := (← get).offset
  let initial ← byte
  if initial >>> 5 ≠ expectedMajor then
    throw (.unexpectedType start expected)
  else
    let additional := initial &&& 0x1f
    if additional ≤ 23 then
      return additional.toUInt64
    else if additional = 24 then
      wide start 1 24
    else if additional = 25 then
      wide start 2 256
    else if additional = 26 then
      wide start 4 65536
    else if additional = 27 then
      wide start 8 4294967296
    else
      throw (.unexpectedType start expected)

def unsigned (field : String) : Decode UInt64 :=
  argument 0 field

def arrayLength : Decode UInt64 :=
  argument 4 "definite-length array"

def array (field : String) (expected : UInt64) : Decode Unit := do
  let actual ← arrayLength
  if actual ≠ expected then
    throw (.wrongArrayLength field expected actual)
  else
    return ()

-- On a 64-bit target a `u64` length always fits a `usize`, and below `max` it cannot overflow the
-- offset. So the source's two further checks never fire.
def bytes (field : String) (max : Nat) : Decode Bytes := do
  let length ← argument 2 "definite-length byte string"
  if length.toNat > max then
    throw (.byteStringTooLarge field max length)
  else
    Reader.take length.toNat .truncated

end Decoder

def encodeArgument (major : UInt8) (value : UInt64) : Bytes :=
  let lead := major <<< 5
  if value ≤ 23 then
    [lead ||| value.toUInt8]
  else if value ≤ 0xff then
    (lead ||| 24) :: BigEndian.encode 1 value.toNat
  else if value ≤ 0xffff then
    (lead ||| 25) :: BigEndian.encode 2 value.toNat
  else if value ≤ 0xffffffff then
    (lead ||| 26) :: BigEndian.encode 4 value.toNat
  else
    (lead ||| 27) :: BigEndian.encode 8 value.toNat

def encodeUnsigned (value : UInt64) : Bytes :=
  encodeArgument 0 value

def encodeArray (length : UInt64) : Bytes :=
  encodeArgument 4 length

def encodeBytes (bytes : Bytes) : Bytes :=
  encodeArgument 2 (.ofNat bytes.length) ++ bytes

end Cofferwire.Codec
