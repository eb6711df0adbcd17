import Cofferwire.Strict.Codec

-- The decoder of the codecs as it is mutated in place, also by calls which fail.
namespace Cofferwire.Strict.Mutable

open Codec (DecodeError)

abbrev Decode := MutableReader DecodeError UInt8

def byte : Decode UInt8 := do
  let decoder ← get
  match decoder.bytes[decoder.offset]? with
  | none       => throw (.truncated decoder.offset)
  | some value =>
    let offset ← add decoder.offset 1
    set { decoder with offset }
    return value

def byteArray : Nat → Decode Bytes
  | 0     => return []
  | n + 1 => return (← byte) :: (← byteArray n)

def wide (start width : Nat) (minimum : UInt64) : Decode UInt64 := do
  let value := UInt64.ofNat <| BigEndian.decode <| ← byteArray width
  if value < minimum then
    throw (.nonCanonicalArgument start)
  else
    return value

def argument (expectedMajor : UInt8) (expected : String) : Decode UInt64 := do
  let start := (← get).offset
  let initial ← byte
  if initial >>> 5 ≠ expectedMajor then
    throw (.unexpectedType start expected)
  else
    let additional := initial &&& 0x1f
    if additional ≤ 23 then
      return additional.toUInt64
    else if additional = 24 then
      wide start 1 24
    else if additional = 25 then
      wide start 2 256
    else if additional = 26 then
      wide start 4 65536
    else if additional = 27 then
      wide start 8 4294967296
    else
      throw (.unexpectedType start expected)

-- The length need not be below the limit by much, so its sum with the offset may overflow.
def bytes (field : String) (max : UInt64) : Decode Bytes := do
  let length ← argument 2 "definite-length byte string"
  if length > max then
    throw (.byteStringTooLarge field max.toNat length)
  else
    let decoder ← get
    match add decoder.offset length.toNat with
    | none     => throw (.byteStringTooLarge field max.toNat length)
    | some end' =>
      if decoder.offset ≤ end' ∧ end' ≤ decoder.bytes.length then
        set { decoder with offset := end' }
        return slice decoder.bytes decoder.offset end'
      else
        throw (.truncated decoder.offset)

end Cofferwire.Strict.Mutable
