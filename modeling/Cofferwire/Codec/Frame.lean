import Cofferwire.Codec.Cbor

namespace Cofferwire.Codec

-- The two profiles' codecs share the functions of this module. They only differ in the size limit.

def preambleBytes : Nat := 17

def version : UInt8 := 1

def encodePreamble (requestId : RequestId) : Bytes :=
  version :: requestId.asBytes.toBytes

def decodePreambleWithin (maxBytes : Nat) (bytes : Bytes) : Except DecodeError RequestId :=
  if bytes.length > maxBytes then
    .error (.frameTooLarge bytes.length)
  else if h : bytes.length < preambleBytes then
    .error (.truncated bytes.length)
  else
    have nonempty : 0 < bytes.length := by simp [preambleBytes] at h; omega
    have size : ((bytes.drop 1).take 16).length = 16 := by simp [preambleBytes] at *; omega
    let received := bytes[0]
    let requestId := ⟨_, size⟩
    if received = 0 then
      .error .reservedVersion
    else if received ≠ version then
      .error (.unsupportedVersion received ⟨requestId⟩)
    else
      .ok ⟨requestId⟩

def finish (decoder : Decoder) (bytes : Bytes) : Except DecodeError Unit :=
  if decoder.offset = bytes.length then .ok () else .error (.trailingBytes decoder.offset)

def expectValue (field : String) (expected : UInt64) : Decode Unit := do
  let value ← Decoder.unsigned field
  if value = expected then
    return ()
  else
    throw (.invalidValue field value)

def encodeId (id : ByteVec 32) : Bytes :=
  encodeBytes id.toBytes

def fixedBytes (n : Nat) (field : String) : Decode (ByteVec n) := do
  let bytes ← Decoder.bytes field n
  if h : bytes.length = n then
    return ⟨bytes, h⟩
  else
    throw (.wrongByteStringLength field n bytes.length)

-- Narrows a `u64` to a `u8`.
def u8TryFrom (value : UInt64) : Option UInt8 :=
  if value ≤ 0xff then some value.toUInt8 else none

end Cofferwire.Codec
