import Cofferwire.Codec.Blob
import Cofferwire.Codec.Queue
import Cofferwire.Library.Checked

-- The codecs once more, where all operations which overflow, index or unwrap are explicit.
namespace Cofferwire.Strict

open Codec (DecodeError DecodedRequest ResponseFrame finish preambleBytes u8TryFrom version)
open Codec.Blob (DecodedBlobRequest)

-- The sum of two `usize`s.
def add (a b : Nat) : Option Nat :=
  if a + b < 2 ^ 64 then some (a + b) else none

-- The product of two `usize`s.
def mul (a b : Nat) : Option Nat :=
  if a * b < 2 ^ 64 then some (a * b) else none

-- The quotient and the remainder of two `u64`s.
def div (a b : UInt64) : Option UInt64 :=
  if b = 0 then none else some (a / b)

def rem (a b : UInt64) : Option UInt64 :=
  if b = 0 then none else some (a % b)

-- `bytes[i]`
def index (bytes : Bytes) (i : Nat) : Option UInt8 :=
  bytes[i]?

-- `bytes[i..j]`
def range (bytes : Bytes) (i j : Nat) : Option Bytes :=
  if i ≤ j ∧ j ≤ bytes.length then some (slice bytes i j) else none

-- An array can only be copied from a slice of the same length.
def copyFromSlice (n : Nat) (source : Bytes) : Option (ByteVec n) :=
  ByteVec.tryFrom n source

def debugAssert (p : Prop) [Decidable p] : Option Unit :=
  if p then some () else none

abbrev Decode := CheckedReader DecodeError UInt8

def validate (x : Except TypeError α) : Decode α :=
  liftM (x.mapError DecodeError.invalidProtocolValue)

namespace Decoder

def byte : Decode UInt8 := do
  let decoder ← get
  match decoder.bytes[decoder.offset]? with
  | none       => throw (.truncated decoder.offset)
  | some value =>
    let offset ← add decoder.offset 1
    set { decoder with offset }
    return value

def byteArray : Nat → Decode Bytes
  | 0     => return []
  | n + 1 => return (← byte) :: (← byteArray n)

def wide (start width : Nat) (minimum : UInt64) : Decode UInt64 := do
  let value := UInt64.ofNat <| BigEndian.decode <| ← byteArray width
  if value < minimum then
    throw (.nonCanonicalArgument start)
  else
    return value

def argument (expectedMajor : UInt8) (expected : String) : Decode UInt64 := do
  let start := (← get).offset
  let initial ← byte
  if initial >>> 5 ≠ expectedMajor then
    throw (.unexpectedType start expected)
  else
    let additional := initial &&& 0x1f
    if additional ≤ 23 then
      return additional.toUInt64
    else if additional = 24 then
      wide start 1 24
    else if additional = 25 then
      wide start 2 256
    else if additional = 26 then
      wide start 4 65536
    else if additional = 27 then
      wide start 8 4294967296
    else
      throw (.unexpectedType start expected)

def unsigned (field : String) : Decode UInt64 :=
  argument 0 field

def array (field : String) (expected : UInt64) : Decode Unit := do
  let actual ← argument 4 "definite-length array"
  if actual ≠ expected then
    throw (.wrongArrayLength field expected actual)
  else
    return ()

-- Here, an overflow is an error of the frame.
def bytes (field : String) (max : Nat) : Decode Bytes := do
  let length ← argument 2 "definite-length byte string"
  if length.toNat > max then
    throw (.byteStringTooLarge field max length)
  else
    let decoder ← get
    match add decoder.offset length.toNat with
    | none     => throw (.byteStringTooLarge field max length)
    | some end' =>
      if end' ≤ decoder.bytes.length then
        set { decoder with offset := end' }
        return slice decoder.bytes decoder.offset end'
      else
        throw (.truncated decoder.offset)

end Decoder

def decodePreambleWithin (maxBytes : Nat) (bytes : Bytes) : Checked DecodeError RequestId :=
  if bytes.length > maxBytes then
    throw (.frameTooLarge bytes.length)
  else if bytes.length < preambleBytes then
    throw (.truncated bytes.length)
  else do
    let preamble := bytes.take preambleBytes
    let received ← index preamble 0
    if received = 0 then
      throw .reservedVersion
    else
      let source ← range preamble 1 preamble.length
      let id ← copyFromSlice 16 source
      if received ≠ version then
        throw (.unsupportedVersion received ⟨id⟩)
      else
        return ⟨id⟩

def expectValue (field : String) (expected : UInt64) : Decode Unit := do
  let value ← Decoder.unsigned field
  if value = expected then
    return ()
  else
    throw (.invalidValue field value)

def fixedBytes (n : Nat) (field : String) : Decode (ByteVec n) := do
  let bytes ← Decoder.bytes field n
  if bytes.length ≠ n then
    throw (.wrongByteStringLength field n bytes.length)
  else
    copyFromSlice n bytes

-- Decodes a payload and its proof, where the former may end anywhere in the frame.
def decodeSigned (bytes : Bytes) (payload : Decode α) (auth : Decode Auth) :
    Checked DecodeError (α × Auth × Bytes) := do
  let (request, decoder) ← payload.run ⟨bytes, preambleBytes⟩
  let authenticatedEnd := decoder.offset
  let (auth, decoder) ← auth.run decoder
  finish decoder bytes
  let authenticatedBytes ← range bytes 0 authenticatedEnd
  return (request, auth, authenticatedBytes)

section Queue

def decodeCommand : Decode Command := do
  let value ← Decoder.unsigned "command"
  match u8TryFrom value with
  | some byte => validate (Command.tryFrom byte)
  | none      => throw (.invalidValue "command" value)

def queueId : Decode QueueId :=
  return ⟨← fixedBytes 32 "queue-id"⟩

def principal : Decode Principal :=
  return ⟨← fixedBytes 32 "principal"⟩

def messageId : Decode MessageId :=
  return ⟨← fixedBytes 32 "message-id"⟩

def payload : Decode Payload := do
  validate (Payload.new (← Decoder.bytes "payload" maxMessageBytes))

def decodeRequestBody : Command → Decode Request
  | .createQueue => do
    Decoder.array "CREATE_QUEUE request body" 5
    let queue ← queueId
    let sender ← principal
    let recipient ← principal
    let maxMessages ← Decoder.unsigned "max-messages"
    let maxMessageBytes ← Decoder.unsigned "max-message-bytes"
    let limits ← validate (QueueLimits.new maxMessages maxMessageBytes)
    return .createQueue ⟨queue, sender, recipient, limits⟩
  | .send => do
    Decoder.array "SEND request body" 5
    let queue ← queueId
    let sender ← principal
    let message ← messageId
    let payload ← payload
    let ttl ← Decoder.unsigned "ttl"
    return .send ⟨queue, sender, message, payload, ttl⟩
  | .fetch => do
    Decoder.array "FETCH request body" 2
    let queue ← queueId
    let recipient ← principal
    return .fetch ⟨queue, recipient⟩
  | .ack => do
    Decoder.array "ACK request body" 3
    let queue ← queueId
    let recipient ← principal
    let message ← messageId
    return .ack ⟨queue, recipient, message⟩
  | .deleteQueue => do
    Decoder.array "DELETE_QUEUE request body" 2
    let queue ← queueId
    let recipient ← principal
    return .deleteQueue ⟨queue, recipient⟩

def decodeRequestPayload : Decode Request := do
  Decoder.array "request payload" 3
  expectValue "request direction" 0
  let command ← decodeCommand
  decodeRequestBody command

def decodeAuth : Decode Auth := do
  validate (Auth.new (← Decoder.bytes "auth" maxAuthBytes))

def decodeRequest (bytes : Bytes) : Checked DecodeError DecodedRequest := do
  let requestId ← decodePreambleWithin maxFrameBytes bytes
  let (request, auth, authenticatedBytes) ← decodeSigned bytes decodeRequestPayload decodeAuth
  return ⟨⟨requestId, request, auth⟩, authenticatedBytes⟩

end Queue

section Encoder

-- The parts of a frame, as far as all of them are defined.
def concat (parts : List (Option Bytes)) : Option Bytes :=
  List.flatten <$> parts.mapM id

-- The lead byte is followed by the argument in the given width, which it has to fit into.
def encodeWide (lead : UInt8) (width : Nat) (value : UInt64) : Option Bytes :=
  if value.toNat < 256 ^ width then some (lead :: BigEndian.encode width value.toNat) else none

def encodeArgument (major : UInt8) (value : UInt64) : Option Bytes :=
  let lead := major <<< 5
  if value ≤ 23 then do
    let value ← u8TryFrom value
    return [lead ||| value]
  else if value ≤ 0xff then
    encodeWide (lead ||| 24) 1 value
  else if value ≤ 0xffff then
    encodeWide (lead ||| 25) 2 value
  else if value ≤ 0xffffffff then
    encodeWide (lead ||| 26) 4 value
  else
    encodeWide (lead ||| 27) 8 value

def encodeUnsigned (value : UInt64) : Option Bytes :=
  encodeArgument 0 value

def encodeArray (length : UInt64) : Option Bytes :=
  encodeArgument 4 length

-- The length of the byte string has to be a `u64`.
def encodeBytes (bytes : Bytes) : Option Bytes :=
  if bytes.length < 2 ^ 64 then
    concat [encodeArgument 2 (.ofNat bytes.length), some bytes]
  else
    none

def encodeId (id : ByteVec 32) : Option Bytes :=
  encodeBytes id.toBytes

def encodeSuccessBody : ResponseBody → Option Bytes
  | .createQueue outcome => concat [encodeArray 1, encodeUnsigned outcome.asU8.toUInt64]
  | .send outcome        => concat [encodeArray 1, encodeUnsigned outcome.asU8.toUInt64]
  | .fetch none          => concat [encodeArray 1, encodeUnsigned 0]
  | .fetch (some delivery) =>
    concat [
      encodeArray 4,
      encodeUnsigned 1,
      encodeId delivery.messageId.asBytes,
      encodeBytes delivery.payload.asBytes,
      encodeUnsigned delivery.expiresAt
    ]
  | .ack | .deleteQueue => encodeArray 0

def encodeResponsePayload (response : Response) : Option Bytes :=
  concat [
    encodeArray 4,
    encodeUnsigned 1,
    encodeUnsigned (response.command.elim 0 (·.asU8.toUInt64)),
    encodeUnsigned response.status.asU8.toUInt64,
    match response with
    | .error _      => encodeArray 0
    | .success body => encodeSuccessBody body
  ]

def encodeResponse (frame : ResponseFrame) : Option Bytes := do
  let output ← concat [
    some (Codec.encodePreamble frame.requestId),
    encodeResponsePayload frame.response
  ]
  debugAssert (output.length ≤ maxFrameBytes)
  return output

end Encoder

namespace Blob

section Manifest

open BlobManifest (Raw magic)

-- All comparisons after the first one which fails are skipped.
def limitsValid (paddedSize : UInt64) (chunkSize chunkCount : UInt32) : Option Bool :=
  if ¬(minChunkBytes ≤ chunkSize.toNat ∧ chunkSize.toNat ≤ maxChunkBytes) ∨
    ¬isPowerOfTwo chunkSize.toNat ∨
    ¬(minPaddedBytes ≤ paddedSize.toNat ∧ paddedSize.toNat ≤ maxPaddedBytes) ∨
    ¬isPowerOfTwo paddedSize.toNat
  then
    return false
  else do
    let remainder ← rem paddedSize chunkSize.toUInt64
    if remainder ≠ 0 ∨ ¬chunkCount.toNat > 0 ∨ ¬chunkCount.toNat ≤ maxChunks then
      return false
    else
      let quotient ← div paddedSize chunkSize.toUInt64
      return quotient = chunkCount.toUInt64

-- The fields of the header are read by index or range, after the length has been checked. If the
-- expected length overflowed, then this would be an error of the manifest.
def Raw.parse (bytes : Bytes) : Checked BlobTypeError Raw :=
  if bytes.length < 72 then
    throw .invalidManifest
  else do
    let head ← range bytes 0 4
    if head ≠ magic then
      throw .invalidManifest
    else
      let profile := BigEndian.decode [← index bytes 4, ← index bytes 5]
      let suite := BigEndian.decode [← index bytes 6, ← index bytes 7]
      if profile ≠ 1 ∨ suite ≠ 1 then
        throw .invalidManifest
      else
        let salt ← range bytes 8 24
        let objectSalt ← copyFromSlice 16 salt
        let paddedSize := .ofNat (BigEndian.decode (slice bytes 24 32))
        let chunkSize := .ofNat (BigEndian.decode (slice bytes 32 36))
        let chunkCount := .ofNat (BigEndian.decode (slice bytes 36 40))
        let valid ← limitsValid paddedSize chunkSize chunkCount
        if ¬valid then
          throw .limitOutOfRange
        else
          let size ← mul (UInt32.toNat chunkCount) 32
          let expected ← add 40 size
          if bytes.length ≠ expected then
            throw .invalidManifest
          else
            let rest ← range bytes 40 bytes.length
            let digests : Except BlobTypeError (List (ByteVec 32)) :=
              (chunksExact 32 rest).mapM fun digest =>
                (ByteVec.tryFrom 32 digest).elim (.error .invalidManifest) .ok
            let digests ← digests
            return { bytes, objectSalt, paddedSize, chunkSize, digests }

end Manifest

-- The strict version only tells whether all operations are defined. Apart from that, a manifest is
-- what the plain one accepts.
def parse (bytes : Bytes) : Checked BlobTypeError BlobManifest := do
  let _ ← Raw.parse bytes
  BlobManifest.parse bytes

def registered (tryFrom : UInt8 → Except BlobTypeError α) (field : String) (value : UInt64) :
    Decode α :=
  match (u8TryFrom value).bind (tryFrom · |>.toOption) with
  | some a => return a
  | none   => throw (.invalidValue field value)

def command (value : UInt64) : Decode BlobCommand :=
  registered BlobCommand.tryFrom "blob command" value

-- Unlike in the other profile, a byte string of the wrong length does not become an array.
def fixed (n : Nat) (field : String) : Decode (ByteVec n) := do
  let value ← Decoder.bytes field n
  match ByteVec.tryFrom n value with
  | some bytes => return bytes
  | none       => throw (.wrongByteStringLength field n value.length)

def uploadId : Decode UploadId :=
  return ⟨← fixed 32 "upload-id"⟩

def blobId : Decode BlobId :=
  return ⟨← fixed 32 "blob-id"⟩

def capability (field : String) : Decode CapabilityId :=
  return ⟨← fixed 32 field⟩

def manifest : Decode BlobManifest := do
  let bytes ← Decoder.bytes "manifest" 1048616
  liftM ((parse bytes).adapt fun _ => DecodeError.invalidValue "manifest" 0)

def ttl : Decode UInt64 := do
  let ttl ← Decoder.unsigned "blob ttl"
  if ttl = 0 then
    throw (.invalidValue "blob ttl" 0)
  else
    return ttl

def chunkIndex : Decode UInt32 := do
  let value ← Decoder.unsigned "chunk-index"
  if value ≤ 0xffffffff then
    return value.toUInt32
  else
    throw (.invalidValue "chunk-index" 0xffffffffffffffff)

def ciphertextChunk : Decode Bytes := do
  let max ← add maxChunkBytes 16
  Decoder.bytes "ciphertext chunk" max

def decodeRequestBody : BlobCommand → Decode BlobRequest
  | .beginUpload => do
    Decoder.array "BEGIN_UPLOAD body" 7
    let uploadId ← uploadId
    let upload ← capability "upload-cap"
    let download ← capability "download-cap"
    let renew ← capability "renew-cap"
    let delete ← capability "delete-cap"
    let manifest ← manifest
    let ttl ← ttl
    return .beginUpload uploadId ⟨upload, download, renew, delete⟩ manifest ttl
  | .putChunk => do
    Decoder.array "PUT_CHUNK body" 4
    return .putChunk (← uploadId) (← capability "upload-cap") (← chunkIndex) (← ciphertextChunk)
  | .commit => do
    Decoder.array "COMMIT body" 3
    return .commit (← uploadId) (← capability "upload-cap") (← blobId)
  | .getManifest => do
    Decoder.array "GET_MANIFEST body" 2
    return .getManifest (← blobId) (← capability "download-cap")
  | .getChunk => do
    Decoder.array "GET_CHUNK body" 3
    return .getChunk (← blobId) (← capability "download-cap") (← chunkIndex)
  | .renew => do
    Decoder.array "RENEW body" 3
    let blobId ← blobId
    let renewCap ← capability "renew-cap"
    let ttl ← ttl
    return .renew blobId renewCap ttl
  | .delete => do
    Decoder.array "DELETE body" 2
    return .delete (← blobId) (← capability "delete-cap")

def decodeRequestPayload : Decode BlobRequest := do
  Decoder.array "blob request payload" 3
  expectValue "blob request direction" 0
  let command ← command (← Decoder.unsigned "blob command")
  decodeRequestBody command

def decodeAuth : Decode Auth := do
  let authBytes ← Decoder.bytes "blob auth" 68
  if authBytes.length ≠ 68 then
    throw (.wrongByteStringLength "blob auth" 68 authBytes.length)
  else
    validate (Auth.new authBytes)

def decodeBlobRequest (bytes : Bytes) : Checked DecodeError DecodedBlobRequest := do
  let requestId ← decodePreambleWithin maxBlobFrameBytes bytes
  let (request, auth, authenticatedBytes) ← decodeSigned bytes decodeRequestPayload decodeAuth
  return ⟨⟨requestId, request, auth⟩, authenticatedBytes⟩

section Encoder

def encodeResponseBody : BlobResponseBody → Option Bytes
  | .beginUpload outcome | .putChunk outcome =>
    concat [encodeArray 1, encodeUnsigned outcome.asU8.toUInt64]
  | .commit expiry | .renew expiry     => concat [encodeArray 1, encodeUnsigned expiry]
  | .getManifest manifest expiry =>
    concat [encodeArray 2, encodeBytes manifest.asBytes, encodeUnsigned expiry]
  | .getChunk chunk expiry       => concat [encodeArray 2, encodeBytes chunk, encodeUnsigned expiry]
  | .delete                      => encodeArray 0

def encodeBlobResponse (frame : BlobResponseFrame) : Option Bytes :=
  concat [
    some (Codec.encodePreamble frame.requestId),
    encodeArray 4,
    encodeUnsigned 1,
    encodeUnsigned (frame.response.command.elim 0 (·.asU8.toUInt64)),
    encodeUnsigned frame.response.status.asU8.toUInt64,
    match frame.response.body with
    | some body => if frame.response.status.isOk then encodeResponseBody body else encodeArray 0
    | none      => encodeArray 0
  ]

end Encoder
end Blob
end Cofferwire.Strict
