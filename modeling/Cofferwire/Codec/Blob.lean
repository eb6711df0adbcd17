import Cofferwire.Codec.Frame
import Cofferwire.Types.Blob

namespace Cofferwire.Codec.Blob

-- A decoded request with the exact bytes which its proof binds.
structure DecodedBlobRequest where
  frame              : BlobRequestFrame
  authenticatedBytes : Bytes
deriving DecidableEq

def encodeRequestBody : BlobRequest → Bytes
  | .beginUpload uploadId capabilities manifest ttl =>
    encodeArray 7 ++
    encodeId uploadId.asBytes ++
    encodeId capabilities.upload.asBytes ++
    encodeId capabilities.download.asBytes ++
    encodeId capabilities.renew.asBytes ++
    encodeId capabilities.delete.asBytes ++
    encodeBytes manifest.asBytes ++
    encodeUnsigned ttl
  | .putChunk uploadId uploadCap index ciphertext =>
    encodeArray 4 ++
    encodeId uploadId.asBytes ++
    encodeId uploadCap.asBytes ++
    encodeUnsigned index.toUInt64 ++
    encodeBytes ciphertext
  | .commit uploadId uploadCap blobId =>
    encodeArray 3 ++
    encodeId uploadId.asBytes ++
    encodeId uploadCap.asBytes ++
    encodeId blobId.asBytes
  | .getManifest blobId downloadCap =>
    encodeArray 2 ++
    encodeId blobId.asBytes ++
    encodeId downloadCap.asBytes
  | .getChunk blobId downloadCap index =>
    encodeArray 3 ++
    encodeId blobId.asBytes ++
    encodeId downloadCap.asBytes ++
    encodeUnsigned index.toUInt64
  | .renew blobId renewCap ttl =>
    encodeArray 3 ++
    encodeId blobId.asBytes ++
    encodeId renewCap.asBytes ++
    encodeUnsigned ttl
  | .delete blobId deleteCap =>
    encodeArray 2 ++
    encodeId blobId.asBytes ++
    encodeId deleteCap.asBytes

def encodeBlobAuthenticatedRequest (requestId : RequestId) (request : BlobRequest) : Bytes :=
  encodePreamble requestId ++
  encodeArray 3 ++
  encodeUnsigned 0 ++
  encodeUnsigned request.command.asU8.toUInt64 ++
  encodeRequestBody request

def encodeBlobRequest (frame : BlobRequestFrame) : Bytes :=
  encodeBlobAuthenticatedRequest frame.requestId frame.request ++ encodeBytes frame.auth.asBytes

def encodeResponseBody : BlobResponseBody → Bytes
  | .beginUpload outcome | .putChunk outcome =>
    encodeArray 1 ++
    encodeUnsigned outcome.asU8.toUInt64
  | .commit expiry | .renew expiry =>
    encodeArray 1 ++
    encodeUnsigned expiry
  | .getManifest manifest expiry =>
    encodeArray 2 ++
    encodeBytes manifest.asBytes ++
    encodeUnsigned expiry
  | .getChunk chunk expiry =>
    encodeArray 2 ++
    encodeBytes chunk ++
    encodeUnsigned expiry
  | .delete => encodeArray 0

def encodeBlobResponse (frame : BlobResponseFrame) : Bytes :=
  encodePreamble frame.requestId ++
  encodeArray 4 ++
  encodeUnsigned 1 ++
  encodeUnsigned (frame.response.command.elim 0 (·.asU8.toUInt64)) ++
  encodeUnsigned frame.response.status.asU8.toUInt64 ++
  match frame.response.body with
  | some body => if frame.response.status.isOk then encodeResponseBody body else encodeArray 0
  | none      => encodeArray 0

def preamble (bytes : Bytes) : Except DecodeError RequestId :=
  decodePreambleWithin maxBlobFrameBytes bytes

-- Looks up a code in one of the registries. Here, the registry's own error is dropped.
def registered (tryFrom : UInt8 → Except BlobTypeError α) (field : String) (value : UInt64) :
    Decode α :=
  match (u8TryFrom value).bind (tryFrom · |>.toOption) with
  | some a => return a
  | none   => throw (.invalidValue field value)

def command (value : UInt64) : Decode BlobCommand :=
  registered BlobCommand.tryFrom "blob command" value

def outcome : Decode BlobWriteOutcome := do
  registered BlobWriteOutcome.tryFrom "blob outcome" (← Decoder.unsigned "blob outcome")

def decodeStatus : Decode BlobStatus := do
  registered BlobStatus.tryFrom "blob status" (← Decoder.unsigned "blob status")

def uploadId : Decode UploadId :=
  return ⟨← fixedBytes 32 "upload-id"⟩

def blobId : Decode BlobId :=
  return ⟨← fixedBytes 32 "blob-id"⟩

def capability (field : String) : Decode CapabilityId :=
  return ⟨← fixedBytes 32 field⟩

def manifest : Decode BlobManifest := do
  let bytes ← Decoder.bytes "manifest" 1048616
  liftM <| (BlobManifest.parse bytes).mapError fun _ => DecodeError.invalidValue "manifest" 0

def ttl : Decode UInt64 := do
  let ttl ← Decoder.unsigned "blob ttl"
  if ttl = 0 then
    throw (.invalidValue "blob ttl" 0)
  else
    return ttl

-- Unlike the other fields, an index which is out of range is not reported by its value.
def chunkIndex : Decode UInt32 := do
  let value ← Decoder.unsigned "chunk-index"
  if value ≤ 0xffffffff then
    return value.toUInt32
  else
    throw (.invalidValue "chunk-index" 0xffffffffffffffff)

def ciphertextChunk : Decode Bytes :=
  Decoder.bytes "ciphertext chunk" (maxChunkBytes + 16)

def decodeRequestBody : BlobCommand → Decode BlobRequest
  | .beginUpload => do
    Decoder.array "BEGIN_UPLOAD body" 7
    let uploadId ← uploadId
    let upload ← capability "upload-cap"
    let download ← capability "download-cap"
    let renew ← capability "renew-cap"
    let delete ← capability "delete-cap"
    let manifest ← manifest
    let ttl ← ttl
    return .beginUpload uploadId ⟨upload, download, renew, delete⟩ manifest ttl
  | .putChunk => do
    Decoder.array "PUT_CHUNK body" 4
    return .putChunk (← uploadId) (← capability "upload-cap") (← chunkIndex) (← ciphertextChunk)
  | .commit => do
    Decoder.array "COMMIT body" 3
    return .commit (← uploadId) (← capability "upload-cap") (← blobId)
  | .getManifest => do
    Decoder.array "GET_MANIFEST body" 2
    return .getManifest (← blobId) (← capability "download-cap")
  | .getChunk => do
    Decoder.array "GET_CHUNK body" 3
    return .getChunk (← blobId) (← capability "download-cap") (← chunkIndex)
  | .renew => do
    Decoder.array "RENEW body" 3
    let blobId ← blobId
    let renewCap ← capability "renew-cap"
    let ttl ← ttl
    return .renew blobId renewCap ttl
  | .delete => do
    Decoder.array "DELETE body" 2
    return .delete (← blobId) (← capability "delete-cap")

def decodeResponseBody : BlobCommand → Decode BlobResponseBody
  | .beginUpload => do
    Decoder.array "BEGIN_UPLOAD response" 1
    return .beginUpload (← outcome)
  | .putChunk => do
    Decoder.array "PUT_CHUNK response" 1
    return .putChunk (← outcome)
  | .commit => do
    Decoder.array "COMMIT response" 1
    return .commit (← Decoder.unsigned "expires-at")
  | .getManifest => do
    Decoder.array "GET_MANIFEST response" 2
    let manifest ← manifest
    return .getManifest manifest (← Decoder.unsigned "expires-at")
  | .getChunk => do
    Decoder.array "GET_CHUNK response" 2
    let chunk ← ciphertextChunk
    return .getChunk chunk (← Decoder.unsigned "expires-at")
  | .renew => do
    Decoder.array "RENEW response" 1
    return .renew (← Decoder.unsigned "expires-at")
  | .delete => do
    Decoder.array "DELETE response" 0
    return .delete

def decodeRequestPayload : Decode BlobRequest := do
  Decoder.array "blob request payload" 3
  expectValue "blob request direction" 0
  let command ← command (← Decoder.unsigned "blob command")
  decodeRequestBody command

-- Only a bound of 1024 bytes is left to check, which 68 bytes meet.
def decodeAuth : Decode Auth := do
  let authBytes ← Decoder.bytes "blob auth" 68
  if authBytes.length ≠ 68 then
    throw (.wrongByteStringLength "blob auth" 68 authBytes.length)
  else
    validate (Auth.new authBytes)

def decodeBlobRequest (bytes : Bytes) : Except DecodeError DecodedBlobRequest := do
  let requestId ← preamble bytes
  let (request, decoder) ← decodeRequestPayload.run ⟨bytes, preambleBytes⟩
  let authenticatedEnd := decoder.offset
  let (auth, decoder) ← decodeAuth.run decoder
  finish decoder bytes
  return ⟨⟨requestId, request, auth⟩, bytes.take authenticatedEnd⟩

def optionalCommand (commandValue : UInt64) : Decode (Option BlobCommand) :=
  if commandValue = 0 then return none else return some (← command commandValue)

def decodeOptionalBody (command : Option BlobCommand) (status : BlobStatus) :
    Decode (Option BlobResponseBody) :=
  if status.isOk then
    match command with
    | some command => return some (← decodeResponseBody command)
    | none         => throw (.invalidValue "blob response command" 0)
  else do
    Decoder.array "blob error body" 0
    return none

def decodeResponsePayload : Decode BlobResponse := do
  Decoder.array "blob response payload" 4
  expectValue "blob response direction" 1
  let command ← optionalCommand (← Decoder.unsigned "blob response command")
  let status ← decodeStatus
  let body ← decodeOptionalBody command status
  return { command, status, body }

def decodeBlobResponse (bytes : Bytes) : Except DecodeError BlobResponseFrame := do
  let requestId ← preamble bytes
  let (response, decoder) ← decodeResponsePayload.run ⟨bytes, preambleBytes⟩
  finish decoder bytes
  return ⟨requestId, response⟩

end Cofferwire.Codec.Blob
