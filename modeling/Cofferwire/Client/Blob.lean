import Cofferwire.Client.Basic
import Cofferwire.Codec.Blob
import Cofferwire.Crypto.Blob
import Cofferwire.Library.Reader

namespace Cofferwire.Client.Blob

open Codec.Blob (decodeBlobRequest decodeBlobResponse encodeBlobAuthenticatedRequest encodeBlobRequest)
open Crypto

inductive BlobClientError
  | transport
  | store
  | crypto
  | invalidResponse
  | invalidPersistedState
  | relay (status : BlobStatus)
deriving DecidableEq, Repr

-- The methods of `RequestIdSource`, `Transport` and `BlobUploadStore`.
inductive Call
  | nextRequestId
  | exchange (request : Bytes)
  | commit (state : Bytes)

def Call.Result : Call → Type
  | nextRequestId => RequestId
  | exchange _    => Except TransportError Bytes
  | commit _      => Except StoreError Unit

def interface : Interface where
  Call   := Call
  Result := Call.Result

-- "CWBU"
def uploadStateMagic : Bytes := [67, 87, 66, 85]

def uploadStateVersion : UInt8 := 1

structure BlobUploadIdentity where
  uploadId     : UploadId
  blobId       : BlobId
  capabilities : BlobCapabilities
deriving DecidableEq, Repr

inductive UploadStage
  | begin
  | chunk (index : Nat)
  | commit
  | complete
deriving DecidableEq, Repr

structure Pending where
  requestId : RequestId
  command   : BlobCommand
  bytes     : Bytes
deriving DecidableEq, Repr

inductive UploadProgress
  | begun
  | chunkStored (index : Nat)
  | committed (expiresAt : UInt64)
  | complete
deriving DecidableEq, Repr

section Uploader

variable [Ed25519]

def signed (key : Ed25519.SigningKey) (requestId : RequestId) (request : BlobRequest) : Bytes :=
  let auth := signBlobRequest key (encodeBlobAuthenticatedRequest requestId request)
  encodeBlobRequest ⟨requestId, request, auth⟩

structure PreparedBlob where
  uploadId    : UploadId
  encrypted   : EncryptedBlob
  uploadKey   : Ed25519.SigningKey
  downloadKey : Ed25519.SigningKey
  renewKey    : Ed25519.SigningKey
  deleteKey   : Ed25519.SigningKey

structure BlobUploader where
  blob    : PreparedBlob
  ttl     : UInt64
  stage   : UploadStage
  pending : Option Pending

-- How `advance` ends if it does not succeed. An error leaves an uploader, a panic does not.
inductive Failure
  | error (error : BlobClientError) (uploader : BlobUploader)
  | panic

namespace PreparedBlob

def new [Ed25519Seeds] [Sha256] [ChaCha20Poly1305] [Hkdf] (plaintext : Bytes) (chunkSize : UInt32)
    (rng : Rng) : Except BlobClientError (PreparedBlob × Rng) := do
  let (encrypted, rng) ← (sealBlob plaintext chunkSize rng).mapError fun _ => .crypto
  let (uploadId, rng)    := rng.fillBytes 32
  let (uploadKey, rng)   := generateKey rng
  let (downloadKey, rng) := generateKey rng
  let (renewKey, rng)    := generateKey rng
  let (deleteKey, rng)   := generateKey rng
  return ({ uploadId := ⟨uploadId⟩, encrypted, uploadKey, downloadKey, renewKey, deleteKey }, rng)

variable (prepared : PreparedBlob)

def capabilities : BlobCapabilities where
  upload   := capability prepared.uploadKey
  download := capability prepared.downloadKey
  renew    := capability prepared.renewKey
  delete   := capability prepared.deleteKey

def uploadIdentity : BlobUploadIdentity where
  uploadId     := prepared.uploadId
  blobId       := prepared.encrypted.blobId
  capabilities := prepared.capabilities

def uploader (ttl : UInt64) : BlobUploader where
  blob    := prepared
  ttl     := ttl
  stage   := .begin
  pending := none

end PreparedBlob

-- The length of the value has to fit into 32 bits, otherwise this panics.
def pushSized (value : Bytes) : Option Bytes :=
  (u32TryFrom value.length).map fun length => BigEndian.encode 4 length.toNat ++ value

def encodeStage : UploadStage → Option (UInt8 × UInt32)
  | .begin       => some (0, 0)
  | .chunk index => (u32TryFrom index).map fun index => (1, index)
  | .commit      => some (2, 0)
  | .complete    => some (3, 0)

def encodeUploadState [Ed25519Seeds] (uploader : BlobUploader) : Option Bytes := do
  let blob := uploader.blob
  let (stage, index) ← encodeStage uploader.stage
  let manifest ← pushSized blob.encrypted.manifest.asBytes
  let count ← u32TryFrom blob.encrypted.chunks.length
  let chunks ← blob.encrypted.chunks.mapM pushSized
  let pending ← pushSized (uploader.pending.elim [] Pending.bytes)
  return uploadStateMagic ++
    [uploadStateVersion] ++
    blob.uploadId.asBytes.toBytes ++
    blob.encrypted.key.toBytes.toBytes ++
    (Ed25519Seeds.toSeed blob.uploadKey).toBytes ++
    (Ed25519Seeds.toSeed blob.downloadKey).toBytes ++
    (Ed25519Seeds.toSeed blob.renewKey).toBytes ++
    (Ed25519Seeds.toSeed blob.deleteKey).toBytes ++
    BigEndian.encode 8 uploader.ttl.toNat ++
    [stage] ++
    BigEndian.encode 4 index.toNat ++
    manifest ++
    BigEndian.encode 4 count.toNat ++
    chunks.flatten ++
    pending

namespace BlobUploader

-- The request of a stage, which is only sent as long as the upload is not complete.
def request (uploader : BlobUploader) : Except Failure BlobRequest :=
  let blob := uploader.blob
  match uploader.stage with
  | .begin       => .ok (.beginUpload blob.uploadId blob.capabilities blob.encrypted.manifest uploader.ttl)
  | .chunk index =>
    match u32TryFrom index with
    | none   => .error (.error .invalidResponse uploader)
    | some i =>
      match blob.encrypted.chunks[index]? with
      | none       => .error .panic
      | some chunk => .ok (.putChunk blob.uploadId blob.capabilities.upload i chunk)
  | .commit   => .ok (.commit blob.uploadId blob.capabilities.upload blob.encrypted.blobId)
  | .complete => .error .panic

-- Checks the response to the pending frame.
def nextStage (uploader : BlobUploader) (pending : Pending) (bytes : Bytes) :
    Except BlobClientError (UploadStage × UploadProgress) :=
  match decodeBlobResponse bytes with
  | .error _     => .error .invalidResponse
  | .ok response =>
    if response.requestId ≠ pending.requestId ∨ response.response.command ≠ some pending.command then
      .error .invalidResponse
    else if ¬response.response.status.isOk then
      .error (.relay response.response.status)
    else
      match uploader.stage, response.response.body with
      | .begin, some (.beginUpload _)   => .ok (.chunk 0, .begun)
      | .chunk index, some (.putChunk _) =>
        let next :=
          if index + 1 = uploader.blob.encrypted.chunks.length then .commit else .chunk (index + 1)
        .ok (next, .chunkStored index)
      | .commit, some (.commit expiry) => .ok (.complete, .committed expiry)
      | _, _                           => .error .invalidResponse

variable [Ed25519Seeds]

-- Commits a state of the uploader. If this fails, then the uploader is left in another one.
def persist (uploader previous : BlobUploader) : Program interface Failure Unit :=
  match encodeUploadState uploader with
  | none       => .fail .panic
  | some state => .call (.commit state) fun
    | .error _ => .fail (.error .store previous)
    | .ok ()   => return ()

-- The rest of `advance` once there is a response to the pending frame.
def finish (uploader : BlobUploader) (pending : Pending) (response : Bytes) :
    Program interface Failure (UploadProgress × BlobUploader) := do
  let (stage, progress) ← (uploader.nextStage pending response).mapError (Failure.error · uploader)
  let next := { uploader with stage, pending := none }
  next.persist uploader
  return (progress, next)

-- The rest of `advance` once there is a pending frame.
def send (uploader : BlobUploader) : Program interface Failure (UploadProgress × BlobUploader) := do
  uploader.persist uploader
  match uploader.pending with
  | none         => .fail (.error .invalidResponse uploader)
  | some pending => .call (.exchange pending.bytes) fun
    | .error _     => .fail (.error .transport uploader)
    | .ok response => uploader.finish pending response

def advance (uploader : BlobUploader) : Program interface Failure (UploadProgress × BlobUploader) :=
  if uploader.stage = .complete then
    return (.complete, uploader)
  else if uploader.pending.isSome then
    uploader.send
  else do
    let request ← uploader.request
    .call .nextRequestId fun requestId =>
      let bytes := signed uploader.blob.uploadKey requestId request
      { uploader with pending := some ⟨requestId, request.command, bytes⟩ }.send

end BlobUploader
end Uploader

-- Reads a state of the uploader. All failures to do so are the same error.
namespace StateCursor

def take (n : Nat) : Reader BlobClientError UInt8 Bytes :=
  Reader.take n fun _ => .invalidPersistedState

def byte : Reader BlobClientError UInt8 UInt8 :=
  Reader.item fun _ => .invalidPersistedState

def array (n : Nat) : Reader BlobClientError UInt8 (ByteVec n) := do
  match ByteVec.tryFrom n (← take n) with
  | none       => throw .invalidPersistedState
  | some bytes => return bytes

def u32 : Reader BlobClientError UInt8 UInt32 :=
  return .ofNat (BigEndian.decode (← array 4).toBytes)

def u64 : Reader BlobClientError UInt8 UInt64 :=
  return .ofNat (BigEndian.decode (← array 8).toBytes)

def sized (maximum : Nat) : Reader BlobClientError UInt8 Bytes := do
  let length ← u32
  if length.toNat > maximum then
    throw .invalidPersistedState
  else
    take length.toNat

def sizedMany (maximum : Nat) : Nat → Reader BlobClientError UInt8 (List Bytes)
  | 0         => return []
  | count + 1 => return (← sized maximum) :: (← sizedMany maximum count)

def ensure (p : Prop) [Decidable p] : Reader BlobClientError UInt8 Unit :=
  if p then return () else throw .invalidPersistedState

end StateCursor

section Restore

variable [Ed25519]

-- The fields of a state of the uploader, of which some are not checked yet.
structure UploadState where
  uploadId     : UploadId
  objectKey    : ObjectKey
  uploadKey    : Ed25519.SigningKey
  downloadKey  : Ed25519.SigningKey
  renewKey     : Ed25519.SigningKey
  deleteKey    : Ed25519.SigningKey
  ttl          : UInt64
  stageTag     : UInt8
  stageIndex   : Nat
  manifest     : BlobManifest
  chunks       : List Bytes
  pendingBytes : Bytes

def readUploadState [Ed25519Seeds] : Reader BlobClientError UInt8 UploadState := do
  StateCursor.ensure ((← StateCursor.take 4) = uploadStateMagic)
  StateCursor.ensure ((← StateCursor.byte) = uploadStateVersion)
  let uploadId ← StateCursor.array 32
  let objectKey ← StateCursor.array 32
  let uploadKey ← StateCursor.array 32
  let downloadKey ← StateCursor.array 32
  let renewKey ← StateCursor.array 32
  let deleteKey ← StateCursor.array 32
  let ttl ← StateCursor.u64
  StateCursor.ensure (ttl ≠ 0)
  let stageTag ← StateCursor.byte
  let stageIndex ← StateCursor.u32
  let manifest ← StateCursor.sized maxBlobFrameBytes
  let manifest ← liftM <| (BlobManifest.parse manifest).mapError fun _ =>
    BlobClientError.invalidPersistedState
  let chunkCount ← StateCursor.u32
  StateCursor.ensure (chunkCount.toNat = manifest.chunkCount ∧ chunkCount.toNat ≤ maxChunks)
  let chunks ← StateCursor.sizedMany (manifest.chunkSize.toNat + 16) chunkCount.toNat
  let pendingBytes ← StateCursor.sized maxBlobFrameBytes
  return {
    uploadId    := ⟨uploadId⟩
    objectKey   := ⟨objectKey⟩
    uploadKey   := Ed25519Seeds.fromSeed uploadKey
    downloadKey := Ed25519Seeds.fromSeed downloadKey
    renewKey    := Ed25519Seeds.fromSeed renewKey
    deleteKey   := Ed25519Seeds.fromSeed deleteKey
    ttl, stageTag, stageIndex := stageIndex.toNat, manifest, chunks, pendingBytes
  }

def decodeStage (tag : UInt8) (index chunks : Nat) : Option UploadStage :=
  match tag with
  | 0 => if index = 0 then some .begin else none
  | 1 => if index < chunks then some (.chunk index) else none
  | 2 => if index = 0 then some .commit else none
  | 3 => if index = 0 then some .complete else none
  | _ => none

def matchesStage (blob : PreparedBlob) (ttl : UInt64) : UploadStage → BlobRequest → Bool
  | .begin, .beginUpload uploadId capabilities manifest requestTtl =>
    uploadId = blob.uploadId ∧ requestTtl = ttl ∧ manifest = blob.encrypted.manifest ∧
      capabilities = blob.capabilities
  | .chunk expected, .putChunk uploadId uploadCap index ciphertext =>
    uploadId = blob.uploadId ∧ uploadCap = blob.capabilities.upload ∧ index.toNat = expected ∧
      blob.encrypted.chunks[expected]? = some ciphertext
  | .commit, .commit uploadId uploadCap blobId =>
    uploadId = blob.uploadId ∧ uploadCap = blob.capabilities.upload ∧ blobId = blob.encrypted.blobId
  | _, _ => false

def validatePending (blob : PreparedBlob) (ttl : UInt64) (stage : UploadStage) (bytes : Bytes) :
    Except BlobClientError Pending :=
  match decodeBlobRequest bytes with
  | .error _    => .error .invalidPersistedState
  | .ok decoded =>
    let request := decoded.frame.request
    match verifyBlobRequest request.capability decoded.authenticatedBytes decoded.frame.auth with
    | .error _ => .error .invalidPersistedState
    | .ok ()   =>
      if matchesStage blob ttl stage request then
        .ok ⟨decoded.frame.requestId, request.command, bytes⟩
      else
        .error .invalidPersistedState

def UploadState.pending (state : UploadState) (blob : PreparedBlob) (stage : UploadStage) :
    Except BlobClientError (Option Pending) :=
  if state.pendingBytes.isEmpty then
    .ok none
  else
    (validatePending blob state.ttl stage state.pendingBytes).map some

variable [Ed25519Seeds] [Sha256] [ChaCha20Poly1305] [Hkdf]

-- The checks on the fields once all of them have been read.
def UploadState.uploader (state : UploadState) : Except BlobClientError BlobUploader := do
  let blobId := identify state.manifest
  let encrypted := { key := state.objectKey, manifest := state.manifest, blobId, chunks := state.chunks }
  let _ ← (openBlob encrypted.key encrypted.blobId encrypted.manifest encrypted.chunks).mapError fun _ =>
    BlobClientError.invalidPersistedState
  match decodeStage state.stageTag state.stageIndex encrypted.chunks.length with
  | none       => .error .invalidPersistedState
  | some stage => do
    let blob := {
      uploadId    := state.uploadId
      encrypted   := encrypted
      uploadKey   := state.uploadKey
      downloadKey := state.downloadKey
      renewKey    := state.renewKey
      deleteKey   := state.deleteKey
    }
    let pending ← state.pending blob stage
    if stage = .complete ∧ pending.isSome then
      .error .invalidPersistedState
    else
      .ok { blob, ttl := state.ttl, stage, pending }

def decodeUploadState (bytes : Bytes) : Except BlobClientError BlobUploader := do
  let (state, cursor) ← readUploadState.run ⟨bytes, 0⟩
  if cursor.offset ≠ bytes.length then
    .error .invalidPersistedState
  else
    state.uploader

def BlobUploader.restore (bytes : Bytes) (expected : BlobUploadIdentity) :
    Except BlobClientError BlobUploader := do
  let uploader ← decodeUploadState bytes
  if uploader.blob.uploadIdentity ≠ expected then
    .error .invalidPersistedState
  else
    .ok uploader

end Restore

section Download

variable [Ed25519]

def exchange (key : Ed25519.SigningKey) (request : BlobRequest) :
    Program interface BlobClientError BlobResponseBody :=
  .call .nextRequestId fun (requestId : RequestId) =>
    .call (.exchange (signed key requestId request)) fun
      | .error _ => .fail .transport
      | .ok bytes =>
        match decodeBlobResponse bytes with
        | .error _     => .fail .invalidResponse
        | .ok response =>
          if response.requestId ≠ requestId ∨ response.response.command ≠ some request.command then
            .fail .invalidResponse
          else if ¬response.response.status.isOk then
            .fail (.relay response.response.status)
          else
            match response.response.body with
            | none      => .fail .invalidResponse
            | some body => return body

def downloadChunk (prepared : PreparedBlob) (index : Nat) : Program interface BlobClientError Bytes :=
  match u32TryFrom index with
  | none   => .fail .invalidResponse
  | some i => do
    let cap := capability prepared.downloadKey
    let body ← exchange prepared.downloadKey (.getChunk prepared.encrypted.blobId cap i)
    match body with
    | .getChunk chunk _ => return chunk
    | _                 => .fail .invalidResponse

-- The chunks from an index on.
def downloadChunks (prepared : PreparedBlob) (index : Nat) :
    Nat → Program interface BlobClientError (List Bytes)
  | 0         => return []
  | count + 1 => return (← downloadChunk prepared index) :: (← downloadChunks prepared (index + 1) count)

def downloadBlob [Sha256] [ChaCha20Poly1305] [Hkdf] (prepared : PreparedBlob) :
    Program interface BlobClientError Bytes := do
  let cap := capability prepared.downloadKey
  let body ← exchange prepared.downloadKey (.getManifest prepared.encrypted.blobId cap)
  match body with
  | .getManifest manifest _ => do
    let chunks ← downloadChunks prepared 0 manifest.chunkCount
    (openBlob prepared.encrypted.key prepared.encrypted.blobId manifest chunks).mapError fun _ =>
      BlobClientError.crypto
  | _ => .fail .invalidResponse

end Download
end Cofferwire.Client.Blob
