import Cofferwire.Service.Exchange
import Cofferwire.Strict.Codec

-- The path of an exchange once more, where all operations which overflow, index or unwrap are
-- explicit. Functions without such operations are shared.
namespace Cofferwire.Strict

open Codec (DecodeError DecodedRequest)
open Codec.Blob (DecodedBlobRequest)
open DurableRelay
open Replay (Call Database EffectError)
open Relay (QueueConfig Ttl)

section Crypto

variable [Ed25519]

def verifyProof (domain : Bytes) (key : ByteVec 32) (authenticated : Bytes) (auth : Auth) :
    Option Bool :=
  let bytes := auth.asBytes
  if bytes.length ≠ 68 then
    return false
  else do
    let profile ← range bytes 0 2
    if profile ≠ profileId then
      return false
    else
      let suite ← range bytes 2 4
      if suite ≠ ed25519Id then
        return false
      else
        match Ed25519.fromBytes key with
        | none     => return false
        | some key =>
          let rest ← range bytes 4 bytes.length
          match ByteVec.tryFrom 64 rest with
          | none           => return false
          | some signature =>
            let _capacity ← add domain.length authenticated.length
            return Ed25519.verifyStrict key (domain ++ authenticated) signature

def verifyRequest (principal : Principal) (authenticatedBytes : Bytes) (auth : Auth) :
    Checked CryptoError Unit := do
  let verified ← verifyProof relayAuthDomain principal.asBytes authenticatedBytes auth
  if verified then
    return ()
  else
    throw .authenticationFailed

def verifyBlobRequest (capability : CapabilityId) (authenticated : Bytes) (auth : Auth) :
    Checked BlobCryptoError Unit := do
  let verified ← verifyProof blobRequestDomain capability.asBytes authenticated auth
  if verified then
    return ()
  else
    throw .authenticationFailed

end Crypto

namespace RateLimiter

variable [DecidableEq κ]

def popFront (windowSecs now : UInt64) : List UInt64 → Option (List UInt64)
  | []             => some []
  | oldest :: rest => do
    let leaves ← checkedAdd oldest windowSecs
    if leaves ≤ now then
      popFront windowSecs now rest
    else
      return oldest :: rest

def admits (limiter : RateLimiter κ) (key : κ) (now : UInt64) : Option (Bool × RateLimiter κ) :=
  if limiter.poisoned then
    return (false, limiter)
  else
    match Table.lookup RateLimiter.Window.key key limiter.windows with
    | some window => do
      let entries ← popFront limiter.windowSecs now window.entries
      if entries.length ≥ limiter.maxRequests then
        return (false, limiter.setEntries key entries)
      else
        return (true, limiter.setEntries key (entries ++ [now]))
    | none =>
      if limiter.windows.length ≥ limiter.maxTrackedKeys then
        return (false, limiter)
      else
        return (true, { limiter with windows := limiter.windows ++ [⟨key, [now]⟩] })

end RateLimiter

section Store

-- The target has 64-bit pointers.
def usizeToU64 (value : UInt64) : Option UInt64 :=
  if value.toNat < 2 ^ 64 then some value else none

-- The limits are converted on both branches.
def createQueueTx (tables : QueueTables) (id : QueueId) (config : QueueConfig) :
    Checked DurableRelayError (CreateQueueOutcome × QueueTables) := do
  let _maxMessages ← usizeToU64 config.limits.maxMessages
  let _maxMessageBytes ← usizeToU64 config.limits.maxMessageBytes
  DurableRelay.createQueueTx tables id config

def sendTx (tables : QueueTables) (queueId : QueueId) (sender : Principal) (messageId : MessageId)
    (payload : Bytes) (now : Timestamp) (ttl : Ttl) :
    Checked DurableRelayError (SendOutcome × QueueTables) := do
  match ← readQueue tables queueId with
  | none        => throw (.relay .queueNotFound)
  | some config =>
    if config.sender ≠ sender then
      throw (.relay .unauthorized)
    else
      let _maxMessages ← usizeToU64 config.limits.maxMessages
      enqueueTx (discardExpired tables queueId now) config queueId messageId payload now ttl

def executeQueueRequest (request : Request) (now : Timestamp) (tables : QueueTables) :
    Checked DurableRelayError (ResponseBody × QueueTables) :=
  match request with
  | .createQueue create =>
    match Relay.QueueLimits.new create.limits.maxMessages create.limits.maxMessageBytes with
    | none        => throw (.relay .limitOutOfRange)
    | some limits => do
      let config := ⟨create.sender, create.recipient, limits⟩
      let (outcome, tables) ← createQueueTx tables create.queueId config
      return (.createQueue outcome, tables)
  | .send send =>
    match Ttl.fromSecs send.ttl with
    | none     => throw (.relay .limitOutOfRange)
    | some ttl => do
      let (outcome, tables) ←
        sendTx tables send.queueId send.sender send.messageId send.payload.asBytes now ttl
      return (.send outcome, tables)
  | .fetch _ | .ack _ | .deleteQueue _ => DurableRelay.executeQueueRequest request now tables

def parseManifest (bytes : Bytes) : Checked BlobDurableError BlobManifest :=
  (Blob.parse bytes).adapt fun _ => .protocol .idConflict

variable [Sha256]

def putBlobChunkTx (tables : BlobTables) (uploadId : UploadId) (cap : CapabilityId) (index : UInt32)
    (ciphertext : Bytes) (now : Timestamp) :
    Checked BlobDurableError (BlobWriteOutcome × BlobTables) := do
  let row ← okOr (upload tables uploadId) .notFound
  ensure (row.uploadCap = cap.asBytes) .unauthorized
  ensure (now < fromBeBytes row.expiresAt) .expired
  let manifest ← parseManifest row.manifest
  let digest ← okOr (manifest.digest index.toNat) .limitOutOfRange
  let size ← add manifest.chunkSize.toNat 16
  ensure (ciphertext.length = size ∧ Sha256.digest ciphertext = digest) .chunkConflict
  match uploadChunk tables uploadId index with
  | some existing =>
    ensure (existing.ciphertext = ciphertext) .chunkConflict
    return (.duplicate, tables)
  | none =>
    let tables ← insertUploadChunk tables ⟨uploadId.asBytes, index, ciphertext⟩
    return (.stored, tables)

def commitBlobTx (tables : BlobTables) (uploadId : UploadId) (cap : CapabilityId)
    (requested : BlobId) (now : Timestamp) : Checked BlobDurableError (UInt64 × BlobTables) := do
  let row ← okOr (upload tables uploadId) .notFound
  ensure (row.uploadCap = cap.asBytes) .unauthorized
  let expiry := fromBeBytes row.expiresAt
  ensure (now < expiry) .expired
  match row.committedBlob with
  | some committed =>
    ensure (committed = requested.asBytes) .idConflict
    return (expiry, tables)
  | none =>
    let manifest ← parseManifest row.manifest
    ensure (identify manifest = requested) .identityMismatch
    let count := tables.uploadChunks.countP (·.uploadId = uploadId.asBytes)
    ensure (count = manifest.chunkCount) .incomplete
    verifyChunks tables uploadId manifest
    ensure ((object tables requested).all (·.manifest = manifest.asBytes)) .idConflict
    let tables ← publishTx tables uploadId row requested manifest
    return (expiry, tables)

def objectManifest (tables : BlobTables) (id : BlobId) : Checked BlobDurableError BlobManifest :=
  match object tables id with
  | none     => throw (.storage noRows)
  | some row => parseManifest row.manifest

def getBlobManifestTx (tables : BlobTables) (id : BlobId) (cap : CapabilityId) (now : Timestamp) :
    Checked BlobDurableError (BlobManifest × UInt64) := do
  let expiry ← authorizeGrant tables id GrantRow.downloadCap cap now
  let manifest ← objectManifest tables id
  ensure (identify manifest = id) .identityMismatch
  return (manifest, expiry)

def getBlobChunkTx (tables : BlobTables) (id : BlobId) (cap : CapabilityId) (index : UInt32)
    (now : Timestamp) : Checked BlobDurableError (Bytes × UInt64) := do
  let expiry ← authorizeGrant tables id GrantRow.downloadCap cap now
  let manifest ← objectManifest tables id
  let expected ← okOr (manifest.digest index.toNat) .limitOutOfRange
  let chunk ← okOr (Table.lookup ChunkRow.key (id.asBytes, index) tables.chunks) .notFound
  ensure (Sha256.digest chunk.ciphertext = expected) .chunkConflict
  return (chunk.ciphertext, expiry)

def executeBlobRequest (request : BlobRequest) (now : Timestamp) (tables : BlobTables) :
    Checked BlobDurableError (BlobResponseBody × BlobTables) :=
  match request with
  | .putChunk uploadId uploadCap index ciphertext => do
    let (outcome, tables) ← putBlobChunkTx tables uploadId uploadCap index ciphertext now
    return (.putChunk outcome, tables)
  | .commit uploadId uploadCap blobId => do
    let (expiry, tables) ← commitBlobTx tables uploadId uploadCap blobId now
    return (.commit expiry, tables)
  | .getManifest blobId downloadCap => do
    let (manifest, expiry) ← getBlobManifestTx tables blobId downloadCap now
    return (.getManifest manifest expiry, tables)
  | .getChunk blobId downloadCap index => do
    let (chunk, expiry) ← getBlobChunkTx tables blobId downloadCap index now
    return (.getChunk chunk expiry, tables)
  | .beginUpload .. | .renew .. | .delete .. => DurableRelay.executeBlobRequest request now tables

end Store

section Response

def errorResponse (requestId : RequestId) (command : Option Command) (status : Status) :
    Option Bytes := do
  let error ← (ErrorResponse.new command status).toOption
  encodeResponse ⟨requestId, .error error⟩

def blobErrorResponse (requestId : RequestId) (command : Option BlobCommand) (status : BlobStatus) :
    Option Bytes :=
  Blob.encodeBlobResponse ⟨requestId, { command, status, body := none }⟩

def encodeQueueOutcome (requestId : RequestId) (command : Command) :
    Except RelayError ResponseBody → Option Bytes
  | .ok body     => encodeResponse ⟨requestId, .success body⟩
  | .error error => errorResponse requestId command (relayStatus error)

def encodeBlobOutcome (requestId : RequestId) (command : BlobCommand) :
    Except BlobRelayError BlobResponseBody → Option Bytes
  | .ok body     => Blob.encodeBlobResponse ⟨requestId, { command, status := .ok, body }⟩
  | .error error => blobErrorResponse requestId command (blobStatus error)

def requestIdFromPrefix (bytes : Bytes) : Option RequestId :=
  if 17 ≤ bytes.length then do
    let id ← copyFromSlice 16 (slice bytes 1 17)
    return ⟨id⟩
  else
    return ⟨.replicate 16 0⟩

def decodeErrorRequestId (bytes : Bytes) : DecodeError → Option RequestId
  | .unsupportedVersion _ requestId => return requestId
  | _                               => requestIdFromPrefix bytes

def decodeErrorResponse (bytes : Bytes) (error : DecodeError) : Option Bytes := do
  let requestId ← decodeErrorRequestId bytes error
  match error with
  | .unsupportedVersion _ _ => errorResponse requestId none .unsupportedVersion
  | .frameTooLarge _        => errorResponse requestId none .frameTooLarge
  | _                       => errorResponse requestId none .malformedFrame

def blobDecodeErrorResponse (bytes : Bytes) (error : DecodeError) : Option Bytes := do
  let requestId ← decodeErrorRequestId bytes error
  match error with
  | .unsupportedVersion _ _        => blobErrorResponse requestId none .unsupportedVersion
  | .frameTooLarge _               => blobErrorResponse requestId none .frameTooLarge
  | .invalidValue "blob command" _ => blobErrorResponse requestId none .unknownCommand
  | _                              => blobErrorResponse requestId none .malformedFrame

end Response

-- The effects of commands within a transaction on all tables.
def queueEffect (effect : QueueTables → Checked DurableRelayError (α × QueueTables)) (store : Store) :
    Checked (EffectError RelayError) (α × Store) := do
  let result ← (effect store.queue).run
  DurableRelay.queueEffect (fun _ => result) store

def blobEffect (effect : BlobTables → Checked BlobDurableError (α × BlobTables)) (store : Store) :
    Checked (EffectError BlobRelayError) (α × Store) := do
  let result ← (effect store.blob).run
  DurableRelay.blobEffect (fun _ => result) store

-- The effect and the encoding of the call are replaced.
def exchange (database : Database Store) (call : Call Store)
    (effect : Store → Checked (EffectError call.ε) (call.α × Store))
    (encode : Except call.ε call.α → Option Bytes) :
    Option (Except DurableRelayError ReplayExchange × Database Store) := do
  match ← (effect database.store).run with
  | .error (.storage error)  => return (.error error, database)
  | .error (.protocol error) =>
    let response ← encode (.error error)
    return Replay.exchange.record database call database response
  | .ok (value, store)       =>
    let response ← encode (.ok value)
    return Replay.exchange.record database call { database with store } response

namespace RelayService

variable [Ed25519] [Sha256]

def screen (service : RelayService) (bytes : Bytes) (now : Timestamp) :
    Option (Except (Except ExchangeError Bytes) DecodedRequest × RelayService) := do
  match ← (decodeRequest bytes).run with
  | .error error =>
    let response ← decodeErrorResponse bytes error
    return (.error (.ok response), service)
  | .ok decoded  =>
    let requestId := decoded.frame.requestId
    let request   := decoded.frame.request
    let command   := request.command
    let principal := requestPrincipal request
    match ← (verifyRequest principal decoded.authenticatedBytes decoded.frame.auth).run with
    | .error _ =>
      let response ← errorResponse requestId command .authInvalid
      return (.error (.ok response), service)
    | .ok ()   =>
      let (admitted, queueRateLimiter) ← RateLimiter.admits service.queueRateLimiter principal now
      let service := { service with queueRateLimiter }
      if ¬admitted then
        return (.error (.error .overloaded), service)
      else
        match validateQueueRequest request with
        | .ok ()        => return (.ok decoded, service)
        | .error status =>
          let response ← errorResponse requestId command status
          return (.error (.ok response), service)

def screenBlob (service : RelayService) (bytes : Bytes) (now : Timestamp) :
    Option (Except (Except ExchangeError Bytes) DecodedBlobRequest × RelayService) := do
  match ← (Blob.decodeBlobRequest bytes).run with
  | .error error =>
    let response ← blobDecodeErrorResponse bytes error
    return (.error (.ok response), service)
  | .ok decoded  =>
    let requestId  := decoded.frame.requestId
    let request    := decoded.frame.request
    let command    := request.command
    let capability := request.capability
    match ← (verifyBlobRequest capability decoded.authenticatedBytes decoded.frame.auth).run with
    | .error _ =>
      let response ← blobErrorResponse requestId command .authInvalid
      return (.error (.ok response), service)
    | .ok ()   =>
      let (admitted, blobRateLimiter) ← RateLimiter.admits service.blobRateLimiter capability now
      let service := { service with blobRateLimiter }
      if ¬admitted then
        return (.error (.error .overloaded), service)
      else
        return (.ok decoded, service)

-- A storage failure may come last, so all operations in front of it count.
def submit (service : RelayService) (call : Call Store)
    (effect : Store → Checked (EffectError call.ε) (call.α × Store))
    (encode : Except call.ε call.α → Option Bytes) (conflict : Option Bytes) (fault : Bool) :
    Option (Except ExchangeError Bytes × RelayService) := do
  let result ← answer
  return if fault then (.error .storage, service) else result
where
  answer : Option (Except ExchangeError Bytes × RelayService) :=
    match Replay.lookup service.relay call.ns call.subject call.requestId with
    | some row =>
      if row.request = call.request then
        return (.ok row.response, service)
      else do
        let response ← conflict
        return (.ok response, service)
    | none     => do
      match ← exchange service.relay call effect encode with
      | (.ok (.respond response), relay) => return (.ok response, { service with relay })
      | (.ok .conflict, relay)           =>
        let response ← conflict
        return (.ok response, { service with relay })
      | (.error _, relay)                => return (.error .storage, { service with relay })

def exchangeAt (service : RelayService) (bytes : Bytes) (now : Timestamp) (fault : Bool) :
    Option (Except ExchangeError Bytes × RelayService) := do
  match ← screen service bytes now with
  | (.error answer, service) => return (answer, service)
  | (.ok decoded, service)   =>
    let requestId := decoded.frame.requestId
    let request   := decoded.frame.request
    submit service (RelayService.queueCall bytes now decoded)
      (queueEffect (executeQueueRequest request now)) (encodeQueueOutcome requestId request.command)
      (errorResponse requestId request.command .authReplay) fault

def exchangeBlobAt (service : RelayService) (bytes : Bytes) (now : Timestamp) (fault : Bool) :
    Option (Except ExchangeError Bytes × RelayService) := do
  match ← screenBlob service bytes now with
  | (.error answer, service) => return (answer, service)
  | (.ok decoded, service)   =>
    let requestId := decoded.frame.requestId
    let request   := decoded.frame.request
    submit service (RelayService.blobCall bytes now decoded)
      (blobEffect (executeBlobRequest request now)) (encodeBlobOutcome requestId request.command)
      (blobErrorResponse requestId request.command .authReplay) fault

-- Without a result, an operation on the path is undefined.
def step : RelayService.Input → RelayService →
    Option (Option (Except ExchangeError Bytes) × RelayService)
  | .exchange bytes now fault, service     => do
    let (answer, service) ← exchangeAt service bytes now fault
    return (some answer, service)
  | .exchangeBlob bytes now fault, service => do
    let (answer, service) ← exchangeBlobAt service bytes now fault
    return (some answer, service)
  | .restart, service                      => return (none, .new service.relay)

end RelayService
end Cofferwire.Strict
