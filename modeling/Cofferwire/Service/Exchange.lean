import Cofferwire.Codec.Blob
import Cofferwire.Codec.Queue
import Cofferwire.Crypto.Request
import Cofferwire.Relay.Exchange
import Cofferwire.Service.RateLimit

namespace Cofferwire

open Codec (DecodeError DecodedRequest ResponseFrame encodeResponse decodeRequest)
open Codec.Blob (DecodedBlobRequest encodeBlobResponse decodeBlobRequest)
open DurableRelay (Store queueRequestCall blobRequestCall)
open Replay (Call Database)

inductive ExchangeError
  | overloaded
  | storage
  | internal
deriving DecidableEq, Repr

-- The database and the state which is lost with the process.
structure RelayService where
  relay            : Database Store
  queueRateLimiter : RateLimiter Principal
  blobRateLimiter  : RateLimiter CapabilityId

def queueRateLimitWindowSecs  : UInt64 := 60
def queueRateLimitMaxRequests : Nat    := 300
def blobRateLimitWindowSecs   : UInt64 := 60
def blobRateLimitMaxRequests  : Nat    := 1000
def rateLimitMaxTrackedKeys   : Nat    := 100000

def requestPrincipal : Request → Principal
  | .createQueue create => create.sender
  | .send send          => send.sender
  | .fetch fetch        => fetch.recipient
  | .ack ack            => ack.recipient
  | .deleteQueue delete => delete.recipient

-- On a 64-bit target all limits of queues can be represented.
def validateQueueRequest : Request → Except Status Unit
  | .send send => if (Relay.Ttl.fromSecs send.ttl).isNone then .error .limitOutOfRange else .ok ()
  | .createQueue _ | .fetch _ | .ack _ | .deleteQueue _ => .ok ()

def relayStatus : RelayError → Status
  | .queueNotFound     => .queueNotFound
  | .unauthorized      => .unauthorized
  | .queueIdConflict   => .queueIdConflict
  | .messageIdConflict => .messageIdConflict
  | .messageTooLarge   => .messageTooLarge
  | .queueFull         => .queueFull
  | .expiryOverflow    => .expiryOverflow
  | .limitOutOfRange   => .limitOutOfRange
  | .ackMismatch       => .ackMismatch
  | .notDelivered      => .notDelivered

def blobStatus : BlobRelayError → BlobStatus
  | .notFound         => .notFound
  | .unauthorized     => .unauthorized
  | .idConflict       => .idConflict
  | .limitOutOfRange  => .limitOutOfRange
  | .chunkConflict    => .chunkConflict
  | .incomplete       => .incomplete
  | .identityMismatch => .identityMismatch
  | .expired          => .expired

theorem relayStatus_ne_ok (error : RelayError) : relayStatus error ≠ .ok := by
  cases error <;> simp [relayStatus]

theorem blobStatus_ne_ok (error : BlobRelayError) : blobStatus error ≠ .ok := by
  cases error <;> simp [blobStatus]

theorem validateQueueRequest_ne_ok (h : validateQueueRequest request = .error status) :
    status ≠ .ok := by
  unfold validateQueueRequest at h
  split at h <;> try split at h
  all_goals cases h
  decide

-- The callers pass only error statuses.
def errorResponse (requestId : RequestId) (command : Option Command) (status : Status)
    (failed : status ≠ .ok := by decide) : Bytes :=
  encodeResponse ⟨requestId, .error ⟨command, status, failed⟩⟩

def blobErrorResponse (requestId : RequestId) (command : Option BlobCommand) (status : BlobStatus) :
    Bytes :=
  encodeBlobResponse ⟨requestId, { command, status, body := none }⟩

def encodeQueueOutcome (requestId : RequestId) (command : Command) :
    Except RelayError ResponseBody → Bytes
  | .ok body     => encodeResponse ⟨requestId, .success body⟩
  | .error error => errorResponse requestId command (relayStatus error) (relayStatus_ne_ok error)

def encodeBlobOutcome (requestId : RequestId) (command : BlobCommand) :
    Except BlobRelayError BlobResponseBody → Bytes
  | .ok body     => encodeBlobResponse ⟨requestId, { command, status := .ok, body }⟩
  | .error error => blobErrorResponse requestId command (blobStatus error)

def requestIdFromPrefix (bytes : Bytes) : RequestId where
  asBytes := (ByteVec.tryFrom 16 (slice bytes 1 17)).getD (.replicate 16 0)

def decodeErrorRequestId (bytes : Bytes) : DecodeError → RequestId
  | .unsupportedVersion _ requestId => requestId
  | _                               => requestIdFromPrefix bytes

def decodeErrorResponse (bytes : Bytes) (error : DecodeError) : Bytes :=
  let requestId := decodeErrorRequestId bytes error
  match error with
  | .unsupportedVersion _ _ => errorResponse requestId none .unsupportedVersion
  | .frameTooLarge _        => errorResponse requestId none .frameTooLarge
  | _                       => errorResponse requestId none .malformedFrame

def blobDecodeErrorResponse (bytes : Bytes) (error : DecodeError) : Bytes :=
  let requestId := decodeErrorRequestId bytes error
  match error with
  | .unsupportedVersion _ _        => blobErrorResponse requestId none .unsupportedVersion
  | .frameTooLarge _               => blobErrorResponse requestId none .frameTooLarge
  | .invalidValue "blob command" _ => blobErrorResponse requestId none .unknownCommand
  | _                              => blobErrorResponse requestId none .malformedFrame

namespace RelayService

theorem authReplay_ne_ok : Status.authReplay ≠ .ok := by
  decide

variable [Profile] [Ed25519] [Sha256]

def new (relay : Database Store) : RelayService where
  relay            := relay
  queueRateLimiter :=
    .new queueRateLimitWindowSecs queueRateLimitMaxRequests rateLimitMaxTrackedKeys
  blobRateLimiter  :=
    .new blobRateLimitWindowSecs blobRateLimitMaxRequests rateLimitMaxTrackedKeys

-- The part of an exchange which precedes the access to the database. It ends with an answer or lets
-- the request pass.
def screen (service : RelayService) (bytes : Bytes) (now : Timestamp) :
    Except (Except ExchangeError Bytes) DecodedRequest × RelayService :=
  match decodeRequest bytes with
  | .error error => (.error (.ok (decodeErrorResponse bytes error)), service)
  | .ok decoded  =>
    let requestId := decoded.frame.requestId
    let request   := decoded.frame.request
    let command   := request.command
    let principal := requestPrincipal request
    match verifyRequest principal decoded.authenticatedBytes decoded.frame.auth with
    | .error _ => (.error (.ok (errorResponse requestId command .authInvalid)), service)
    | .ok ()   =>
      let (verdict, queueRateLimiter) := service.queueRateLimiter.admits principal now
      let service := { service with queueRateLimiter }
      match verdict with
      | none       => (.error (.error .internal), service)
      | some false => (.error (.error .overloaded), service)
      | some true  =>
        match h : validateQueueRequest request with
        | .ok ()         => (.ok decoded, service)
        | .error status  =>
          let failed := validateQueueRequest_ne_ok h
          (.error (.ok (errorResponse requestId command status failed)), service)

def screenBlob (service : RelayService) (bytes : Bytes) (now : Timestamp) :
    Except (Except ExchangeError Bytes) DecodedBlobRequest × RelayService :=
  match decodeBlobRequest bytes with
  | .error error => (.error (.ok (blobDecodeErrorResponse bytes error)), service)
  | .ok decoded  =>
    let requestId  := decoded.frame.requestId
    let request    := decoded.frame.request
    let command    := request.command
    let capability := request.capability
    match verifyBlobRequest capability decoded.authenticatedBytes decoded.frame.auth with
    | .error _ => (.error (.ok (blobErrorResponse requestId command .authInvalid)), service)
    | .ok ()   =>
      let (verdict, blobRateLimiter) := service.blobRateLimiter.admits capability now
      let service := { service with blobRateLimiter }
      match verdict with
      | none       => (.error (.error .internal), service)
      | some false => (.error (.error .overloaded), service)
      | some true  => (.ok decoded, service)

-- The part of an exchange which accesses the database. A storage failure leaves it as it is. When
-- the failure only conceals that the transaction has been committed, this is an exchange whose
-- response gets lost.
def submit (service : RelayService) (call : Call Store) (conflict : Bytes) (fault : Bool) :
    Except ExchangeError Bytes × RelayService :=
  if fault then
    (.error .storage, service)
  else
    match Replay.lookup service.relay call.ns call.subject call.requestId with
    | some row => (.ok (if row.request = call.request then row.response else conflict), service)
    | none     =>
      match Replay.exchange service.relay call with
      | (.ok (.respond response), relay) => (.ok response, { service with relay })
      | (.ok .conflict, relay)           => (.ok conflict, { service with relay })
      | (.error _, relay)                => (.error .storage, { service with relay })

def queueCall (bytes : Bytes) (now : Timestamp) (decoded : DecodedRequest) : Call Store :=
  let requestId := decoded.frame.requestId
  let request   := decoded.frame.request
  queueRequestCall (requestPrincipal request) requestId bytes request now
    (encodeQueueOutcome requestId request.command)

def blobCall (bytes : Bytes) (now : Timestamp) (decoded : DecodedBlobRequest) : Call Store :=
  let requestId := decoded.frame.requestId
  let request   := decoded.frame.request
  blobRequestCall request.capability requestId bytes request now
    (encodeBlobOutcome requestId request.command)

def exchangeAt (service : RelayService) (bytes : Bytes) (now : Timestamp) (fault : Bool) :
    Except ExchangeError Bytes × RelayService :=
  match service.screen bytes now with
  | (.error answer, service) => (answer, service)
  | (.ok decoded, service)   =>
    let conflict :=
      errorResponse decoded.frame.requestId decoded.frame.request.command .authReplay
    service.submit (queueCall bytes now decoded) conflict fault

def exchangeBlobAt (service : RelayService) (bytes : Bytes) (now : Timestamp) (fault : Bool) :
    Except ExchangeError Bytes × RelayService :=
  match service.screenBlob bytes now with
  | (.error answer, service) => (answer, service)
  | (.ok decoded, service)   =>
    let conflict :=
      blobErrorResponse decoded.frame.requestId decoded.frame.request.command .authReplay
    service.submit (blobCall bytes now decoded) conflict fault

inductive Input
  | exchange (bytes : Bytes) (now : Timestamp) (fault : Bool)
  | exchangeBlob (bytes : Bytes) (now : Timestamp) (fault : Bool)
  | restart
deriving DecidableEq, Repr

-- Exchanges are serialized by the lock on the database.
def step : Input → RelayService → Option (Except ExchangeError Bytes) × RelayService
  | .exchange bytes now fault, service     =>
    let (answer, service) := service.exchangeAt bytes now fault
    (some answer, service)
  | .exchangeBlob bytes now fault, service =>
    let (answer, service) := service.exchangeBlobAt bytes now fault
    (some answer, service)
  | .restart, service                      => (none, new service.relay)

def machine : Machine RelayService Input (Option (Except ExchangeError Bytes)) where
  init := new ⟨.empty, fun _ => []⟩
  step := step

end RelayService
end Cofferwire
