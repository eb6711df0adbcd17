import Cofferwire.Relay.DurableBlob
import Cofferwire.Relay.Replay

namespace Cofferwire

-- What a request and its response are in terms of the reference model.
def Request.operation (now : Timestamp) : Request → Option Relay.Operation
  | createQueue value => do
    let limits ← Relay.QueueLimits.new value.limits.maxMessages value.limits.maxMessageBytes
    return .createQueue value.queueId ⟨value.sender, value.recipient, limits⟩
  | send value => do
    let ttl ← Relay.Ttl.fromSecs value.ttl
    return .send value.queueId value.sender value.messageId value.payload.asBytes now ttl
  | fetch value       => return .fetch value.queueId value.recipient now
  | ack value         => return .acknowledge value.queueId value.recipient value.messageId now
  | deleteQueue value => return .deleteQueue value.queueId value.recipient

def Delivery.toRelay (delivery : Delivery) : Relay.Delivery where
  id        := delivery.messageId
  payload   := delivery.payload.asBytes
  expiresAt := delivery.expiresAt

def ResponseBody.outcome : ResponseBody → Relay.Outcome
  | createQueue outcome => .createQueue outcome
  | send outcome        => .send outcome
  | fetch delivery      => .fetch (delivery.map Delivery.toRelay)
  | ack                 => .acknowledge
  | deleteQueue         => .deleteQueue

namespace DurableRelay

open Relay (QueueConfig Ttl)
open Replay (Call EffectError)

-- All tables except for those of the replay records.
structure Store where
  queue : QueueTables
  blob  : BlobTables
deriving DecidableEq, Repr

def Store.empty : Store where
  queue := .empty
  blob  := .empty

def executeQueueRequest (request : Request) (now : Timestamp) (tables : QueueTables) :
    Except DurableRelayError (ResponseBody × QueueTables) :=
  match request with
  | .createQueue create =>
    match Relay.QueueLimits.new create.limits.maxMessages create.limits.maxMessageBytes with
    | none        => .error (.relay .limitOutOfRange)
    | some limits => do
      let config := ⟨create.sender, create.recipient, limits⟩
      let (outcome, tables) ← createQueueTx tables create.queueId config
      return (.createQueue outcome, tables)
  | .send send =>
    match Ttl.fromSecs send.ttl with
    | none     => .error (.relay .limitOutOfRange)
    | some ttl => do
      let (outcome, tables) ←
        sendTx tables send.queueId send.sender send.messageId send.payload.asBytes now ttl
      return (.send outcome, tables)
  | .fetch fetch => do
    let (delivery, tables) ← fetchTx tables fetch.queueId fetch.recipient now
    match delivery with
    | none          => return (.fetch none, tables)
    | some delivery =>
      match Payload.new delivery.payload with
      | .error _    => .error (.relay .messageTooLarge)
      | .ok payload => return (.fetch (some ⟨delivery.id, payload, delivery.expiresAt⟩), tables)
  | .ack ack => do
    let ((), tables) ← acknowledgeTx tables ack.queueId ack.recipient ack.messageId now
    return (.ack, tables)
  | .deleteQueue delete => do
    let ((), tables) ← deleteQueueTx tables delete.queueId delete.recipient
    return (.deleteQueue, tables)

-- The effects of commands within a transaction on all tables.
def queueEffect (effect : QueueTables → Except DurableRelayError (α × QueueTables)) (store : Store) :
    Except (EffectError RelayError) (α × Store) :=
  match effect store.queue with
  | .ok (value, queue)    => .ok (value, { store with queue })
  | .error (.relay error) => .error (.protocol error)
  | .error error          => .error (.storage error)

def blobEffect (effect : BlobTables → Except BlobDurableError (α × BlobTables)) (store : Store) :
    Except (EffectError BlobRelayError) (α × Store) :=
  match effect store.blob with
  | .ok (value, blob)        => .ok (value, { store with blob })
  | .error (.protocol error) => .error (.protocol error)
  | .error (.storage error)  => .error (.storage error)

-- The commands of both profiles.
inductive StoreCommand
  | queue (request : Request)
  | blob (request : BlobRequest)

inductive Verdict
  | accepted
  | rejected
  | failed (error : DurableRelayError)
deriving DecidableEq, Repr

-- An effect is committed if it succeeds and otherwise rolled back.
def conclude (store : Store) : Except (EffectError ε) (α × Store) → Verdict × Store
  | .ok (_, store')         => (.accepted, store')
  | .error (.protocol _)    => (.rejected, store)
  | .error (.storage error)  => (.failed error, store)

def StoreCommand.execute [Sha256] (now : Timestamp) (store : Store) :
    StoreCommand → Verdict × Store
  | queue request => conclude store (queueEffect (executeQueueRequest request now) store)
  | blob request  => conclude store (blobEffect (executeBlobRequest request now) store)

def commandMachine [Sha256] : Machine Store (StoreCommand × Timestamp) Verdict where
  init             := .empty
  step input store := input.fst.execute input.snd store

-- The arguments with which `queue_request_exchange` and `blob_request_exchange` call `exchange`.
def queueRequestCall (principal : Principal) (requestId : RequestId) (requestBytes : Bytes)
    (request : Request) (now : Timestamp) (encode : Except RelayError ResponseBody → Bytes) :
    Call Store where
  ns        := .queue
  subject   := principal.asBytes
  requestId := requestId
  request   := requestBytes
  effect    := queueEffect (executeQueueRequest request now)
  encode    := encode

def blobRequestCall [Sha256] (capability : CapabilityId) (requestId : RequestId)
    (requestBytes : Bytes) (request : BlobRequest) (now : Timestamp)
    (encode : Except BlobRelayError BlobResponseBody → Bytes) : Call Store where
  ns        := .blob
  subject   := capability.asBytes
  requestId := requestId
  request   := requestBytes
  effect    := blobEffect (executeBlobRequest request now)
  encode    := encode

end DurableRelay
end Cofferwire
