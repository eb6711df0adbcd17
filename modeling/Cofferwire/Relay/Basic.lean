import Cofferwire.Library.Except
import Cofferwire.Library.Machine
import Cofferwire.Types.Queue

namespace Cofferwire

namespace Relay

-- A lifetime in seconds.
@[ext]
structure Ttl where
  asSecs : UInt64
  pos    : asSecs ≠ 0
deriving Repr

instance : DecidableEq Ttl :=
  fun _ _ => decidable_of_iff _ Ttl.ext_iff.symm

def Ttl.fromSecs (seconds : UInt64) : Option Ttl :=
  if h : seconds = 0 then none else some ⟨seconds, h⟩

-- The limits of a queue. On a 64-bit target, a `usize` has the values of a `u64`.
@[ext]
structure QueueLimits where
  maxMessages     : UInt64
  maxMessageBytes : UInt64
  messages_pos    : maxMessages ≠ 0
  bytes_pos       : maxMessageBytes ≠ 0
deriving Repr

instance : DecidableEq QueueLimits :=
  fun _ _ => decidable_of_iff _ QueueLimits.ext_iff.symm

def QueueLimits.new (maxMessages maxMessageBytes : UInt64) : Option QueueLimits :=
  if hm : maxMessages = 0 then
    none
  else if hb : maxMessageBytes = 0 then
    none
  else
    some ⟨maxMessages, maxMessageBytes, hm, hb⟩

structure QueueConfig where
  sender    : Principal
  recipient : Principal
  limits    : QueueLimits
deriving DecidableEq, Repr

structure Delivery where
  id        : MessageId
  payload   : Bytes
  expiresAt : Timestamp
deriving DecidableEq, Repr

end Relay

inductive RelayError
  | queueNotFound
  | unauthorized
  | queueIdConflict
  | messageIdConflict
  | messageTooLarge
  | queueFull
  | expiryOverflow
  | limitOutOfRange
  | ackMismatch
  | notDelivered
deriving DecidableEq, Repr

namespace Relay

structure QueuedMessage where
  id        : MessageId
  payload   : Bytes
  expiresAt : Timestamp
  delivered : Bool
deriving DecidableEq, Repr

structure Queue where
  config   : QueueConfig
  messages : List QueuedMessage
deriving DecidableEq, Repr

def QueuedMessage.toDelivery (message : QueuedMessage) : Delivery where
  id        := message.id
  payload   := message.payload
  expiresAt := message.expiresAt

namespace Queue

def discardExpired (queue : Queue) (now : Timestamp) : Queue :=
  { queue with messages := queue.messages.filter (·.expiresAt > now) }

-- The rest of `send` on an authorized queue without expired messages.
def enqueue (queue : Queue) (messageId : MessageId) (payload : Bytes) (now : Timestamp) (ttl : Ttl) :
    Except RelayError SendOutcome × Queue :=
  match queue.messages.find? (·.id = messageId) with
  | some existing =>
    if existing.payload = payload then
      (.ok .duplicate, queue)
    else
      (.error .messageIdConflict, queue)
  | none =>
    if payload.length > queue.config.limits.maxMessageBytes.toNat then
      (.error .messageTooLarge, queue)
    else if queue.messages.length ≥ queue.config.limits.maxMessages.toNat then
      (.error .queueFull, queue)
    else
      match checkedAdd now ttl.asSecs with
      | none           => (.error .expiryOverflow, queue)
      | some expiresAt =>
        let message := { id := messageId, payload, expiresAt, delivered := false }
        (.ok .accepted, { queue with messages := queue.messages ++ [message] })

-- The rest of `fetch` on an authorized queue without expired messages.
def front (queue : Queue) : Except RelayError (Option Delivery) × Queue :=
  match queue.messages with
  | []              => (.ok none, queue)
  | message :: rest =>
    (.ok message.toDelivery, { queue with messages := { message with delivered := true } :: rest })

-- The rest of `acknowledge` on an authorized queue without expired messages.
def popFront (queue : Queue) (messageId : MessageId) : Except RelayError Unit × Queue :=
  match queue.messages with
  | []              => (.error .ackMismatch, queue)
  | message :: rest =>
    if message.id ≠ messageId then
      (.error .ackMismatch, queue)
    else if ¬message.delivered then
      (.error .notDelivered, queue)
    else
      (.ok (), { queue with messages := rest })

end Queue
end Relay

-- The in-memory reference state machine. An operation which fails may still have changed the state.
@[ext]
structure Relay where
  queues : QueueId → Option Relay.Queue

namespace Relay

def new : Relay where
  queues _ := none

def insert (relay : Relay) (id : QueueId) (queue : Queue) : Relay where
  queues := Function.update relay.queues id (some queue)

def remove (relay : Relay) (id : QueueId) : Relay where
  queues := Function.update relay.queues id none

def createQueue (relay : Relay) (id : QueueId) (config : QueueConfig) :
    Except RelayError CreateQueueOutcome × Relay :=
  match relay.queues id with
  | some existing =>
    if existing.config = config then
      (.ok .alreadyExists, relay)
    else
      (.error .queueIdConflict, relay)
  | none => (.ok .created, relay.insert id { config, messages := [] })

def send (relay : Relay) (queueId : QueueId) (sender : Principal) (messageId : MessageId)
    (payload : Bytes) (now : Timestamp) (ttl : Ttl) : Except RelayError SendOutcome × Relay :=
  match relay.queues queueId with
  | none       => (.error .queueNotFound, relay)
  | some queue =>
    if queue.config.sender ≠ sender then
      (.error .unauthorized, relay)
    else
      let (result, queue) := (queue.discardExpired now).enqueue messageId payload now ttl
      (result, relay.insert queueId queue)

def recipientQueue (relay : Relay) (queueId : QueueId) (recipient : Principal) :
    Except RelayError Queue :=
  match relay.queues queueId with
  | none       => .error .queueNotFound
  | some queue => if queue.config.recipient ≠ recipient then .error .unauthorized else .ok queue

def fetch (relay : Relay) (queueId : QueueId) (recipient : Principal) (now : Timestamp) :
    Except RelayError (Option Delivery) × Relay :=
  match relay.recipientQueue queueId recipient with
  | .error e  => (.error e, relay)
  | .ok queue =>
    let (result, queue) := (queue.discardExpired now).front
    (result, relay.insert queueId queue)

def acknowledge (relay : Relay) (queueId : QueueId) (recipient : Principal) (messageId : MessageId)
    (now : Timestamp) : Except RelayError Unit × Relay :=
  match relay.recipientQueue queueId recipient with
  | .error e  => (.error e, relay)
  | .ok queue =>
    let (result, queue) := (queue.discardExpired now).popFront messageId
    (result, relay.insert queueId queue)

def deleteQueue (relay : Relay) (queueId : QueueId) (recipient : Principal) :
    Except RelayError Unit × Relay :=
  match relay.recipientQueue queueId recipient with
  | .error e => (.error e, relay)
  | .ok _    => (.ok (), relay.remove queueId)

inductive Operation
  | createQueue (id : QueueId) (config : QueueConfig)
  | send (queueId : QueueId) (sender : Principal) (messageId : MessageId) (payload : Bytes)
    (now : Timestamp) (ttl : Ttl)
  | fetch (queueId : QueueId) (recipient : Principal) (now : Timestamp)
  | acknowledge (queueId : QueueId) (recipient : Principal) (messageId : MessageId)
    (now : Timestamp)
  | deleteQueue (queueId : QueueId) (recipient : Principal)

def Operation.queueId : Operation → QueueId
  | createQueue id _ | send id .. | fetch id .. | acknowledge id .. | deleteQueue id _ => id

-- The operations on whole queues do not depend on time.
def Operation.timestamp : Operation → Option Timestamp
  | send _ _ _ _ now _ | fetch _ _ now | acknowledge _ _ _ now => now
  | createQueue .. | deleteQueue ..                            => none

inductive Outcome
  | createQueue (outcome : CreateQueueOutcome)
  | send (outcome : SendOutcome)
  | fetch (delivery : Option Delivery)
  | acknowledge
  | deleteQueue
deriving DecidableEq, Repr

abbrev Reply := Except RelayError Outcome

-- The uniform shape of a result.
def answer (outcome : α → Outcome) (result : Except RelayError α × Relay) : Reply × Relay :=
  (result.fst.map outcome, result.snd)

def apply : Operation → Relay → Reply × Relay
  | .createQueue id config, relay =>
    answer .createQueue <| relay.createQueue id config
  | .send queueId sender messageId payload now ttl, relay =>
    answer .send <| relay.send queueId sender messageId payload now ttl
  | .fetch queueId recipient now, relay =>
    answer .fetch <| relay.fetch queueId recipient now
  | .acknowledge queueId recipient messageId now, relay =>
    answer (fun _ => .acknowledge) <| relay.acknowledge queueId recipient messageId now
  | .deleteQueue queueId recipient, relay =>
    answer (fun _ => .deleteQueue) <| relay.deleteQueue queueId recipient

def machine : Machine Relay Operation Reply where
  init := new
  step := apply

def messages (relay : Relay) (q : QueueId) : List QueuedMessage :=
  (relay.queues q).elim [] Queue.messages

end Relay
end Cofferwire
