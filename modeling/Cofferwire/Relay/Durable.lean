import Cofferwire.Library.Table
import Cofferwire.Relay.Basic

namespace Cofferwire

inductive StorageErrorKind
  | busy
  | readOnly
  | full
  | io
  | corrupt
  | other
deriving DecidableEq, Repr

inductive DurableRelayError
  | relay (error : RelayError)
  | storage (kind : StorageErrorKind)
deriving DecidableEq, Repr

namespace DurableRelay

open Relay (QueueConfig Ttl QueuedMessage Operation Outcome)

-- A violated constraint and data which cannot be decoded are no special kinds of errors.
def constraintViolation : DurableRelayError := .storage .other
def invalidData         : DurableRelayError := .storage .other

-- The types of the columns ensure the schema's constraints on lengths.
structure QueueRow where
  queueId         : ByteVec 32
  sender          : ByteVec 32
  recipient       : ByteVec 32
  maxMessages     : ByteVec 8
  maxMessageBytes : ByteVec 8
deriving DecidableEq, Repr

structure MessageRow where
  sequence  : Nat
  queueId   : ByteVec 32
  messageId : ByteVec 32
  payload   : Bytes
  expiresAt : ByteVec 8
  delivered : Bool
deriving DecidableEq, Repr

structure QueueTables where
  queues   : List QueueRow
  messages : List MessageRow
deriving DecidableEq, Repr

def QueueTables.empty : QueueTables where
  queues   := []
  messages := []

def QueueRow.config (row : QueueRow) : Option QueueConfig := do
  let limits ← Relay.QueueLimits.new (fromBeBytes row.maxMessages) (fromBeBytes row.maxMessageBytes)
  return ⟨⟨row.sender⟩, ⟨row.recipient⟩, limits⟩

def readQueue (tables : QueueTables) (queueId : QueueId) :
    Except DurableRelayError (Option QueueConfig) :=
  match Table.lookup QueueRow.queueId queueId.asBytes tables.queues with
  | none     => .ok none
  | some row =>
    match row.config with
    | some config => .ok config
    | none        => .error invalidData

def authorizeRecipient (tables : QueueTables) (queueId : QueueId) (recipient : Principal) :
    Except DurableRelayError Unit := do
  match ← readQueue tables queueId with
  | none        => .error (.relay .queueNotFound)
  | some config => if config.recipient ≠ recipient then .error (.relay .unauthorized) else .ok ()

-- Binary values are compared bytewise.
def discardExpired (tables : QueueTables) (queueId : QueueId) (now : Timestamp) : QueueTables where
  queues   := tables.queues
  messages := tables.messages.filter fun row =>
    ¬(row.queueId = queueId.asBytes ∧ row.expiresAt.toBytes ≤ (toBeBytes now).toBytes)

def insertQueue (tables : QueueTables) (row : QueueRow) : Except DurableRelayError QueueTables :=
  match Table.insert QueueRow.queueId row tables.queues with
  | some queues => .ok { tables with queues }
  | none        => .error constraintViolation

-- A message must belong to a queue and its identifier must be unique in that queue.
def insertMessage (tables : QueueTables) (row : MessageRow) : Except DurableRelayError QueueTables :=
  if (Table.lookup QueueRow.queueId row.queueId tables.queues).isNone then
    .error constraintViolation
  else
    match Table.insert (fun row : MessageRow => (row.queueId, row.messageId)) row tables.messages with
    | some messages => .ok { tables with messages }
    | none          => .error constraintViolation

def createQueueTx (tables : QueueTables) (id : QueueId) (config : QueueConfig) :
    Except DurableRelayError (CreateQueueOutcome × QueueTables) :=
  match Table.lookup QueueRow.queueId id.asBytes tables.queues with
  | some existing =>
    if existing.sender = config.sender.asBytes ∧ existing.recipient = config.recipient.asBytes ∧
      fromBeBytes existing.maxMessages = config.limits.maxMessages ∧
      fromBeBytes existing.maxMessageBytes = config.limits.maxMessageBytes
    then
      .ok (.alreadyExists, tables)
    else
      .error (.relay .queueIdConflict)
  | none => do
    let tables ← insertQueue tables {
      queueId         := id.asBytes
      sender          := config.sender.asBytes
      recipient       := config.recipient.asBytes
      maxMessages     := toBeBytes config.limits.maxMessages
      maxMessageBytes := toBeBytes config.limits.maxMessageBytes
    }
    return (.created, tables)

-- The rest of `sendTx` on an authorized queue without expired messages.
def enqueueTx (tables : QueueTables) (config : QueueConfig) (queueId : QueueId)
    (messageId : MessageId) (payload : Bytes) (now : Timestamp) (ttl : Ttl) :
    Except DurableRelayError (SendOutcome × QueueTables) :=
  match tables.messages.find? fun row =>
    row.queueId = queueId.asBytes ∧ row.messageId = messageId.asBytes with
  | some existing =>
    if existing.payload = payload then
      .ok (.duplicate, tables)
    else
      .error (.relay .messageIdConflict)
  | none =>
    let count := tables.messages.countP (·.queueId = queueId.asBytes)
    if payload.length > config.limits.maxMessageBytes.toNat then
      .error (.relay .messageTooLarge)
    else if count ≥ config.limits.maxMessages.toNat then
      .error (.relay .queueFull)
    else
      match checkedAdd now ttl.asSecs with
      | none           => .error (.relay .expiryOverflow)
      | some expiresAt => do
        let tables ← insertMessage tables {
          sequence  := Table.nextRowid MessageRow.sequence tables.messages
          queueId   := queueId.asBytes
          messageId := messageId.asBytes
          payload   := payload
          expiresAt := toBeBytes expiresAt
          delivered := false
        }
        return (.accepted, tables)

def sendTx (tables : QueueTables) (queueId : QueueId) (sender : Principal) (messageId : MessageId)
    (payload : Bytes) (now : Timestamp) (ttl : Ttl) :
    Except DurableRelayError (SendOutcome × QueueTables) := do
  match ← readQueue tables queueId with
  | none        => .error (.relay .queueNotFound)
  | some config =>
    if config.sender ≠ sender then
      .error (.relay .unauthorized)
    else
      enqueueTx (discardExpired tables queueId now) config queueId messageId payload now ttl

-- The row which a query for the oldest message of a queue returns.
def currentRow (tables : QueueTables) (queueId : QueueId) : Option MessageRow :=
  Table.first MessageRow.sequence (tables.messages.filter (·.queueId = queueId.asBytes))

def fetchTx (tables : QueueTables) (queueId : QueueId) (recipient : Principal) (now : Timestamp) :
    Except DurableRelayError (Option Relay.Delivery × QueueTables) := do
  authorizeRecipient tables queueId recipient
  let tables := discardExpired tables queueId now
  match currentRow tables queueId with
  | none     => return (none, tables)
  | some row =>
    let messages := Table.update (·.sequence = row.sequence) ({ · with delivered := true })
      tables.messages
    return (some ⟨⟨row.messageId⟩, row.payload, fromBeBytes row.expiresAt⟩, { tables with messages })

def acknowledgeTx (tables : QueueTables) (queueId : QueueId) (recipient : Principal)
    (messageId : MessageId) (now : Timestamp) : Except DurableRelayError (Unit × QueueTables) := do
  authorizeRecipient tables queueId recipient
  let tables := discardExpired tables queueId now
  match currentRow tables queueId with
  | none     => .error (.relay .ackMismatch)
  | some row =>
    if row.messageId ≠ messageId.asBytes then
      .error (.relay .ackMismatch)
    else if ¬row.delivered then
      .error (.relay .notDelivered)
    else
      return ((), { tables with messages := tables.messages.filter (·.sequence ≠ row.sequence) })

-- The messages of a queue are deleted with it.
def deleteQueueTx (tables : QueueTables) (queueId : QueueId) (recipient : Principal) :
    Except DurableRelayError (Unit × QueueTables) := do
  authorizeRecipient tables queueId recipient
  return ((), {
    queues   := tables.queues.filter (·.queueId ≠ queueId.asBytes)
    messages := tables.messages.filter (·.queueId ≠ queueId.asBytes)
  })

-- A transaction is discarded when it returns an error and otherwise committed.
def transact (outcome : α → ω) (tx : σ → Except ε (α × σ)) (state : σ) : Except ε ω × σ :=
  match tx state with
  | .ok (a, state') => (.ok (outcome a), state')
  | .error e        => (.error e, state)

def apply : Operation → QueueTables → Except DurableRelayError Outcome × QueueTables
  | .createQueue id config =>
    transact .createQueue (createQueueTx · id config)
  | .send queueId sender messageId payload now ttl =>
    transact .send (sendTx · queueId sender messageId payload now ttl)
  | .fetch queueId recipient now =>
    transact .fetch (fetchTx · queueId recipient now)
  | .acknowledge queueId recipient messageId now =>
    transact (fun _ => .acknowledge) (acknowledgeTx · queueId recipient messageId now)
  | .deleteQueue queueId recipient =>
    transact (fun _ => .deleteQueue) (deleteQueueTx · queueId recipient)

def machine : Machine QueueTables Operation (Except DurableRelayError Outcome) where
  init := .empty
  step := apply

end DurableRelay
end Cofferwire
