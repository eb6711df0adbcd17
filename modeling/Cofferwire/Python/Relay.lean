import Cofferwire.Library.Machine
import Cofferwire.Library.Table
import Cofferwire.Python.Codec

namespace Cofferwire.Python

-- A number which can be bound to a parameter of a statement. No bound number is negative.
structure Integer where
  value   : Nat
  bounded : value < 2 ^ 63
deriving DecidableEq, Repr

def Integer.new (value : Nat) : Except Error Integer :=
  if h : value < 2 ^ 63 then .ok ⟨value, h⟩ else .error .overflowError

structure QueueRow where
  queue       : ByteVec 32
  sender      : ByteVec 32
  recipient   : ByteVec 32
  maxMessages : Integer
  maxBytes    : Integer
deriving DecidableEq, Repr

structure MessageRow where
  sequence  : Nat
  queue     : ByteVec 32
  message   : ByteVec 32
  payload   : Bytes
  expires   : Integer
  delivered : Bool
deriving DecidableEq, Repr

structure ReplayRow where
  principal : ByteVec 32
  requestId : ByteVec 16
  frame     : Bytes
  response  : Bytes
deriving DecidableEq, Repr

def MessageRow.key (row : MessageRow) : ByteVec 32 × ByteVec 32 :=
  (row.queue, row.message)

def ReplayRow.key (row : ReplayRow) : ByteVec 32 × ByteVec 16 :=
  (row.principal, row.requestId)

-- The tables, and the largest sequence number which any message has had so far.
structure Database where
  queues   : List QueueRow
  messages : List MessageRow
  replays  : List ReplayRow
  sequence : Nat
deriving DecidableEq, Repr

def Database.empty : Database where
  queues   := []
  messages := []
  replays  := []
  sequence := 0

-- A connection which is outside of a transaction or works on a copy of the database.
structure Connection where
  committed   : Database
  transaction : Option Database
deriving DecidableEq, Repr

namespace Connection

def new : Connection where
  committed   := .empty
  transaction := none

def beginImmediate (connection : Connection) : Except Error Connection :=
  match connection.transaction with
  | none   => .ok { connection with transaction := connection.committed }
  | some _ => .error .operationalError

def rollback (connection : Connection) : Connection :=
  { connection with transaction := none }

def commit (connection : Connection) : Connection where
  committed   := connection.transaction.getD connection.committed
  transaction := none

-- What the statements of the connection see.
def database (connection : Connection) : Database :=
  connection.transaction.getD connection.committed

end Connection

namespace Relay

def insertQueue (database : Database) (row : QueueRow) : Except Error Database :=
  match Table.insert QueueRow.queue row database.queues with
  | some queues => .ok { database with queues }
  | none        => .error .integrityError

-- The new row gets the next sequence number.
def insertMessage (database : Database) (queue message : ByteVec 32) (payload : Bytes)
    (expires : Integer) : Except Error Database :=
  let sequence := database.sequence + 1
  let row := { sequence, queue, message, payload, expires, delivered := false }
  match Table.insert MessageRow.key row database.messages with
  | some messages => .ok { database with messages, sequence }
  | none          => .error .integrityError

def insertReplay (database : Database) (row : ReplayRow) : Except Error Database :=
  match Table.insert ReplayRow.key row database.replays with
  | some replays => .ok { database with replays }
  | none         => .error .integrityError

def queue (database : Database) (queue : ByteVec 32) : Option QueueRow :=
  Table.lookup QueueRow.queue queue database.queues

def prune (database : Database) (queue : ByteVec 32) (now : Nat) : Except Error Database := do
  let now ← Integer.new now
  let messages := database.messages.filter fun row =>
    ¬(row.queue = queue ∧ row.expires.value ≤ now.value)
  return { database with messages }

-- The row which a query for the oldest message of a queue returns.
def oldest (database : Database) (queue : ByteVec 32) : Option MessageRow :=
  Table.first MessageRow.sequence (database.messages.filter (·.queue = queue))

-- A status and a body.
abbrev Answer := Nat × List Value

-- The part of CREATE_QUEUE which follows the check of the limits.
def executeCreate (database : Database) (config : Option QueueRow)
    (queue sender recipient : ByteVec 32) (maxMessages maxBytes : Nat) :
    Except Error (Answer × Database) :=
  match config with
  | none => do
    let maxMessages ← Integer.new maxMessages
    let maxBytes ← Integer.new maxBytes
    let database ← insertQueue database { queue, sender, recipient, maxMessages, maxBytes }
    return ((Code.ok, [.int 0]), database)
  | some row =>
    if row.sender = sender ∧ row.recipient = recipient ∧ row.maxMessages.value = maxMessages ∧
      row.maxBytes.value = maxBytes
    then
      .ok ((Code.ok, [.int 1]), database)
    else
      .ok ((Code.queueIdConflict, []), database)

-- The parts of the other commands which follow the removal of expired messages.
def executeSend (database : Database) (config : QueueRow) (queue message : ByteVec 32)
    (payload : Bytes) (ttl now : Nat) : Except Error (Answer × Database) :=
  match Table.lookup MessageRow.key (queue, message) database.messages with
  | some existing =>
    if existing.payload = payload then
      .ok ((Code.ok, [.int 1]), database)
    else
      .ok ((Code.messageIdConflict, []), database)
  | none =>
    let count := database.messages.countP (·.queue = queue)
    if payload.length > config.maxBytes.value then
      .ok ((Code.messageTooLarge, []), database)
    else if count ≥ config.maxMessages.value then
      .ok ((Code.queueFull, []), database)
    else if ttl < 1 then
      .ok ((Code.limitOutOfRange, []), database)
    -- The source subtracts, which may result in a negative number.
    else if now + ttl > 0xffffffffffffffff then
      .ok ((Code.expiryOverflow, []), database)
    else do
      let expires ← Integer.new (now + ttl)
      let database ← insertMessage database queue message payload expires
      return ((Code.ok, [.int 0]), database)

def executeFetch (database : Database) (queue : ByteVec 32) : Answer × Database :=
  match oldest database queue with
  | none     => ((Code.ok, [.int 0]), database)
  | some row =>
    let messages := Table.update (·.sequence = row.sequence) ({ · with delivered := true })
      database.messages
    let body := [
      .int 1,
      .bytes row.message.toBytes,
      .bytes row.payload,
      .int row.expires.value
    ]
    ((Code.ok, body), { database with messages })

def executeAck (database : Database) (queue message : ByteVec 32) : Answer × Database :=
  match oldest database queue with
  | none     => ((Code.ackMismatch, []), database)
  | some row =>
    if row.message ≠ message then
      ((Code.ackMismatch, []), database)
    else if ¬row.delivered then
      ((Code.notDelivered, []), database)
    else
      let messages := database.messages.filter (·.sequence ≠ row.sequence)
      ((Code.ok, []), { database with messages })

def executeDelete (database : Database) (queue : ByteVec 32) : Answer × Database :=
  let messages := database.messages.filter (·.queue ≠ queue)
  let queues := database.queues.filter (·.queue ≠ queue)
  ((Code.ok, []), { database with messages, queues })

def intAt (body : List Value) (i : Nat) : Except Error Nat := do
  match ← index body i with
  | .int value => return value
  | _          => .error .typeError

def bytesAt (body : List Value) (i : Nat) : Except Error Bytes := do
  match ← index body i with
  | .bytes value => return value
  | _            => .error .typeError

-- The commands on an existing queue, once the principal is authorized.
def executeOn (database : Database) (config : QueueRow) (queue : ByteVec 32) (command : Nat)
    (body : List Value) (now : Nat) : Except Error (Answer × Database) := do
  if command = send then
    let database ← prune database queue now
    let message ← idAt body 2
    let payload ← bytesAt body 3
    let ttl ← intAt body 4
    executeSend database config queue message payload ttl now
  else if command = fetch then
    let database ← prune database queue now
    return executeFetch database queue
  else if command = ack then
    let database ← prune database queue now
    return executeAck database queue (← idAt body 2)
  else if command = deleteQueue then
    return executeDelete database queue
  else
    return ((Code.unknownCommand, []), database)

def execute (database : Database) (request : RequestFrame) (now : Nat) (principal : ByteVec 32) :
    Except Error (Answer × Database) := do
  let body := request.body
  let command := request.command
  let queue ← idAt body 0
  let config := Relay.queue database queue
  if command = createQueue then
    let maxMessages ← intAt body 3
    let maxBytes ← intAt body 4
    if maxMessages < 1 ∨ maxBytes < 1 ∨ maxBytes > maxMessageBytes then
      return ((Code.limitOutOfRange, []), database)
    else
      executeCreate database config queue principal (← idAt body 2) maxMessages maxBytes
  else
    match config with
    | none        => return ((Code.queueNotFound, []), database)
    | some config =>
      let required := if command = send then config.sender else config.recipient
      if principal ≠ required then
        return ((Code.unauthorized, []), database)
      else
        executeOn database config queue command body now

section

variable [Ed25519]

-- The handlers for exceptions which are raised before the transaction.
def refuse (requestId : ByteVec 16) (command : Nat) : Error → Except Error Bytes
  | .protocolError status          => encodeResponse requestId command status []
  | .valueError _ | .typeError     => encodeResponse requestId 0 Code.malformedFrame []
  | error                          => .error error

def authenticate (request : RequestFrame) : Except Error (ByteVec 32) := do
  let principal ← idAt request.body 1
  verifyRequest request principal
  return principal

-- The part of the transaction which follows the search for a replay record.
def respond (database : Database) (request : RequestFrame) (frame : Bytes) (now : Nat)
    (principal : ByteVec 32) : Except Error (Bytes × Database) := do
  let ((status, body), database) ← execute database request now principal
  let response ← encodeResponse request.requestId request.command status body
  let database ← insertReplay database { principal, requestId := request.requestId, frame, response }
  return (response, database)

-- Whatever is raised within the transaction is raised again after its rollback.
def transact (connection : Connection) (request : RequestFrame) (frame : Bytes) (now : Nat)
    (principal : ByteVec 32) : Except Error Bytes × Connection :=
  let database := connection.database
  match Table.lookup ReplayRow.key (principal, request.requestId) database.replays with
  | some replay =>
    if replay.frame = frame then
      (.ok replay.response, connection.rollback)
    else
      (encodeResponse request.requestId request.command Code.authReplay [], connection.rollback)
  | none =>
    match respond database request frame now principal with
    | .error error             => (.error error, connection.rollback)
    | .ok (response, database) =>
      (.ok response, { connection with transaction := database }.commit)

def requestId (frame : Bytes) : ByteVec 16 :=
  if h : 17 ≤ frame.length then ⟨slice frame 1 17, slice_length h⟩ else .replicate 16 0

def exchange (stack : Stack) (connection : Connection) (frame : Bytes) (now : Nat) :
    Except Error Bytes × Connection :=
  let requestId := requestId frame
  if 17 ≤ frame.length ∧ frame.head? ≠ some version then
    (encodeResponse requestId 0 Code.unsupportedVersion [], connection)
  else
    match decodeRequest stack frame with
    | .error error => (refuse requestId 0 error, connection)
    | .ok request  =>
      match authenticate request with
      | .error error  => (refuse requestId request.command error, connection)
      | .ok principal =>
        match connection.beginImmediate with
        | .error error    => (.error error, connection)
        | .ok connection  => transact connection request frame now principal

-- A relay with a fresh database.
def machine (stack : Stack) : Machine Connection (Bytes × Nat) (Except Error Bytes) where
  init             := .new
  step input state := exchange stack state input.fst input.snd

end
end Relay
end Cofferwire.Python
