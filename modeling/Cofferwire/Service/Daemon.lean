import Cofferwire.Library.Semaphore
import Cofferwire.Service.Exchange

namespace Cofferwire

open DurableRelay (Store)
open Replay (Call Database Namespace)

def maxConcurrentCommands   : Nat := 64
def maxConnections          : Nat := 256
def maxWebsocketConnections : Nat := 128

def frameMediaType     : String := "application/cofferwire"
def blobFrameMediaType : String := "application/cofferwire-blob"

namespace Daemon

-- The routes of both profiles differ in their media types and frame limits.
def mediaType : Namespace → String
  | .queue => frameMediaType
  | .blob  => blobFrameMediaType

def frameLimit : Namespace → Nat
  | .queue => maxFrameBytes
  | .blob  => maxBlobFrameBytes

-- How far the blocking task of an exchange has come. It reads the clock, then it passes the rate
-- limiter, and then it gets the lock on the database.
inductive Phase
  | spawned
  | clocked (now : Timestamp)
  | passed (now : Timestamp) (call : Call Store) (conflict : Bytes)
  | finished (answer : Except ExchangeError Bytes)

structure Exchange where
  ns    : Namespace
  bytes : Bytes
  phase : Phase

-- The permit for a command is dropped when the blocking task ends.
def Exchange.running (exchange : Exchange) : Bool :=
  match exchange.phase with
  | .finished _ => false
  | _           => true

inductive Task
  -- The handler of a posted frame, which awaits its exchange.
  | request (exchange : Exchange)
  -- A blocking task goes on when its handler is dropped.
  | detached (exchange : Exchange)
  -- A session on an upgraded connection, which awaits a message or an exchange.
  | session (connection : Nat) (ns : Namespace) (exchange : Option Exchange)
  | ended

namespace Task

def exchange : Task → Option Exchange
  | request exchange | detached exchange => some exchange
  | session _ _ exchange                 => exchange
  | ended                                => none

-- Moves the exchange of a task to another phase. Nobody is interested in the end of a detached one.
def enter (task : Task) (phase : Phase) : Task :=
  match task, phase with
  | detached _, .finished _                      => ended
  | request exchange, phase                      => request { exchange with phase }
  | detached exchange, phase                     => detached { exchange with phase }
  | session connection ns (some exchange), phase => session connection ns (some { exchange with phase })
  | session connection ns none, _                => session connection ns none
  | ended, _                                     => ended

-- Tasks which hold a permit for a command, and those which hold one for a session.
def running (task : Task) : Bool :=
  task.exchange.any Exchange.running

def isSession : Task → Bool
  | session .. => true
  | _          => false

-- Sessions which share the permit of a connection.
def isOn (connection : Nat) : Task → Bool
  | session connection' .. => connection' = connection
  | _                      => false

end Task

-- An accepted connection with the number of references to its permit. The server holds one of them
-- until it drops the connection.
structure Connection where
  serving    : Bool
  references : Nat
deriving DecidableEq, Repr

def Connection.isHeld (connection : Connection) : Bool :=
  connection.references ≠ 0

end Daemon

-- The service together with everything which runs at the same time. Tasks and connections are
-- identified by their positions.
structure Daemon where
  service              : RelayService
  commands             : Semaphore
  websocketConnections : Semaphore
  connectionLimit      : Semaphore
  connections          : List Daemon.Connection
  tasks                : List Daemon.Task

namespace Daemon

-- What the socket of a session yields. It fails when it is idle for too long, when it is closed, and
-- when the peer violates the protocol.
inductive Message
  | binary (bytes : Bytes)
  | text
  | close
  | ping
  | pong
  | failure
deriving DecidableEq, Repr

-- A step of the blocking task of an exchange. A storage failure can hit the last one.
inductive Action
  | clock (now : Timestamp)
  | screen
  | submit (fault : Bool)
deriving DecidableEq, Repr

-- What can happen next.
inductive Event
  | accept
  -- The server drops a connection.
  | drop (connection : Nat)
  | post (connection : Nat) (ns : Namespace) (contentType : Option String) (body : Bytes)
  | upgrade (connection : Nat) (ns : Namespace)
  | receive (task : Nat) (message : Message)
  | proceed (task : Nat) (action : Action)
  -- The answer of an exchange gets to the one who awaits it. Sending it can fail.
  | deliver (task : Nat) (sent : Bool)
  -- The handler of a request is dropped because of the deadline or together with its connection.
  | cancel (task : Nat)
  | restart
deriving DecidableEq, Repr

inductive Output
  | none
  | connectionRefused
  | ok (contentType : String) (body : Bytes)
  | switchingProtocols
  | requestTimeout
  | payloadTooLarge
  | unsupportedMediaType
  | serviceUnavailable
  | message (bytes : Bytes)
deriving DecidableEq, Repr

def new (relay : Database Store) : Daemon where
  service              := .new relay
  commands             := .new maxConcurrentCommands
  websocketConnections := .new maxWebsocketConnections
  connectionLimit      := .new maxConnections
  connections          := []
  tasks                := []

variable (daemon : Daemon)

def setTask (i : Nat) (task : Task) : Daemon :=
  { daemon with tasks := daemon.tasks.set i task }

def isServing (c : Nat) : Bool :=
  daemon.connections[c]?.any (·.serving)

-- The permit of a connection goes back with the last reference to it.
def dropReference (c : Nat) : Daemon :=
  match daemon.connections[c]? with
  | none            => daemon
  | some connection =>
    let references := connection.references - 1
    let limit      := daemon.connectionLimit
    { daemon with
      connections     := daemon.connections.set c { connection with references }
      connectionLimit := if references = 0 then limit.release else limit }

def accept : Output × Daemon :=
  match daemon.connectionLimit.tryAcquire with
  | none                 => (.connectionRefused, daemon)
  | some connectionLimit =>
    let connections := daemon.connections ++ [⟨true, 1⟩]
    (.none, { daemon with connectionLimit, connections })

def drop (c : Nat) : Daemon :=
  match daemon.connections[c]? with
  | some ⟨true, references⟩ =>
    { daemon with connections := daemon.connections.set c ⟨false, references⟩ }.dropReference c
  | _ => daemon

-- Starts an exchange unless there are too many of them.
def spawn (ns : Namespace) (bytes : Bytes) : Option (Exchange × Daemon) :=
  daemon.commands.tryAcquire.map fun commands => (⟨ns, bytes, .spawned⟩, { daemon with commands })

def postFrame (ns : Namespace) (contentType : Option String) (body : Bytes) : Output × Daemon :=
  if body.length > frameLimit ns then
    (.payloadTooLarge, daemon)
  else if contentType ≠ some (mediaType ns) then
    (.unsupportedMediaType, daemon)
  else
    match daemon.spawn ns body with
    | none                    => (.serviceUnavailable, daemon)
    | some (exchange, daemon) =>
      (.none, { daemon with tasks := daemon.tasks ++ [.request exchange] })

def addReference (c : Nat) : Daemon :=
  match daemon.connections[c]? with
  | none            => daemon
  | some connection =>
    let references := connection.references + 1
    { daemon with connections := daemon.connections.set c { connection with references } }

def upgradeWebsocket (c : Nat) (ns : Namespace) : Output × Daemon :=
  match daemon.websocketConnections.tryAcquire with
  | none                      => (.serviceUnavailable, daemon)
  | some websocketConnections =>
    let tasks := daemon.tasks ++ [.session c ns none]
    (.switchingProtocols, { daemon with websocketConnections, tasks }.addReference c)

-- A session drops its permits when it ends.
def endSession (i c : Nat) : Daemon :=
  let websocketConnections := daemon.websocketConnections.release
  { daemon.setTask i .ended with websocketConnections }.dropReference c

def receive (i : Nat) (message : Message) : Daemon :=
  match daemon.tasks[i]? with
  | some (.session c ns none) =>
    match message with
    | .binary bytes =>
      if bytes.length > frameLimit ns then
        daemon.endSession i c
      else
        match daemon.spawn ns bytes with
        | none                    => daemon.endSession i c
        | some (exchange, daemon) => daemon.setTask i (.session c ns (some exchange))
    | .close | .text | .failure => daemon.endSession i c
    | .ping | .pong             => daemon
  | _ => daemon

def deliver (i : Nat) (sent : Bool) : Output × Daemon :=
  match daemon.tasks[i]? with
  | some (.request ⟨ns, _, .finished answer⟩) =>
    match answer with
    | .ok response => (.ok (mediaType ns) response, daemon.setTask i .ended)
    | .error _     => (.serviceUnavailable, daemon.setTask i .ended)
  | some (.session c ns (some ⟨_, _, .finished answer⟩)) =>
    match answer with
    | .error _     => (.none, daemon.endSession i c)
    | .ok response =>
      if sent then
        (.message response, daemon.setTask i (.session c ns none))
      else
        (.none, daemon.endSession i c)
  | _ => (.none, daemon)

def cancel (i : Nat) : Output × Daemon :=
  match daemon.tasks[i]? with
  | some (.request exchange) =>
    let task := if exchange.running then .detached exchange else .ended
    (.requestTimeout, daemon.setTask i task)
  | _ => (.none, daemon)

-- A restart ends all tasks and loses all connections.
def restart : Daemon :=
  { new daemon.service.relay with
    connections := daemon.connections.map fun _ => ⟨false, 0⟩
    tasks       := daemon.tasks.map fun _ => .ended }

section

variable [Profile] [Ed25519] [Sha256]

-- The part of an exchange before the lock on the database is held.
def screen (service : RelayService) (ns : Namespace) (bytes : Bytes) (now : Timestamp) :
    Phase × RelayService :=
  match ns with
  | .queue =>
    match service.screen bytes now with
    | (.error answer, service) => (.finished answer, service)
    | (.ok decoded, service)   =>
      let conflict :=
        errorResponse decoded.frame.requestId decoded.frame.request.command .authReplay
          RelayService.authReplay_ne_ok
      (.passed now (RelayService.queueCall bytes now decoded) conflict, service)
  | .blob =>
    match service.screenBlob bytes now with
    | (.error answer, service) => (.finished answer, service)
    | (.ok decoded, service)   =>
      let conflict :=
        blobErrorResponse decoded.frame.requestId decoded.frame.request.command .authReplay
      (.passed now (RelayService.blobCall bytes now decoded) conflict, service)

def Exchange.advance (exchange : Exchange) (service : RelayService) :
    Action → Option (Phase × RelayService)
  | .clock now =>
    match exchange.phase with
    | .spawned => some (.clocked now, service)
    | _        => none
  | .screen =>
    match exchange.phase with
    | .clocked now => some (screen service exchange.ns exchange.bytes now)
    | _            => none
  | .submit fault =>
    match exchange.phase with
    | .passed _ call conflict =>
      let (answer, service) := service.submit call conflict fault
      some (.finished answer, service)
    | _ => none

-- Moves the exchange of a task on. Its permit is dropped at its end.
def enter (i : Nat) (task : Task) (service : RelayService) (phase : Phase) : Daemon :=
  let daemon := { daemon with service }.setTask i (task.enter phase)
  match phase with
  | .finished _ => { daemon with commands := daemon.commands.release }
  | _           => daemon

def proceed (i : Nat) (action : Action) : Daemon :=
  match daemon.tasks[i]? with
  | none      => daemon
  | some task =>
    match task.exchange with
    | none          => daemon
    | some exchange =>
      match exchange.advance daemon.service action with
      | none                  => daemon
      | some (phase, service) => daemon.enter i task service phase

def step : Event → Daemon → Output × Daemon
  | .accept, daemon                     => daemon.accept
  | .drop c, daemon                     => (.none, daemon.drop c)
  | .post c ns contentType body, daemon =>
    if daemon.isServing c then daemon.postFrame ns contentType body else (.none, daemon)
  | .upgrade c ns, daemon               =>
    if daemon.isServing c then daemon.upgradeWebsocket c ns else (.none, daemon)
  | .receive i message, daemon          => (.none, daemon.receive i message)
  | .proceed i action, daemon           => (.none, daemon.proceed i action)
  | .deliver i sent, daemon             => daemon.deliver i sent
  | .cancel i, daemon                   => daemon.cancel i
  | .restart, daemon                    => (.none, daemon.restart)

def machine : Machine Daemon Event Output where
  init := new ⟨.empty, fun _ => []⟩
  step := step

-- A run of the daemon as a run of the service which exchanges one frame after another. As the order
-- in which exchanges pass the rate limiter is not the one in which they get the lock, the service is
-- restarted before each of them.
section Sequential

open RelayService (Input)

def input (ns : Namespace) (bytes : Bytes) (now : Timestamp) (fault : Bool) : Input :=
  match ns with
  | .queue => .exchange bytes now fault
  | .blob  => .exchangeBlob bytes now fault

-- A frame which is refused because of its content is answered without the database. One which is
-- refused by the rate limiter gets no answer.
def Exchange.emits (exchange : Exchange) (service : RelayService) : Action → List Input
  | .clock _ => []
  | .screen =>
    match exchange.phase with
    | .clocked now =>
      match (Daemon.screen service exchange.ns exchange.bytes now).fst with
      | .finished (.ok _) => [.restart, input exchange.ns exchange.bytes now false]
      | _                 => []
    | _ => []
  | .submit fault =>
    match exchange.phase with
    | .passed now _ _ => [.restart, input exchange.ns exchange.bytes now fault]
    | _               => []

def exchangeAt (i : Nat) : Option Exchange :=
  daemon.tasks[i]?.bind Task.exchange

def emits : Event → Daemon → List Input
  | .proceed i action, daemon =>
    match daemon.exchangeAt i with
    | none          => []
    | some exchange => exchange.emits daemon.service action
  | .restart, _ => [.restart]
  | _, _        => []

end Sequential

-- What a client notices of a task.
section Dialogue

structure Frame where
  time  : Nat
  ns    : Namespace
  bytes : Bytes
deriving DecidableEq, Repr

structure Response where
  time  : Nat
  bytes : Bytes
deriving DecidableEq, Repr

-- Every frame is answered before the next one is taken.
inductive Dialogue (Answered : Frame → Response → Prop) : List Frame → List Response → Prop
  | nil : Dialogue Answered [] []
  | exchange (h : Dialogue Answered frames responses) (ha : Answered frame response)
    (hl : ∀ response' ∈ responses, response'.time < frame.time) :
    Dialogue Answered (frames ++ [frame]) (responses ++ [response])

variable (events : Nat → Event) (i : Nat)

-- The frames for which the task has started exchanges before the `n`-th event.
def frames : Nat → List Frame
  | 0     => []
  | n + 1 =>
    match (machine.state events n).exchangeAt i, (machine.state events (n + 1)).exchangeAt i with
    | none, some exchange => frames n ++ [⟨n, exchange.ns, exchange.bytes⟩]
    | _, _                => frames n

def delivered : Event → Output → Option (Nat × Bytes)
  | .deliver i _, .ok _ body    => some (i, body)
  | .deliver i _, .message body => some (i, body)
  | _, _                        => none

-- The responses which the task has given before the `n`-th event.
def responses : Nat → List Response
  | 0     => []
  | n + 1 =>
    match delivered (events n) (machine.output events n) with
    | some (j, body) => if j = i then responses n ++ [⟨n, body⟩] else responses n
    | none           => responses n

end Dialogue
end
end Daemon
end Cofferwire
