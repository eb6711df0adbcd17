import Cofferwire.Relay.Durable

namespace Cofferwire

inductive ReplayExchange
  | respond (response : Bytes)
  | conflict
deriving DecidableEq, Repr

namespace Replay

inductive Namespace
  | queue
  | blob
deriving DecidableEq, Repr

-- The rows of both tables of replay records.
structure Row where
  subject   : ByteVec 32
  requestId : ByteVec 16
  request   : Bytes
  response  : Bytes
deriving DecidableEq, Repr

def Row.key (row : Row) : ByteVec 32 × ByteVec 16 :=
  (row.subject, row.requestId)

-- The replay records next to all other tables.
structure Database (σ : Type) where
  store   : σ
  replays : Namespace → List Row

inductive EffectError (ε : Type)
  | protocol (error : ε)
  | storage (error : DurableRelayError)

-- The arguments of an exchange. The effect has no access to the replay records.
structure Call (σ : Type) where
  {α ε      : Type}
  ns        : Namespace
  subject   : ByteVec 32
  requestId : RequestId
  request   : Bytes
  effect    : σ → Except (EffectError ε) (α × σ)
  encode    : Except ε α → Bytes

def Call.key (call : Call σ) : ByteVec 32 × ByteVec 16 :=
  (call.subject, call.requestId.asBytes)

def Call.row (call : Call σ) (response : Bytes) : Row where
  subject   := call.subject
  requestId := call.requestId.asBytes
  request   := call.request
  response  := response

def lookup (database : Database σ) (ns : Namespace) (subject : ByteVec 32)
    (requestId : RequestId) : Option Row :=
  Table.lookup Row.key (subject, requestId.asBytes) (database.replays ns)

-- Fails if the key is already in use.
def insert (database : Database σ) (call : Call σ) (response : Bytes) : Option (Database σ) := do
  let rows ← Table.insert Row.key (call.row response) (database.replays call.ns)
  return { database with replays := Function.update database.replays call.ns rows }

-- The answer to a call whose key is already in use.
def replay (database : Database σ) (call : Call σ) : Except DurableRelayError ReplayExchange :=
  match lookup database call.ns call.subject call.requestId with
  | some row => if row.request = call.request then .ok (.respond row.response) else .ok .conflict
  | none     => .error (.storage .other)

-- An exchange which is neither interrupted by another one nor by a storage failure.
def exchange (database : Database σ) (call : Call σ) :
    Except DurableRelayError ReplayExchange × Database σ :=
  match call.effect database.store with
  | .error (.storage error) => (.error error, database)
  | .error (.protocol error) => record database (call.encode (.error error))
  | .ok (value, store) => record { database with store } (call.encode (.ok value))
where
  record (transaction : Database σ) (response : Bytes) :=
    match insert transaction call response with
    | some transaction => (.ok (.respond response), transaction)
    | none             => (replay database call, database)

-- How far a connection has come with an exchange. Transactions work on their own copy.
inductive Phase (σ : Type)
  | idle
  | called (call : Call σ)
  | begun (call : Call σ) (transaction : Database σ)
  | rejected (call : Call σ) (response : Bytes)
  | answered (call : Call σ) (response : Bytes) (transaction : Database σ)
  | inserted (call : Call σ) (response : Bytes) (transaction : Database σ)
  | conflicted (call : Call σ)

structure State (κ σ : Type) where
  committed : Database σ
  writer    : Option κ
  phase     : κ → Phase σ

-- A storage failure can hit every step. When a commit fails, its effects may still be lasting.
inductive Action (σ : Type)
  | call (call : Call σ)
  | proceed
  | fail (error : DurableRelayError)
  | failLate (error : DurableRelayError)
  | crash

structure Output (σ : Type) where
  commit : Option (Call σ × Bytes)                                   := none
  reply  : Option (Call σ × Except DurableRelayError ReplayExchange) := none

namespace State

variable [DecidableEq κ] (s : State κ σ) (k : κ)

def enter (phase : Phase σ) : State κ σ :=
  { s with phase := Function.update s.phase k phase }

-- Starts an immediate transaction, which fails while another connection has one.
def lock (call : Call σ) (phase : Phase σ) : Output σ × State κ σ :=
  match s.writer with
  | some _ => ({ reply := some (call, .error (.storage .busy)) }, s.enter k .idle)
  | none   => ({}, { s with writer := some k }.enter k phase)

-- Ends the connection's transaction without committing it.
def unlock : State κ σ :=
  { s with writer := if s.writer = some k then none else s.writer }

def finish (call : Call σ) (result : Except DurableRelayError ReplayExchange) :
    Output σ × State κ σ :=
  ({ reply := some (call, result) }, (s.unlock k).enter k .idle)

def commit (call : Call σ) (response : Bytes) (transaction : Database σ)
    (result : Except DurableRelayError ReplayExchange) : Output σ × State κ σ :=
  ({ commit := some (call, response), reply := some (call, result) },
    { s.unlock k with committed := transaction }.enter k .idle)

def proceed : Output σ × State κ σ :=
  match s.phase k with
  | .idle                   => ({}, s)
  | .called call            => s.lock k call (.begun call s.committed)
  | .begun call transaction =>
    match call.effect transaction.store with
    | .error (.storage error)  => s.finish k call (.error error)
    | .error (.protocol error) =>
      ({}, (s.unlock k).enter k (.rejected call (call.encode (.error error))))
    | .ok (value, store)       =>
      ({}, s.enter k (.answered call (call.encode (.ok value)) { transaction with store }))
  | .rejected call response             => s.lock k call (.answered call response s.committed)
  | .answered call response transaction =>
    match insert transaction call response with
    | some transaction => ({}, s.enter k (.inserted call response transaction))
    | none             => ({}, (s.unlock k).enter k (.conflicted call))
  | .inserted call response transaction =>
    s.commit k call response transaction (.ok (.respond response))
  | .conflicted call                    => s.finish k call (replay s.committed call)

def fail (error : DurableRelayError) : Output σ × State κ σ :=
  match s.phase k with
  | .idle => ({}, s)
  | .called call | .begun call _ | .rejected call _ | .answered call _ _ | .inserted call _ _
  | .conflicted call => s.finish k call (.error error)

def failLate (error : DurableRelayError) : Output σ × State κ σ :=
  match s.phase k with
  | .inserted call response transaction => s.commit k call response transaction (.error error)
  | _                                   => s.fail k error

end State

-- The connections take turns in any order.
def step [DecidableEq κ] (input : κ × Action σ) (s : State κ σ) : Output σ × State κ σ :=
  match input with
  | (k, .call call) =>
    match s.phase k with
    | .idle => ({}, s.enter k (.called call))
    | _     => ({}, s)
  | (k, .proceed)        => s.proceed k
  | (k, .fail error)     => s.fail k error
  | (k, .failLate error) => s.failLate k error
  | (k, .crash)          => ({}, (s.unlock k).enter k .idle)

def machine [DecidableEq κ] (store : σ) : Machine (State κ σ) (κ × Action σ) (Output σ) where
  init := ⟨⟨store, fun _ => []⟩, none, fun _ => .idle⟩
  step := step

end Replay
end Cofferwire
