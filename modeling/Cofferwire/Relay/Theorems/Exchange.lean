import Cofferwire.Relay.Exchange
import Cofferwire.Relay.Theorems.BlobAccess
import Cofferwire.Relay.Theorems.Durable
import Cofferwire.Relay.Theorems.Replay

namespace Cofferwire

namespace Replay

variable {database : Database σ} {call : Call σ}

theorem lookup_eq_none :
    lookup database call.ns call.subject call.requestId = none ↔ database.Fresh call :=
  Table.lookup_eq_none

-- The call is rejected in the current state.
def Rejects (database : Database σ) (call : Call σ) (response : Bytes) : Prop :=
  ∃ error, call.effect database.store = .error (.protocol error) ∧
    response = call.encode (.error error)

-- An exchange with an unused key fails or is answered and recorded.
theorem exchange_fresh (hf : database.Fresh call) :
    (∃ error, call.effect database.store = .error (.storage error) ∧
      exchange database call = (.error error, database)) ∨
    ∃ response transaction, Answered (Rejects database) database call response transaction ∧
      exchange database call = (.ok (.respond response), transaction.record call response) := by
  have hr {response transaction} (h : Answered (Rejects database) database call response transaction) :
      exchange.record database call transaction response =
        (.ok (.respond response), transaction.record call response) := by
    simp only [exchange.record, insert_eq_some.mpr ⟨h.fresh.mpr hf, rfl⟩]
  rcases he : call.effect database.store with (error | error) | ⟨value, store⟩
  case error.storage => exact .inl ⟨error, rfl, by simp [exchange, he]⟩
  case error.protocol =>
    have ha : Answered (Rejects database) database _ (call.encode (.error error)) _ :=
      .rejection ⟨error, he, rfl⟩
    exact .inr ⟨_, _, ha, by simp [exchange, he, hr ha]⟩
  case ok =>
    have ha := Answered.success (P := Rejects database) he
    exact .inr ⟨_, _, ha, by simp [exchange, he, hr ha]⟩

end Replay

namespace DurableRelay

theorem queueEffect_eq_ok {effect : QueueTables → Except DurableRelayError (α × QueueTables)} :
    queueEffect effect store = .ok (value, store') ↔
      ∃ queue, effect store.queue = .ok (value, queue) ∧ store' = { store with queue } := by
  unfold queueEffect
  split <;> simp [*, eq_comm]

theorem blobEffect_eq_ok {effect : BlobTables → Except BlobDurableError (α × BlobTables)} :
    blobEffect effect store = .ok (value, store') ↔
      ∃ blob, effect store.blob = .ok (value, blob) ∧ store' = { store with blob } := by
  unfold blobEffect
  split <;> simp [*, eq_comm]

-- A request which succeeds is an operation which succeeds.
theorem executeQueueRequest_apply (h : executeQueueRequest request now tables = .ok (body, tables')) :
    ∃ op, request.operation now = some op ∧ apply op tables = (.ok body.outcome, tables') := by
  cases request
  case createQueue create =>
    simp only [executeQueueRequest] at h
    split at h
    case h_1 => cases h
    case h_2 limits hl =>
      obtain ⟨⟨_, _⟩, ht, h⟩ := Except.bind_eq_ok.mp h
      cases h
      simp only [Request.operation, hl]
      exact ⟨_, rfl, by simp [apply, transact, ht, ResponseBody.outcome]⟩
  case send send =>
    simp only [executeQueueRequest] at h
    split at h
    case h_1 => cases h
    case h_2 ttl hl =>
      obtain ⟨⟨_, _⟩, ht, h⟩ := Except.bind_eq_ok.mp h
      cases h
      simp only [Request.operation, hl]
      exact ⟨_, rfl, by simp [apply, transact, ht, ResponseBody.outcome]⟩
  case fetch fetch =>
    obtain ⟨⟨delivery, _⟩, ht, h⟩ := Except.bind_eq_ok.mp h
    refine ⟨_, rfl, ?_⟩
    cases delivery
    case none =>
      cases h
      simp [apply, transact, ht, ResponseBody.outcome]
    case some delivery =>
      simp only at h
      split at h <;> cases h
      case h_2 payload hp =>
        simp [apply, transact, ht, ResponseBody.outcome, Delivery.toRelay, ←Payload.new_eq_ok.mp hp]
  case ack ack =>
    obtain ⟨⟨_, _⟩, ht, h⟩ := Except.bind_eq_ok.mp h
    cases h
    exact ⟨_, rfl, by simp [apply, transact, ht, ResponseBody.outcome]⟩
  case deleteQueue delete =>
    obtain ⟨⟨_, _⟩, ht, h⟩ := Except.bind_eq_ok.mp h
    cases h
    exact ⟨_, rfl, by simp [apply, transact, ht, ResponseBody.outcome]⟩

-- Therefore it does what the operation does in the reference model.
theorem executeQueueRequest_relay (hv : tables.Valid)
    (h : executeQueueRequest request now tables = .ok (body, tables')) :
    tables'.Valid ∧ ∃ op, request.operation now = some op ∧
      Relay.apply op tables.relay = (.ok body.outcome, tables'.relay) := by
  have ⟨op, ho, ha⟩ := executeQueueRequest_apply h
  have hs := ha ▸ apply_simulates hv op
  refine ⟨hs.valid, op, ho, ?_⟩
  have hf : (Relay.apply op tables.relay).fst = .ok body.outcome := by
    have := hs.output
    rw [Machine.rollback, Machine.undoError_fst] at this
    exact Except.mapError_eq_ok.mp this.symm
  have hr := hs.relay
  simp only [Machine.rollback, Relay.machine] at hr
  generalize Relay.apply op tables.relay = result at hf hr ⊢
  obtain ⟨_, _⟩ := result
  subst hf
  exact Prod.ext rfl hr.symm

-- The result of a request is the one of an operation in the reference model.
inductive Executes (tables : QueueTables) (op : Relay.Operation) :
    Except DurableRelayError (ResponseBody × QueueTables) → Prop
  | ok (hv : tables'.Valid) (ha : Relay.apply op tables.relay = (.ok body.outcome, tables'.relay)) :
    Executes tables op (.ok (body, tables'))
  | error (ha : (Relay.apply op tables.relay).fst = .error e) : Executes tables op (.error (.relay e))

theorem Refines.executes {tx : Except DurableRelayError (α × QueueTables)} (h : Refines tx reference)
    (body : α → ResponseBody)
    (ha : Relay.apply op tables.relay = Relay.answer (fun a => (body a).outcome) reference) :
    Executes tables op (do let (a, tables) ← tx; return (body a, tables)) := by
  cases h
  case ok hv hr => exact .ok hv (by rw [ha, hr]; rfl)
  case error    => exact .error (by rw [ha]; rfl)

-- Whatever is fetched must fit into a response.
theorem executeQueueRequest_executes (hv : tables.Valid) (ho : request.operation now = some op)
    (hb : ∀ delivery, (Relay.apply op tables.relay).fst = .ok (.fetch (some delivery)) →
      delivery.payload.length ≤ maxMessageBytes) :
    Executes tables op (executeQueueRequest request now tables) := by
  cases request
  case createQueue create =>
    obtain ⟨limits, hl, h⟩ := Option.bind_eq_some_iff.mp ho
    cases h
    simp only [executeQueueRequest, hl]
    exact (createQueueTx_refines hv).executes .createQueue rfl
  case send send =>
    obtain ⟨ttl, hl, h⟩ := Option.bind_eq_some_iff.mp ho
    cases h
    simp only [executeQueueRequest, hl]
    exact (sendTx_refines hv).executes .send rfl
  all_goals
    cases ho
    simp only [executeQueueRequest]
  case ack         => exact (acknowledgeTx_refines hv).executes (fun _ => .ack) rfl
  case deleteQueue => exact (deleteQueueTx_refines hv).executes (fun _ => .deleteQueue) rfl
  case fetch fetch =>
    have hr : Refines (fetchTx tables fetch.queueId fetch.recipient now) _ := fetchTx_refines hv
    have ha : Relay.apply (.fetch fetch.queueId fetch.recipient now) tables.relay =
      Relay.answer .fetch (tables.relay.fetch fetch.queueId fetch.recipient now) := rfl
    generalize fetchTx tables fetch.queueId fetch.recipient now = tx at hr
    generalize tables.relay.fetch fetch.queueId fetch.recipient now = reference at hr ha
    cases hr
    case error => exact .error (by rw [ha]; rfl)
    case ok delivery relay tables' hv hr =>
      cases delivery
      case none => exact .ok hv (by rw [ha, hr]; rfl)
      case some delivery =>
        have hp : Payload.new delivery.payload = .ok ⟨_, hb delivery (by rw [ha]; rfl)⟩ :=
          Payload.new_eq_ok.mpr rfl
        simp only [Except.ok_bind, hp]
        exact .ok hv (ha.trans (by rw [hr]; rfl))

end DurableRelay
end Cofferwire
