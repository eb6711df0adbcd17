import Cofferwire.Relay.Theorems.Authorization
import Cofferwire.Service.Theorems.Correlation
import Cofferwire.Service.Theorems.History
import Cofferwire.Service.Theorems.Reuse

namespace Cofferwire

open Codec (DecodedRequest decodeRequest)
open DurableRelay (Store executeQueueRequest queueEffect)
open Relay (Operation)
open Replay (Database)

def Request.queueId : Request → QueueId
  | createQueue value => value.queueId
  | send value        => value.queueId
  | fetch value       => value.queueId
  | ack value         => value.queueId
  | deleteQueue value => value.queueId

theorem operation_principal (h : Request.operation now request = some op) :
    requestPrincipal request = op.principal := by
  cases request <;> simp only [Request.operation] at h
  case createQueue => obtain ⟨_, _, h⟩ := Option.bind_eq_some_iff.mp h; cases h; rfl
  case send        => obtain ⟨_, _, h⟩ := Option.bind_eq_some_iff.mp h; cases h; rfl
  case fetch       => cases h; rfl
  case ack         => cases h; rfl
  case deleteQueue => cases h; rfl

theorem operation_queueId (h : Request.operation now request = some op) :
    op.queueId = request.queueId := by
  cases request <;> simp only [Request.operation] at h
  case createQueue => obtain ⟨_, _, h⟩ := Option.bind_eq_some_iff.mp h; cases h; rfl
  case send        => obtain ⟨_, _, h⟩ := Option.bind_eq_some_iff.mp h; cases h; rfl
  case fetch       => cases h; rfl
  case ack         => cases h; rfl
  case deleteQueue => cases h; rfl

theorem operation_eq_deleteQueue (h : Request.operation now request = some (.deleteQueue q recipient)) :
    request = .deleteQueue ⟨q, recipient⟩ := by
  cases request <;> simp only [Request.operation] at h
  case createQueue => obtain ⟨_, _, h⟩ := Option.bind_eq_some_iff.mp h; cases h
  case send        => obtain ⟨_, _, h⟩ := Option.bind_eq_some_iff.mp h; cases h
  case fetch       => cases h
  case ack         => cases h
  case deleteQueue => cases h; rfl

-- A request which passes the validation is an operation of the reference model.
theorem exists_operation (h : validateQueueRequest request = .ok ()) (now : Timestamp) :
    ∃ op, request.operation now = some op := by
  cases request
  case createQueue create =>
    have hl : Relay.QueueLimits.new create.limits.maxMessages create.limits.maxMessageBytes =
        some ⟨_, _, create.limits.messages_pos, create.limits.bytes_pos⟩ :=
      DurableRelay.limitsNew_eq_some.mpr ⟨rfl, rfl⟩
    exact ⟨_, by rw [Request.operation, hl]; rfl⟩
  case send send =>
    have ht : send.ttl ≠ 0 := by
      rintro ht
      simp [validateQueueRequest, Relay.Ttl.fromSecs, ht] at h
    exact ⟨_, by rw [Request.operation, Relay.Ttl.fromSecs, dif_neg ht]; rfl⟩
  all_goals exact ⟨_, rfl⟩

theorem Delivery.toRelay_inj {delivery delivery' : Delivery} (h : delivery.toRelay = delivery'.toRelay) :
    delivery = delivery' := by
  obtain ⟨_, ⟨_, _⟩, _⟩ := delivery
  obtain ⟨_, ⟨_, _⟩, _⟩ := delivery'
  cases h
  rfl

theorem ResponseBody.outcome_inj {body body' : ResponseBody} (h : body.outcome = body'.outcome) :
    body = body' := by
  cases body <;> cases body' <;> simp only [outcome, reduceCtorEq] at h
  case createQueue.createQueue => cases h; rfl
  case send.send               => cases h; rfl
  case ack.ack                 => rfl
  case deleteQueue.deleteQueue => rfl
  case fetch.fetch =>
    exact congrArg _ (Option.map_injective (fun _ _ => Delivery.toRelay_inj) (Relay.Outcome.fetch.inj h))

namespace Relay

-- Every message fits into a response.
def Bounded (relay : Relay) : Prop :=
  ∀ q, ∀ message ∈ relay.messages q, message.payload.length ≤ maxMessageBytes

theorem new_bounded : new.Bounded :=
  fun _ _ h => by cases h

theorem of_mem_live (h : message ∈ live now ms) : message ∈ ms :=
  List.mem_of_mem_filter h

variable {relay : Relay}

theorem Bounded.apply (h : relay.Bounded)
    (ho : ∀ q sender messageId payload now ttl, op = .send q sender messageId payload now ttl →
      payload.length ≤ maxMessageBytes) : (apply op relay).snd.Bounded := by
  intro q message hm
  have hc := change relay op q
  have h := h q
  generalize (Relay.apply op relay).snd.messages q = messages at hm hc
  generalize relay.messages q = previous at h hc
  cases hc
  case keep       => exact h message hm
  case purge      => exact h message (of_mem_live hm)
  case delete     => cases hm
  case accept message' ha _ _ _ =>
    rcases List.mem_append.mp hm with hm | hm
    · exact h message (of_mem_live hm)
    · obtain ⟨_, _, _, ho', _⟩ := (ha _).mpr rfl
      exact List.mem_singleton.mp hm ▸ ho _ _ _ _ _ _ ho'
  case deliver now message' rest _ _ hl _ _ =>
    have hf (message) (hm : message ∈ message' :: rest) := h message (of_mem_live (hl ▸ hm))
    rcases List.mem_cons.mp hm with rfl | hm
    · exact hf message' List.mem_cons_self
    · exact hf message (List.mem_cons_of_mem _ hm)
  case acknowledge _ _ hl =>
    exact h message (of_mem_live (hl ▸ List.mem_cons_of_mem _ hm))

theorem Bounded.of_fetch (h : relay.Bounded)
    (hf : (Relay.apply op relay).fst = .ok (.fetch (some delivery))) :
    delivery.payload.length ≤ maxMessageBytes := by
  cases op <;> simp only [Relay.apply, answer] at hf
  case fetch q recipient now =>
    obtain ⟨_, hf, he⟩ := Except.map_eq_ok.mp hf
    cases he
    obtain ⟨queue, hq, _, hd⟩ := fetch_eq_ok.mp hf
    obtain ⟨message, hm, rfl⟩ := Option.map_eq_some_iff.mp hd.symm
    exact h q message (messages_of_queues hq ▸ of_mem_live (List.mem_of_mem_head? hm))
  all_goals
    obtain ⟨_, _, he⟩ := Except.map_eq_ok.mp hf
    cases he

end Relay

theorem operation_payload (h : Request.operation now request = some op)
    (ho : op = .send q sender messageId payload now' ttl) : payload.length ≤ maxMessageBytes := by
  subst ho
  cases request <;> simp only [Request.operation] at h
  case createQueue => obtain ⟨_, _, h⟩ := Option.bind_eq_some_iff.mp h; cases h
  case send send   => obtain ⟨_, _, h⟩ := Option.bind_eq_some_iff.mp h; cases h; exact send.payload.bounded
  all_goals cases h

namespace Replay

variable {database : Database σ} {call : Call σ} {requestId : RequestId}

theorem lookup_record_of_ne (h : (subject, requestId.asBytes) ≠ call.key) :
    lookup (database.record call response) ns subject requestId =
      lookup database ns subject requestId := by
  by_cases hn : ns = call.ns
  case neg => simp [lookup, Database.record, hn]
  case pos =>
    subst hn
    simp only [lookup, Database.record, Function.update_self]
    exact Table.lookup_append_of_ne (Ne.symm h)

theorem lookup_record_self (hf : lookup database call.ns call.subject call.requestId = none) :
    lookup (database.record call response) call.ns call.subject call.requestId =
      some (call.row response) := by
  simp only [lookup, Database.record, Function.update_self] at hf ⊢
  exact Table.lookup_append_self hf rfl

end Replay

namespace RelayService

-- What the execution of queue requests rests on.
structure Sound (relay : Replay.Database Store) : Prop where
  queue   : relay.store.queue.Valid
  bounded : relay.store.queue.relay.Bounded

-- The effect of a request with a new identifier in terms of the reference model.
theorem exchange_executes {relay : Replay.Database Store} {decoded : Codec.DecodedRequest}
    (hv : relay.store.queue.Valid) (ho : decoded.frame.request.operation now = some op)
    (hb : ∀ delivery, (Relay.apply op relay.store.queue.relay).fst = .ok (.fetch (some delivery)) →
      delivery.payload.length ≤ maxMessageBytes)
    (hf : relay.Fresh (queueCall frame now decoded)) :
    ∃ result response queue,
      response = encodeQueueOutcome decoded.frame.requestId decoded.frame.request.command result ∧
      Replay.exchange relay (queueCall frame now decoded) =
        (.ok (.respond response), { relay with store := { relay.store with queue } }.record
          (queueCall frame now decoded) response) ∧
      (∀ body, result = .ok body → body.command = decoded.frame.request.command) ∧
      result.map ResponseBody.outcome = (Relay.apply op relay.store.queue.relay).fst ∧
      queue.Valid ∧
      queue.relay = (Machine.undoError relay.store.queue.relay
        (Relay.apply op relay.store.queue.relay)).snd := by
  have hx := DurableRelay.executeQueueRequest_executes hv ho hb
  have hi {store response} : Replay.insert { relay with store } (queueCall frame now decoded) response =
      some _ :=
    Replay.insert_eq_some.mpr ⟨hf, rfl⟩
  generalize hr : executeQueueRequest decoded.frame.request now relay.store.queue = result at hx
  cases hx
  case ok body tables' hv' ha =>
    have he : (queueCall frame now decoded).effect relay.store =
        .ok (body, { relay.store with queue := tables' }) :=
      DurableRelay.queueEffect_eq_ok.mpr ⟨tables', hr, rfl⟩
    refine ⟨.ok body, _, tables', rfl, ?_, ?_, ?_, hv', ?_⟩
    · simp only [Replay.exchange, he, Replay.exchange.record, hi]
      rfl
    · rintro _ ⟨⟩
      exact executeQueueRequest_command hr
    · rw [ha]
      rfl
    · rw [ha]
      rfl
  case error e ha =>
    have he : (queueCall frame now decoded).effect relay.store = .error (.protocol e) := by
      simp only [queueCall, DurableRelay.queueRequestCall, queueEffect, hr]
    refine ⟨.error e, _, relay.store.queue, rfl, ?_, by rintro _ ⟨⟩, ?_, hv, ?_⟩
    · have hi {response} : Replay.insert relay (queueCall frame now decoded) response = some _ := hi
      simp only [Replay.exchange, he, Replay.exchange.record, hi]
      rfl
    · rw [ha]
      rfl
    · rw [Machine.undoError_of_error ha]

theorem encodeQueueOutcome_congr {result result' : Except RelayError ResponseBody}
    (h : result.map ResponseBody.outcome = result'.map ResponseBody.outcome) :
    encodeQueueOutcome requestId command result = encodeQueueOutcome requestId command result' := by
  cases result <;> cases result' <;> simp only [Except.map, Except.ok.injEq, Except.error.injEq,
    reduceCtorEq] at h
  case error.error => rw [h]
  case ok.ok       => rw [ResponseBody.outcome_inj h]

section Submit

variable {service : RelayService}

-- The service once the response to a call has been recorded.
def recorded (service : RelayService) (call : Replay.Call Store) (queue : DurableRelay.QueueTables)
    (response : Bytes) : RelayService :=
  let store := { service.relay.store with queue }
  { service with relay := Database.record { service.relay with store } call response }

-- A request with a known identifier is not executed.
theorem submit_replayed (h : Replay.lookup service.relay .queue
    (requestPrincipal decoded.frame.request).asBytes decoded.frame.requestId = some row)
    (bytes conflict : Bytes) :
    service.submit (queueCall bytes now decoded) conflict false =
      (.ok (if row.request = bytes then row.response else conflict), service) :=
  submit_recorded h

-- A request with a new identifier is executed.
theorem submit_fresh (hs : Sound service.relay) (ho : decoded.frame.request.operation now = some op)
    (hf : Replay.lookup service.relay .queue (requestPrincipal decoded.frame.request).asBytes
      decoded.frame.requestId = none) (bytes conflict : Bytes) :
    ∃ result queue,
      service.submit (queueCall bytes now decoded) conflict false =
        (.ok (encodeQueueOutcome decoded.frame.requestId decoded.frame.request.command result),
          service.recorded (queueCall bytes now decoded) queue
            (encodeQueueOutcome decoded.frame.requestId decoded.frame.request.command result)) ∧
      result.map ResponseBody.outcome = (Relay.apply op service.relay.store.queue.relay).fst ∧
      queue.relay = (Machine.undoError service.relay.store.queue.relay
        (Relay.apply op service.relay.store.queue.relay)).snd ∧
      queue.Valid ∧ queue.relay.Bounded := by
  have hn : service.relay.Fresh (queueCall bytes now decoded) := Replay.lookup_eq_none.mp hf
  obtain ⟨result, _, queue, rfl, he, _, hr, hv, hq⟩ :=
    exchange_executes hs.queue ho (fun _ => hs.bounded.of_fetch) hn
  have hl : Replay.lookup service.relay (queueCall bytes now decoded).ns
      (queueCall bytes now decoded).subject (queueCall bytes now decoded).requestId = none := hf
  refine ⟨result, queue, ?_, hr, hq, hv, ?_⟩
  · simp only [submit, Bool.false_eq_true, if_false, hl, he]
    rfl
  · have hb : (Relay.apply op service.relay.store.queue.relay).snd.Bounded :=
      hs.bounded.apply fun _ _ _ _ _ _ => operation_payload ho
    rw [hq]
    generalize Relay.apply op service.relay.store.queue.relay = result at hb
    obtain ⟨_ | _, _⟩ := result
    case error => exact hs.bounded
    case ok    => exact hb

end Submit

section Verified

variable [Ed25519]

-- The request of a frame whose proof verifies.
def verified (bytes : Bytes) : Option DecodedRequest :=
  match decodeRequest bytes with
  | .error _    => none
  | .ok decoded =>
    if verifyRequest (requestPrincipal decoded.frame.request) decoded.authenticatedBytes
      decoded.frame.auth = .ok ()
    then
      some decoded
    else
      none

theorem verified_eq_some : verified bytes = some decoded ↔
    decodeRequest bytes = .ok decoded ∧ verifyRequest (requestPrincipal decoded.frame.request)
      decoded.authenticatedBytes decoded.frame.auth = .ok () := by
  unfold verified
  cases decodeRequest bytes
  case error => simp
  case ok decoded' =>
    simp only [Option.ite_none_right_eq_some, Option.some.injEq, Except.ok.injEq]
    constructor
    · rintro ⟨hv, rfl⟩
      exact ⟨rfl, hv⟩
    · rintro ⟨rfl, hv⟩
      exact ⟨hv, rfl⟩

variable [Profile] {service : RelayService}

-- The service once a request has been counted.
def counted (service : RelayService) (decoded : DecodedRequest) (now : Timestamp) : RelayService :=
  { service with queueRateLimiter :=
    (service.queueRateLimiter.admits (requestPrincipal decoded.frame.request) now).snd }

-- A frame whose proof does not verify leaves no trace.
theorem exchangeAt_of_unverified (h : verified bytes = none) (now : Timestamp) (fault : Bool) :
    ∃ answer, ∀ service : RelayService, service.exchangeAt bytes now fault = (answer, service) := by
  unfold verified at h
  simp only [exchangeAt, screen]
  cases hd : decodeRequest bytes
  case error => exact ⟨_, fun _ => rfl⟩
  case ok decoded =>
    simp only [hd, ite_eq_right_iff, reduceCtorEq, imp_false] at h
    cases hv : verifyRequest (requestPrincipal decoded.frame.request) decoded.authenticatedBytes
      decoded.frame.auth
    case ok => exact absurd hv h
    case error =>
      simp only [hv]
      exact ⟨_, fun _ => rfl⟩

section

variable (h : verified bytes = some decoded)
include h

theorem exchangeAt_of_refused (hl : (service.queueRateLimiter.admits
      (requestPrincipal decoded.frame.request) now).fst = verdict) (hn : verdict ≠ some true) :
    service.exchangeAt bytes now fault =
      (.error (if verdict = none then .internal else .overloaded), service.counted decoded now) := by
  obtain ⟨hd, hv⟩ := verified_eq_some.mp h
  simp only [exchangeAt, screen, hd, hv, hl]
  obtain _ | _ | _ := verdict
  case none       => rfl
  case some.false => rfl
  case some.true  => exact absurd rfl hn

variable (hl : (service.queueRateLimiter.admits (requestPrincipal decoded.frame.request) now).fst =
  some true)
include hl

theorem exchangeAt_of_invalid (hq : validateQueueRequest decoded.frame.request = .error status) :
    service.exchangeAt bytes now fault = (.ok (errorResponse decoded.frame.requestId
      decoded.frame.request.command status (validateQueueRequest_ne_ok hq)),
      service.counted decoded now) := by
  obtain ⟨hd, hv⟩ := verified_eq_some.mp h
  simp only [exchangeAt, screen, hd, hv, hl]
  split
  case h_1 heq =>
    split at heq
    case h_1 hq' => cases hq'.symm.trans hq
    case h_2 hq' =>
      cases hq.symm.trans hq'
      cases heq
      rfl
  case h_2 heq =>
    split at heq
    case h_1 hq' => cases hq'.symm.trans hq
    case h_2     => cases heq

theorem exchangeAt_of_valid (hq : validateQueueRequest decoded.frame.request = .ok ()) :
    service.exchangeAt bytes now fault = (service.counted decoded now).submit
      (queueCall bytes now decoded) (errorResponse decoded.frame.requestId
        decoded.frame.request.command .authReplay authReplay_ne_ok) fault := by
  obtain ⟨hd, hv⟩ := verified_eq_some.mp h
  simp only [exchangeAt, screen, hd, hv, hl]
  split
  case h_1 heq =>
    split at heq
    case h_1     => cases heq
    case h_2 hq' => cases hq'.symm.trans hq
  case h_2 heq =>
    split at heq
    case h_1     => cases heq; rfl
    case h_2 hq' => cases hq'.symm.trans hq

end
end Verified

variable [Profile] [Ed25519] [Sha256]

theorem step_bounded {service : RelayService} (hv : Store.Valid service.relay.store)
    (hb : service.relay.store.queue.relay.Bounded) (input : Input) :
    (step input service).snd.relay.store.queue.relay.Bounded := by
  have ha := advances hv input
  generalize he : event input service = event at ha
  cases event
  case none => exact (show _ = _ from ha) ▸ hb
  case some event =>
    obtain ⟨_, _, _, _, _, ho⟩ := of_event_eq_some he
    have hn := hb.apply fun _ _ _ _ _ _ => operation_payload ho
    rw [show Relay.apply _ _ = _ from ha] at hn
    exact hn

theorem database_sound (inputs : Nat → Input) (n : Nat) : Sound (database inputs n) := by
  refine ⟨(store_valid inputs n).queue, ?_⟩
  induction n
  case zero      => exact Relay.new_bounded
  case succ n hi => exact step_bounded (store_valid inputs n) hi (inputs n)

variable {inputs : Nat → Input}

-- A request which succeeds takes effect in the history of the queues.
theorem Performs.event (hp : Performs inputs n call response) (hn : call.ns = .queue)
    (hr : response = Codec.encodeResponse ⟨requestId, .success body⟩) :
    ∃ now decoded op, inputs n = .exchange call.request now false ∧
      Admissible call.request decoded ∧ decoded.frame.request.operation now = some op ∧
      (history inputs).event n = some (op, .ok body.outcome) := by
  obtain ⟨⟨conflict, hc⟩, hf, ho, transaction, ha, hd⟩ := hp
  simp only [history, RelayService.event]
  simp only [Machine.output, machine] at ho
  generalize inputs n = input at hc ho
  cases hc
  case blob => cases hn
  case queue bytes decoded now fault hq =>
    simp only [step, exchangeAt, Option.some.injEq] at ho
    have hs := screen_screened (machine.state inputs n) bytes now
    generalize hx : (machine.state inputs n).screen bytes now = result at hs
    simp only [machine] at hx
    rw [hx] at ho
    obtain ⟨_, service⟩ := result
    cases hs
    case refuse hn => exact absurd hq (hn decoded)
    case limit     => cases ho
    case pass decoded' hq' =>
      cases hq.decode.symm.trans hq'.decode
      cases fault
      case true => cases ho
      case false =>
        cases ha
        case rejection hr' =>
          obtain ⟨error, _, he⟩ := hr'
          have hd := Codec.decodeResponse_eq_ok.mpr (hr.symm.trans he)
          cases hd.symm.trans (Codec.decodeResponse_eq_ok.mpr rfl)
        case success value store he =>
          obtain ⟨tables, ht, rfl⟩ := DurableRelay.queueEffect_eq_ok.mp he
          obtain ⟨op, hop, _⟩ := DurableRelay.executeQueueRequest_apply ht
          have hb : value = body := by
            have hd := Codec.decodeResponse_eq_ok.mpr hr
            cases hd.symm.trans (Codec.decodeResponse_eq_ok.mpr rfl)
            rfl
          have hl := Replay.lookup_eq_none.mpr hf
          simp only [database, machine] at hl ht
          refine ⟨now, decoded, op, rfl, hq, hop, ?_⟩
          simp only [machine, hx, hl, ht, hop, Option.isSome_none, Bool.false_eq_true, if_false,
            Option.map_some, hb]

-- Conversely, whatever takes effect is a request which is executed.
theorem performs_of_event (he : (history inputs).event n = some (op, reply)) :
    ∃ bytes now decoded response, inputs n = .exchange bytes now false ∧ Admissible bytes decoded ∧
      decoded.frame.request.operation now = some op ∧
      Performs inputs n (queueCall bytes now decoded) response := by
  obtain ⟨bytes, now, decoded, hi, ha, ho⟩ := of_event_eq_some he
  have hs := screen_screened (machine.state inputs n) bytes now
  have hr := screen_relay (machine.state inputs n) bytes now
  simp only [history, RelayService.event, hi] at he
  generalize hx : (machine.state inputs n).screen bytes now = result at he hs hr
  obtain ⟨_, service⟩ := result
  cases hs
  case refuse => cases he
  case limit  => cases he
  case pass decoded' ha' =>
    cases ha.decode.symm.trans ha'.decode
    dsimp only at he hr
    cases hl : Replay.lookup (database inputs n) (queueCall bytes now decoded).ns
      (queueCall bytes now decoded).subject (queueCall bytes now decoded).requestId
    case some =>
      unfold database at hl
      simp [hl] at he
    case none =>
      have hf := Replay.lookup_eq_none.mp hl
      obtain ⟨error, hs, _⟩ | ⟨response, transaction, hw, hs⟩ := Replay.exchange_fresh hf
      · split at he
        case isTrue => cases he
        case isFalse =>
          split at he
          case h_1 => cases he
          case h_2 ht => cases hs.symm.trans (DurableRelay.queueEffect_eq_ok.mpr ⟨_, ht, rfl⟩)
      · have hz : step (inputs n) (machine.state inputs n) =
            (some (.ok response),
              { service with relay := transaction.record (queueCall bytes now decoded) response }) := by
          unfold database at hl hs
          simp only [hi, step, exchangeAt, hx, submit, hr, hl, hs, Bool.false_eq_true, if_false]
        have hc : ∃ conflict, Calls (inputs n) (queueCall bytes now decoded) conflict := by
          rw [hi]
          exact ⟨_, .queue ha⟩
        refine ⟨bytes, now, decoded, response, hi, ha, ho, hc, hf, ?_, transaction, hw, ?_⟩
        · exact congrArg Prod.fst hz
        · exact congrArg (·.snd.relay) hz

-- No two requests with the same identifier take effect.
theorem event_unique (he : (history inputs).event m = some (op, reply))
    (he' : (history inputs).event n = some (op', reply'))
    (hi : inputs m = .exchange bytes now fault) (hd : decodeRequest bytes = .ok decoded)
    (hi' : inputs n = .exchange bytes' now' fault') (hd' : decodeRequest bytes' = .ok decoded')
    (hp : requestPrincipal decoded.frame.request = requestPrincipal decoded'.frame.request)
    (hr : decoded.frame.requestId = decoded'.frame.requestId) : m = n := by
  obtain ⟨_, _, _, response, hi₁, ha, _, hx⟩ := performs_of_event he
  obtain ⟨_, _, _, response', hi₂, ha', _, hx'⟩ := performs_of_event he'
  cases hi.symm.trans hi₁
  cases hi'.symm.trans hi₂
  cases hd.symm.trans ha.decode
  cases hd'.symm.trans ha'.decode
  have hk : (queueCall bytes now decoded).key = (queueCall bytes' now' decoded').key :=
    Prod.ext (congrArg Principal.asBytes hp) (congrArg RequestId.asBytes hr)
  rcases Nat.lt_trichotomy m n with h | h | h
  · exact absurd hk (hx'.fresh _ (hx.mem h))
  · exact h
  · exact absurd hk.symm (hx.fresh _ (hx'.mem h))

end RelayService
end Cofferwire
