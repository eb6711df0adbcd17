import Cofferwire.Relay.Theorems.History
import Cofferwire.Service.Theorems.Exchange

namespace Cofferwire.RelayService

open Codec (encodeResponse)
open Codec.Blob (encodeBlobResponse)
open DurableRelay (Store executeQueueRequest executeBlobRequest)

section Store

variable [Sha256]

-- The tables of both profiles are changed by admissible requests which succeed.
theorem Step.store_cases [Ed25519] {database database' : Replay.Database Store}
    (hs : Step input database output database') :
    database'.store = database.store ∨
    (∃ bytes now fault decoded body tables,
      input = .exchange bytes now fault ∧ Admissible bytes decoded ∧
      executeQueueRequest decoded.frame.request now database.store.queue = .ok (body, tables) ∧
      database'.store = { database.store with queue := tables }) ∨
    (∃ bytes now fault decoded body tables,
      input = .exchangeBlob bytes now fault ∧ AdmissibleBlob bytes decoded ∧
      executeBlobRequest decoded.frame.request now database.store.blob = .ok (body, tables) ∧
      database'.store = { database.store with blob := tables }) := by
  cases hs
  case restart => exact .inl rfl
  case limit   => exact .inl rfl
  case refuse  => exact .inl rfl
  case serve hc hs =>
    cases hs
    case fail     => exact .inl rfl
    case replay   => exact .inl rfl
    case conflict => exact .inl rfl
    case perform ha =>
      cases ha
      case rejection => exact .inl rfl
      case success he =>
        cases hc
        case queue =>
          obtain ⟨tables, ht, rfl⟩ := DurableRelay.queueEffect_eq_ok.mp he
          exact .inr <| .inl ⟨_, _, _, _, _, tables, rfl, ‹_›, ht, rfl⟩
        case blob =>
          obtain ⟨tables, ht, rfl⟩ := DurableRelay.blobEffect_eq_ok.mp he
          exact .inr <| .inr ⟨_, _, _, _, _, tables, rfl, ‹_›, ht, rfl⟩

structure Store.Valid (store : Store) : Prop where
  queue : store.queue.Valid
  blob  : store.blob.Valid

theorem empty_valid : Store.Valid .empty where
  queue := DurableRelay.QueueTables.empty_valid
  blob  := DurableRelay.BlobTables.empty_valid

end Store

variable [Profile] [Ed25519]

-- What an input does to the queues of a service.
inductive Effect (service service' : RelayService) : Option (Relay.Operation × Relay.Reply) → Prop
  | none (h : service'.relay.store.queue = service.relay.store.queue) : Effect service service' none
  | some (h : Relay.apply op service.relay.store.queue.relay =
      (reply, service'.relay.store.queue.relay)) : Effect service service' (some (op, reply))

theorem exchangeAt_effect (hv : service.relay.store.queue.Valid) :
    Effect service (service.exchangeAt bytes now fault).snd
      (event (.exchange bytes now fault) service) := by
  have hr := screen_relay service bytes now
  cases fault <;> simp only [exchangeAt, event]
  all_goals
    generalize service.screen bytes now = result at hr
    obtain ⟨_ | decoded, service'⟩ := result
  case true.error  => exact .none (congrArg (·.store.queue) hr)
  case true.ok     => exact .none (congrArg (·.store.queue) hr)
  case false.error => exact .none (congrArg (·.store.queue) hr)
  case false.ok =>
    simp only at hr
    cases hl : Replay.lookup service.relay (queueCall bytes now decoded).ns
      (queueCall bytes now decoded).subject (queueCall bytes now decoded).requestId
    case some =>
      simp only [submit, hr, hl, Bool.false_eq_true, if_false, Option.isSome_some, if_true]
      exact .none (congrArg (·.store.queue) hr)
    case none =>
      simp only [submit, hr, hl, Bool.false_eq_true, if_false, Option.isSome_none]
      obtain ⟨error, hs, he⟩ | ⟨response, transaction, ha, he⟩ :=
        Replay.exchange_fresh (Replay.lookup_eq_none.mp hl)
      all_goals
        rw [he]
        cases hx : executeQueueRequest decoded.frame.request now service.relay.store.queue
      case inl.error => exact .none rfl
      case inl.ok result =>
        cases hs.symm.trans (DurableRelay.queueEffect_eq_ok.mpr ⟨_, hx, rfl⟩)
      case inr.error =>
        cases ha
        case rejection => exact .none rfl
        case success hs =>
          obtain ⟨_, ht, _⟩ := DurableRelay.queueEffect_eq_ok.mp hs
          cases ht.symm.trans hx
      case inr.ok result =>
        have hs := DurableRelay.queueEffect_eq_ok.mpr ⟨_, hx, rfl⟩
        obtain ⟨_, op, ho, ha'⟩ := DurableRelay.executeQueueRequest_relay hv hx
        simp only [ho, Option.map]
        cases ha
        case rejection h =>
          obtain ⟨_, h, _⟩ := h
          cases h.symm.trans hs
        case success hs' =>
          cases hs'.symm.trans hs
          exact .some ha'

-- A request takes effect only if its frame is let through.
theorem of_event_eq_some (h : event input service = some (op, reply)) :
    ∃ bytes now decoded, input = .exchange bytes now false ∧ Admissible bytes decoded ∧
      decoded.frame.request.operation now = some op := by
  unfold event at h
  split at h
  case h_2 => cases h
  case h_1 bytes now =>
    have hs := screen_screened service bytes now
    generalize (service.screen bytes now).fst = result at h hs
    cases hs
    case refuse => cases h
    case limit  => cases h
    case pass decoded ha =>
      dsimp only at h
      split at h
      case isTrue => cases h
      case isFalse =>
        split at h
        case h_1 => cases h
        case h_2 =>
          obtain ⟨op, ho, h⟩ := Option.map_eq_some_iff.mp h
          cases h
          exact ⟨bytes, now, decoded, rfl, ha, ho⟩

variable [Sha256]

theorem exchangeBlobAt_queue (service : RelayService) (bytes : Bytes) (now : Timestamp)
    (fault : Bool) : (service.exchangeBlobAt bytes now fault).snd.relay.store.queue =
      service.relay.store.queue := by
  obtain he | ⟨_, _, _, _, _, _, hi, _⟩ | ⟨_, _, _, _, _, _, _, _, _, hs⟩ :=
    (step_step (.exchangeBlob bytes now fault) service).store_cases
  · exact congrArg Store.queue he
  · cases hi
  · exact (congrArg Store.queue hs :)

theorem event_effect (hv : service.relay.store.queue.Valid) (input : Input) :
    Effect service (step input service).snd (event input service) := by
  cases input
  case exchange     => exact exchangeAt_effect hv
  case exchangeBlob => exact .none (exchangeBlobAt_queue ..)
  case restart      => exact .none rfl

variable {inputs : Nat → Input}

-- What the execution of a call means in terms of requests and tables.
theorem Performs.of_queue (hp : Performs inputs n call response) (hn : call.ns = .queue) :
    ∃ now fault decoded, inputs n = .exchange call.request now fault ∧
      Admissible call.request decoded ∧
      ((Refusal response ∧ (database inputs (n + 1)).store = (database inputs n).store) ∨
      ∃ body tables,
        executeQueueRequest decoded.frame.request now (database inputs n).store.queue =
          .ok (body, tables) ∧
        response = encodeResponse ⟨decoded.frame.requestId, .success body⟩ ∧
        (database inputs (n + 1)).store = { (database inputs n).store with queue := tables }) := by
  obtain ⟨⟨conflict, hc⟩, -, -, transaction, ha, hd⟩ := hp
  generalize hi : inputs n = input at hc
  cases hc
  case blob => cases hn
  case queue bytes decoded now fault hq =>
    refine ⟨now, fault, decoded, rfl, hq, ?_⟩
    rw [hd]
    cases ha
    case rejection hr =>
      obtain ⟨error, _, rfl⟩ := hr
      exact .inl ⟨⟨_, _, rfl⟩, rfl⟩
    case success he =>
      obtain ⟨tables, ht, rfl⟩ := DurableRelay.queueEffect_eq_ok.mp he
      exact .inr ⟨_, tables, ht, rfl, rfl⟩

theorem Performs.of_blob (hp : Performs inputs n call response) (hn : call.ns = .blob) :
    ∃ now fault decoded, inputs n = .exchangeBlob call.request now fault ∧
      AdmissibleBlob call.request decoded ∧
      ((BlobRefusal response ∧ (database inputs (n + 1)).store = (database inputs n).store) ∨
      ∃ body tables,
        executeBlobRequest decoded.frame.request now (database inputs n).store.blob =
          .ok (body, tables) ∧
        response = encodeBlobResponse ⟨decoded.frame.requestId,
          { command := decoded.frame.request.command, status := .ok, body }⟩ ∧
        (database inputs (n + 1)).store = { (database inputs n).store with blob := tables }) := by
  obtain ⟨⟨conflict, hc⟩, -, -, transaction, ha, hd⟩ := hp
  generalize hi : inputs n = input at hc
  cases hc
  case queue => cases hn
  case blob bytes decoded now fault hq =>
    refine ⟨now, fault, decoded, rfl, hq, ?_⟩
    rw [hd]
    cases ha
    case rejection hr =>
      obtain ⟨error, _, rfl⟩ := hr
      exact .inl ⟨⟨_, _, _, blobStatus_ne_ok error, rfl⟩, rfl⟩
    case success he =>
      obtain ⟨tables, ht, rfl⟩ := DurableRelay.blobEffect_eq_ok.mp he
      exact .inr ⟨_, tables, ht, rfl, rfl⟩

theorem step_valid (hv : Store.Valid service.relay.store) (input : Input) :
    Store.Valid (step input service).snd.relay.store := by
  obtain he | ⟨_, _, _, _, _, _, _, _, he, hs⟩ | ⟨_, _, _, _, _, _, _, _, he, hs⟩ :=
    (step_step input service).store_cases
  · exact he ▸ hv
  · rw [hs]
    exact ⟨(DurableRelay.executeQueueRequest_relay hv.queue he).left, hv.blob⟩
  · rw [hs]
    exact ⟨hv.queue, (DurableRelay.executeBlobRequest_change he).step.valid hv.blob⟩

theorem store_valid (inputs : Nat → Input) (n : Nat) : Store.Valid (database inputs n).store :=
  machine.invariant (P := fun service => Store.Valid service.relay.store) empty_valid
    (fun input _ hv => step_valid hv input) n

theorem blobTables_valid (inputs : Nat → Input) (n : Nat) : (blobTables inputs n).Valid :=
  (store_valid inputs n).blob

theorem blobTables_cases (inputs : Nat → Input) (n : Nat) :
    blobTables inputs (n + 1) = blobTables inputs n ∨
    ∃ bytes now fault decoded, inputs n = .exchangeBlob bytes now fault ∧
      AdmissibleBlob bytes decoded ∧
      DurableRelay.Change (blobTables inputs n) now decoded.frame.request
        (blobTables inputs (n + 1)) := by
  obtain he | ⟨_, _, _, _, _, _, _, _, _, hs⟩ | ⟨bytes, now, fault, decoded, _, tables, hi, ha, he, hs⟩ :=
    (machine_step inputs n).store_cases
  · exact .inl (congrArg Store.blob he)
  · exact .inl (congrArg Store.blob hs :)
  · refine .inr ⟨bytes, now, fault, decoded, hi, ha, ?_⟩
    rw [show blobTables inputs (n + 1) = tables from congrArg Store.blob hs]
    exact DurableRelay.executeBlobRequest_change he

theorem mem_uploads_of_committed {upload : DurableRelay.UploadRow} (h : m ≤ n)
    (hu : upload ∈ (blobTables inputs m).uploads) (hc : upload.committedBlob = some blobId) :
    upload ∈ (blobTables inputs n).uploads := by
  induction h
  case refl => exact hu
  case step n _ hi =>
    obtain he | ⟨_, _, _, _, _, _, hs⟩ := blobTables_cases inputs n
    · exact he ▸ hi
    · exact hs.step.mem_of_committed (blobTables_valid inputs n) hi hc

theorem advances (hv : Store.Valid service.relay.store) (input : Input) :
    Relay.Advances service.relay.store.queue.relay (step input service).snd.relay.store.queue.relay
      (event input service) := by
  have he := event_effect hv.queue input
  generalize event input service = event at he
  cases he
  case none h => exact congrArg _ h
  case some h => exact h

theorem history_valid (inputs : Nat → Input) : (history inputs).Valid :=
  .of_advances rfl fun t => advances (store_valid inputs t) (inputs t)

end Cofferwire.RelayService
