import Cofferwire.Python.Theorems.Reference
import Cofferwire.Relay.Theorems.Exchange
import Cofferwire.Relay.Theorems.Refinement
import Cofferwire.Service.Theorems.Execution

namespace Cofferwire.Python

open DurableRelay (Store executeQueueRequest queueEffect)

def ReplayRow.toRow (row : ReplayRow) : Replay.Row where
  subject   := row.principal
  requestId := row.requestId
  request   := row.frame
  response  := row.response

namespace Relay

-- Both implementations accept the same signatures.
theorem verifyRequest_of [Ed25519] (decoded : Codec.DecodedRequest) (principal : Principal) :
    Python.verifyRequest (.of decoded) principal.asBytes = .ok () ↔
      Cofferwire.verifyRequest principal decoded.authenticatedBytes decoded.frame.auth = .ok () := by
  obtain ⟨⟨_, _, ⟨auth, _⟩⟩, authenticated⟩ := decoded
  have hd : authDomain = relayAuthDomain := rfl
  have hp : (auth.length ≠ 68 ∨ auth.take 4 ≠ [0, 1, 0, 1]) ↔
      (auth.length ≠ 68 ∨ slice auth 0 2 ≠ profileId ∨ slice auth 2 4 ≠ ed25519Id) := by
    rcases auth with _ | ⟨_, _ | ⟨_, _ | ⟨_, _ | ⟨_, _⟩⟩⟩⟩ <;>
      simp [slice, profileId, ed25519Id, imp_iff_not_or, or_assoc]
  simp only [Python.verifyRequest, Cofferwire.verifyRequest, verifyProof, RequestFrame.of, hd, hp]
  split
  case isTrue => simp
  case isFalse =>
    cases Ed25519.fromBytes principal.asBytes
    case none => simp
    case some key =>
      cases ByteVec.tryFrom 64 (auth.drop 4)
      case none => simp
      case some =>
        dsimp only
        split <;> simp_all

theorem bodyValues_eq (body : ResponseBody) : bodyValues body = outcomeValues body.outcome := by
  rcases body with _ | _ | (_ | _) | _ | _ <;> rfl

-- A reply is encoded to the same bytes.
theorem encodeResponse_answerOf {result : Except RelayError ResponseBody} (requestId : RequestId)
    (hc : ∀ body, result = .ok body → body.command = command) :
    encodeResponse requestId.asBytes command.asU8.toNat (answerOf (result.map ResponseBody.outcome)).fst
      (answerOf (result.map ResponseBody.outcome)).snd =
      .ok (encodeQueueOutcome requestId command result) := by
  cases result
  case ok body =>
    have he := encodeResponse_eq requestId.asBytes (.success body)
    rw [← hc body rfl]
    simp only [responseValues, bodyValues_eq] at he
    exact he
  case error e => exact encodeResponse_error requestId.asBytes (some command) _ (relayStatus_ne_ok e)

theorem payload_length_le {delivery : Cofferwire.Relay.Delivery} {response : Response}
    (h : outcomeValues (.fetch (some delivery)) = responseValues response) :
    delivery.payload.length ≤ maxMessageBytes := by
  rcases response with (_ | _ | (_ | delivery') | _ | _) | _
  all_goals simp [outcomeValues, responseValues, bodyValues] at h
  case success.fetch.some =>
    rw [h.right.left]
    exact delivery'.payload.bounded

-- The databases of both implementations, which may differ in messages that have expired at all times
-- given by `T`.
structure Related (T : Timestamp → Prop) (relay : Replay.Database Store) (database : Database) :
    Prop where
  queue   : relay.store.queue.Valid
  valid   : Valid database
  bounded : Bounded database
  view    : T t → relay.store.queue.relay.view t = database.tables.relay.view t
  replays : relay.replays .queue = database.replays.map ReplayRow.toRow

theorem Related.lookup {principal : Principal} {requestId : RequestId} (h : Related T relay database) :
    Replay.lookup relay .queue principal.asBytes requestId =
      (Table.lookup ReplayRow.key (principal.asBytes, requestId.asBytes) database.replays).map
        ReplayRow.toRow := by
  simp only [Replay.lookup, Table.lookup, h.replays, List.find?_map]
  rfl

theorem Related.mono {T' : Timestamp → Prop} (h : Related T relay database) (ht : ∀ t, T' t → T t) :
    Related T' relay database :=
  { h with view := fun h' => h.view (ht _ h') }

-- The times which are not in the past.
def From (T : Timestamp → Prop) (now t : Timestamp) : Prop :=
  T t ∧ now ≤ t

theorem exists_operation (h : InDomain now request) : ∃ op, request.operation now = some op := by
  cases request
  case createQueue create =>
    have hl : Cofferwire.Relay.QueueLimits.new create.limits.maxMessages
        create.limits.maxMessageBytes = some ⟨_, _, create.limits.messages_pos, create.limits.bytes_pos⟩ :=
      DurableRelay.limitsNew_eq_some.mpr ⟨rfl, rfl⟩
    exact ⟨_, by rw [Request.operation, hl]; rfl⟩
  case send send =>
    have ht : Cofferwire.Relay.Ttl.fromSecs send.ttl = some ⟨send.ttl, h.left⟩ := dif_neg h.left
    exact ⟨_, by rw [Request.operation, ht]; rfl⟩
  all_goals exact ⟨_, rfl⟩

theorem timestamp_eq {request : Request} (ho : request.operation now = some op)
    (ht : t ∈ op.timestamp) : t = now := by
  cases request
  case createQueue =>
    obtain ⟨_, _, h⟩ := Option.bind_eq_some_iff.mp ho
    cases h
    cases ht
  case send =>
    obtain ⟨_, _, h⟩ := Option.bind_eq_some_iff.mp ho
    cases h
    exact (Option.some.inj ht).symm
  case deleteQueue =>
    cases ho
    cases ht
  all_goals
    cases ho
    exact (Option.some.inj ht).symm

theorem Replies.of_ok (h : Replies database command (.ok (answer, database'))) :
    Bounded database' ∧ ∃ response : Response,
      answer = (response.status.asU8.toNat, responseValues response) := by
  cases h
  case intro response _ hb _ => exact ⟨hb, response, rfl⟩

theorem respond_eq {request : RequestFrame}
    (hx : execute database request now principal = .ok (answer, database'))
    (he : encodeResponse request.requestId request.command answer.fst answer.snd = .ok response)
    (hf : Table.lookup ReplayRow.key (principal, request.requestId) database.replays = none)
    (hr : database'.replays = database.replays) :
    respond database request frame now principal = .ok (response, { database' with
      replays := database.replays ++ [⟨principal, request.requestId, frame, response⟩] }) := by
  have hi := insertReplay_eq ⟨principal, request.requestId, frame, response⟩ hf hr
  simp only [respond, hx, he, hi, Except.ok_bind]
  rfl

-- A request with a new identifier.
theorem respond_agree {decoded : Codec.DecodedRequest} (h : Related T relay database) (ht : T now)
    (hn : now.toNat < 2 ^ 63) (hi : InDomain now decoded.frame.request)
    (hf : Table.lookup ReplayRow.key ((requestPrincipal decoded.frame.request).asBytes,
      decoded.frame.requestId.asBytes) database.replays = none) (frame : Bytes) :
    ∃ response relay' database',
      Replay.exchange relay (RelayService.queueCall frame now decoded) =
        (.ok (.respond response), relay') ∧
      respond database (.of decoded) frame now.toNat (requestPrincipal decoded.frame.request).asBytes =
        .ok (response, database') ∧
      Related (From T now) relay' database' := by
  obtain ⟨op, ho⟩ := exists_operation hi
  obtain ⟨database', hr, hv, hd, hp⟩ := run_simulates h.valid hn hi ho
  have hx : RepliesUnless database _ _ (run database now.toNat
      (requestPrincipal decoded.frame.request).asBytes (.of decoded.frame.request)) :=
    run_cases h.bounded _
  obtain ⟨_, hx⟩ | ⟨_, hx⟩ := hx
  case inl => cases hr.symm.trans hx
  case inr =>
    rw [hr] at hx
    obtain ⟨hb, response, ha⟩ := hx.of_ok
    have hg := Cofferwire.Relay.apply_agree (fun t => h.view) (fun t hm => timestamp_eq ho hm ▸ ht) ht
    have hl (delivery) (hl : (Cofferwire.Relay.apply op relay.store.queue.relay).fst =
        .ok (.fetch (some delivery))) : delivery.payload.length ≤ Cofferwire.maxMessageBytes := by
      rw [←hg.output, hl] at ha
      exact payload_length_le (congrArg Prod.snd ha)
    have hf' : relay.Fresh (RelayService.queueCall frame now decoded) :=
      Replay.lookup_eq_none.mp (h.lookup.trans (Option.map_eq_none_iff.mpr hf))
    obtain ⟨result, _, queue, rfl, he, hc, ho', hq, hu⟩ := RelayService.exchange_executes h.queue ho hl hf'
    have hs : execute database (.of decoded) now.toNat _ = _ :=
      (execute_eq (Arguments.code_of decoded.frame.request).symm rfl).trans hr
    have hn := encodeResponse_answerOf decoded.frame.requestId hc
    rw [ho', hg.output] at hn
    refine ⟨_, _, _, he, respond_eq hs hn hf hp, hq, ⟨hv.tables, hv.sequence⟩, hb, ?_, ?_⟩
    · rintro t ⟨ht, hn⟩
      refine (congrArg (Cofferwire.Relay.view · t) hu).trans ?_
      refine (Cofferwire.Relay.undoError_view (fun t => h.view) hg ht fun _ _ t' ht' => ?_).trans ?_
      · exact timestamp_eq ho ht' ▸ hn
      · rw [←hd]
        rfl
    · simp [Replay.Database.record, RelayService.queueCall, DurableRelay.queueRequestCall, h.replays]
      rfl

theorem validateQueueRequest_eq (h : InDomain now request) :
    validateQueueRequest request = .ok () := by
  cases request
  case send send =>
    have ht : Cofferwire.Relay.Ttl.fromSecs send.ttl = some ⟨send.ttl, h.left⟩ := dif_neg h.left
    simp [validateQueueRequest, ht]
  all_goals rfl

theorem principal_of (request : Request) :
    (Arguments.of request).principal = (requestPrincipal request).asBytes := by
  cases request <;> rfl

-- Both relays return the same response, and their databases are still related.
structure Agree (T : Timestamp → Prop) (result : Except ExchangeError Bytes × RelayService)
    (result' : Except Error Bytes × Connection) : Prop where
  response : ∃ response, result.fst = .ok response ∧ result'.fst = .ok response
  related  : Related T result.snd.relay result'.snd.committed
  closed   : result'.snd.transaction = none

theorem transact_agree {service : RelayService} {decoded : Codec.DecodedRequest}
    (h : Related T service.relay database) (ht : T now) (hn : now.toNat < 2 ^ 63)
    (hi : InDomain now decoded.frame.request) :
    Agree (From T now)
      (service.submit (RelayService.queueCall frame now decoded)
        (errorResponse decoded.frame.requestId decoded.frame.request.command .authReplay) false)
      (transact ⟨database, some database⟩ (.of decoded) frame now.toNat
        (requestPrincipal decoded.frame.request).asBytes) := by
  have hs : Related (From T now) service.relay database := h.mono fun _ => And.left
  have hd : Connection.database ⟨database, some database⟩ = database := rfl
  have hr : (RequestFrame.of decoded).requestId = decoded.frame.requestId.asBytes := rfl
  have hq : (RelayService.queueCall frame now decoded).request = frame := rfl
  simp only [RelayService.submit, Bool.false_eq_true, if_false, transact, hd, hr, hq]
  cases hf : Table.lookup ReplayRow.key ((requestPrincipal decoded.frame.request).asBytes,
    decoded.frame.requestId.asBytes) database.replays
  case some row =>
    have hl : Replay.lookup service.relay (RelayService.queueCall frame now decoded).ns
      (RelayService.queueCall frame now decoded).subject
      (RelayService.queueCall frame now decoded).requestId = some row.toRow :=
      h.lookup.trans (congrArg (Option.map ReplayRow.toRow) hf)
    simp only [hl, ReplayRow.toRow]
    by_cases hb : row.frame = frame
    case pos =>
      simp only [hb, if_true]
      exact ⟨⟨row.response, rfl, rfl⟩, hs, rfl⟩
    case neg =>
      simp only [hb, if_false]
      have he : encodeResponse _ (RequestFrame.of decoded).command Code.authReplay [] = .ok _ :=
        encodeResponse_error decoded.frame.requestId.asBytes (some decoded.frame.request.command)
          .authReplay (by decide)
      exact ⟨⟨_, rfl, he⟩, hs, rfl⟩
  case none =>
    have hl : Replay.lookup service.relay (RelayService.queueCall frame now decoded).ns
      (RelayService.queueCall frame now decoded).subject
      (RelayService.queueCall frame now decoded).requestId = none :=
      h.lookup.trans (congrArg (Option.map ReplayRow.toRow) hf)
    obtain ⟨response, relay', database', he, hr, h'⟩ := respond_agree h ht hn hi hf frame
    simp only [hl, he, hr]
    exact ⟨⟨response, rfl, rfl⟩, h', rfl⟩

section Exchange

variable [Profile] [Ed25519]

theorem screen_eq_ok {service : RelayService} (hd : Codec.decodeRequest frame = .ok decoded)
    (hv : Cofferwire.verifyRequest (requestPrincipal decoded.frame.request) decoded.authenticatedBytes
      decoded.frame.auth = .ok ())
    (ha : (service.queueRateLimiter.admits (requestPrincipal decoded.frame.request) now).fst = some true)
    (hq : validateQueueRequest decoded.frame.request = .ok ()) :
    service.screen frame now = (.ok decoded, { service with queueRateLimiter :=
      (service.queueRateLimiter.admits (requestPrincipal decoded.frame.request) now).snd }) := by
  simp only [RelayService.screen, hd, hv, ha]
  split
  case h_1 => rfl
  case h_2 h => cases hq.symm.trans h

theorem exchange_agree {service : RelayService} {connection : Connection} (stack : Stack)
    (h : Related T service.relay connection.committed) (hc : connection.transaction = none) (ht : T now)
    (hn : now.toNat < 2 ^ 63) (hd : Codec.decodeRequest frame = .ok decoded)
    (hp : decodeRequest stack frame = .ok request) (hi : InDomain now decoded.frame.request)
    (ha : Cofferwire.verifyRequest (requestPrincipal decoded.frame.request) decoded.authenticatedBytes
      decoded.frame.auth = .ok () →
        (service.queueRateLimiter.admits (requestPrincipal decoded.frame.request) now).fst = some true) :
    Agree (From T now) (service.exchangeAt frame now false)
      (exchange stack connection frame now.toNat) := by
  obtain ⟨database, _⟩ := connection
  subst hc
  have he := (decodeRequest_eq_ok.mp hp).left
  obtain rfl : request = .of decoded := by
    have h := decodeRequest_unbounded.mpr he
    exact Except.ok.inj (h.symm.trans (decodeRequest_unbounded.mpr (encodes_of hd)))
  have hr := requestId_eq he
  have hb : (RequestFrame.of decoded).body = (Arguments.of decoded.frame.request).values := rfl
  have hv : ¬(17 ≤ frame.length ∧ frame.head? ≠ some version) := by
    obtain ⟨_, _, ha⟩ := he.payload
    obtain ⟨_, _, hf⟩ := he.frame
    rintro ⟨_, h⟩
    exact h (by rw [hf, ha]; rfl)
  simp only [exchange, if_neg hv, hp, authenticate, hb, Arguments.idAt_values, Except.ok_bind,
    principal_of]
  obtain hs | hs := verifyRequest_cases (.of decoded) (requestPrincipal decoded.frame.request).asBytes
  case inl =>
    have hs' := (verifyRequest_of decoded _).mp hs
    have hw := screen_eq_ok hd hs' (ha hs') (validateQueueRequest_eq hi)
    rw [RelayService.exchangeAt, hw, hs]
    exact transact_agree h ht hn hi
  case inr =>
    have hs' : Cofferwire.verifyRequest (requestPrincipal decoded.frame.request)
        decoded.authenticatedBytes decoded.frame.auth = .error .authenticationFailed := by
      have hn : Python.verifyRequest (.of decoded) (requestPrincipal decoded.frame.request).asBytes ≠
          .ok () := by
        rw [hs]
        rintro ⟨⟩
      rw [Ne, verifyRequest_of] at hn
      simp only [Cofferwire.verifyRequest] at hn ⊢
      split at hn
      case isTrue => exact absurd rfl hn
      case isFalse h => exact if_neg h
    have hw := encodeResponse_error decoded.frame.requestId.asBytes
      (some decoded.frame.request.command) .authInvalid (by decide)
    simp only [RelayService.exchangeAt, RelayService.screen, hd, hs']
    rw [hs]
    exact ⟨⟨_, rfl, hr ▸ hw⟩, h.mono fun _ => And.left, rfl⟩

variable [Sha256]

-- The inputs with which both relays are run.
def rustInputs (inputs : Nat → Bytes × Timestamp) (n : Nat) : RelayService.Input :=
  .exchange (inputs n).fst (inputs n).snd false

def pythonInputs (inputs : Nat → Bytes × Timestamp) (n : Nat) : Bytes × Nat :=
  ((inputs n).fst, (inputs n).snd.toNat)

-- The runs in which both decoders accept all frames, all numbers can be stored, time does not run
-- backwards and no request exceeds the budget of its principal.
structure Common (stack : Stack) (inputs : Nat → Bytes × Timestamp) (n : Nat) : Prop where
  accepted : ∀ k ≤ n, ∃ decoded request, Codec.decodeRequest (inputs k).fst = .ok decoded ∧
    decodeRequest stack (inputs k).fst = .ok request
  domain   : ∀ k ≤ n, ∀ decoded, Codec.decodeRequest (inputs k).fst = .ok decoded →
    InDomain (inputs k).snd decoded.frame.request
  time     : ∀ k ≤ n, (inputs k).snd.toNat < 2 ^ 63
  clock    : ∀ i j, i ≤ j → j ≤ n → (inputs i).snd ≤ (inputs j).snd
  admitted : ∀ k ≤ n, ∀ decoded, Codec.decodeRequest (inputs k).fst = .ok decoded →
    Cofferwire.verifyRequest (requestPrincipal decoded.frame.request) decoded.authenticatedBytes
      decoded.frame.auth = .ok () →
    ((RelayService.machine.state (rustInputs inputs) k).queueRateLimiter.admits
      (requestPrincipal decoded.frame.request) (inputs k).snd).fst = some true

-- The times which have not passed before the `n`-th input.
def Ahead (inputs : Nat → Bytes × Timestamp) (n : Nat) (t : Timestamp) : Prop :=
  ∀ k < n, (inputs k).snd ≤ t

theorem Common.agree (hc : Common stack inputs n) (hk : k ≤ n)
    (h : Related (Ahead inputs k) (RelayService.machine.state (rustInputs inputs) k).relay
      ((machine stack).state (pythonInputs inputs) k).committed)
    (ho : ((machine stack).state (pythonInputs inputs) k).transaction = none) :
    Agree (From (Ahead inputs k) (inputs k).snd)
      ((RelayService.machine.state (rustInputs inputs) k).exchangeAt (inputs k).fst (inputs k).snd false)
      (exchange stack ((machine stack).state (pythonInputs inputs) k) (inputs k).fst
        (inputs k).snd.toNat) := by
  obtain ⟨decoded, request, hd, hp⟩ := hc.accepted k hk
  exact exchange_agree stack h ho (fun i hi => hc.clock i k (Nat.le_of_lt hi) hk) (hc.time k hk) hd hp
    (hc.domain k hk decoded hd) (hc.admitted k hk decoded hd)

theorem Common.related (hc : Common stack inputs n) (hk : k ≤ n) :
    Related (Ahead inputs k) (RelayService.machine.state (rustInputs inputs) k).relay
      ((machine stack).state (pythonInputs inputs) k).committed ∧
    ((machine stack).state (pythonInputs inputs) k).transaction = none := by
  induction k
  case zero =>
    refine ⟨⟨DurableRelay.QueueTables.empty_valid, ⟨?_, nofun⟩, nofun, fun _ => rfl, rfl⟩, rfl⟩
    exact DurableRelay.QueueTables.empty_valid
  case succ k hi =>
    obtain ⟨h, ho⟩ := hi (Nat.le_of_succ_le hk)
    have ha := hc.agree (Nat.le_of_succ_le hk) h ho
    refine ⟨ha.related.mono fun t ht => ⟨fun i hi => ?_, ht k (Nat.lt_succ_self k)⟩, ha.closed⟩
    exact ht i (Nat.lt_succ_of_lt hi)

-- Both relays return the same response to every frame.
theorem relays_agree (stack : Stack) (inputs : Nat → Bytes × Timestamp) (n : Nat)
    (h : Common stack inputs n) :
    ∃ response, RelayService.machine.output (rustInputs inputs) n = some (.ok response) ∧
      (machine stack).output (pythonInputs inputs) n = .ok response := by
  obtain ⟨hr, ho⟩ := h.related le_rfl
  obtain ⟨response, hs, hp⟩ := (h.agree le_rfl hr ho).response
  exact ⟨response, congrArg some hs, hp⟩

end Exchange

-- A queue is created, and then the same request identifier is used for a message.
namespace Reused

attribute [local instance] Toy.profile Toy.sha256 Toy.ed25519

theorem messages_pos : (8 : UInt64) ≠ 0                := by decide
theorem bytes_pos    : (512 : UInt64) ≠ 0              := by decide
theorem bytes_le     : (512 : UInt64).toNat ≤ 64374    := by decide
theorem payload_le   : ([7] : Bytes).length ≤ 64374    := by decide

def key : ByteVec 32 := .replicate 32 1

def create : Request :=
  .createQueue ⟨⟨.replicate 32 3⟩, ⟨key⟩, ⟨.replicate 32 2⟩, 8, 512, messages_pos, bytes_pos, bytes_le⟩

def send : Request :=
  .send ⟨⟨.replicate 32 3⟩, ⟨key⟩, ⟨.replicate 32 4⟩, ⟨[7], payload_le⟩, 60⟩

def decoded (request : Request) : Codec.DecodedRequest :=
  let requestId          := ⟨.replicate 16 0⟩
  let authenticatedBytes := Codec.encodeAuthenticatedRequest requestId request
  ⟨⟨requestId, request, signRequest key authenticatedBytes⟩, authenticatedBytes⟩

def request : Nat → Request
  | 0 => create
  | _ => send

def inputs (n : Nat) : Bytes × Timestamp :=
  (Codec.encodeRequest (decoded (request n)).frame, 5)

theorem decodeRequest_inputs (n : Nat) :
    Codec.decodeRequest (inputs n).fst = .ok (decoded (request n)) :=
  Codec.decodeRequest_eq_ok.mpr ⟨rfl, rfl⟩

theorem create_admitted : ((RelayService.machine.state (rustInputs inputs) 0).queueRateLimiter.admits
    ⟨key⟩ 5).fst = some true := by
  decide +kernel

theorem send_admitted : ((RelayService.machine.state (rustInputs inputs) 1).queueRateLimiter.admits
    ⟨key⟩ 5).fst = some true := by
  decide +kernel

theorem common : Common .unbounded inputs 1 where
  accepted k _ :=
    have h := decodeRequest_inputs k
    ⟨_, _, h, decodeRequest_unbounded.mpr (encodes_of h)⟩
  domain k _ _ h := by
    cases (decodeRequest_inputs k).symm.trans h
    cases k
    case zero => exact (by decide : (8 : UInt64).toNat < 2 ^ 63)
    case succ => exact ⟨by decide, (by decide : (5 : UInt64).toNat + (60 : UInt64).toNat < 2 ^ 63)⟩
  time _ _      := (by decide : (5 : UInt64).toNat < 2 ^ 63)
  clock _ _ _ _ := UInt64.le_refl 5
  admitted k hk _ h _ := by
    cases (decodeRequest_inputs k).symm.trans h
    obtain rfl | rfl : k = 0 ∨ k = 1 := by omega
    · exact create_admitted
    · exact send_admitted

theorem reuse_agrees :
    Common .unbounded inputs 1 ∧
    RelayService.machine.output (rustInputs inputs) 1 =
      some (.ok (errorResponse ⟨.replicate 16 0⟩ (some .send) .authReplay)) ∧
    (machine .unbounded).output (pythonInputs inputs) 1 =
      .ok (errorResponse ⟨.replicate 16 0⟩ (some .send) .authReplay) := by
  obtain ⟨response, hr, hp⟩ := relays_agree .unbounded inputs 1 common
  have ho : RelayService.machine.output (rustInputs inputs) 1 =
    some (.ok (errorResponse ⟨.replicate 16 0⟩ (some .send) .authReplay)) := by decide +kernel
  cases hr.symm.trans ho
  exact ⟨common, ho, hp⟩

end Reused

end Relay
end Cofferwire.Python
