import Cofferwire.Codec.Queue
import Cofferwire.Codec.Theorems.Frame

namespace Cofferwire.Codec

open Reader (Recognizes)

theorem commandFromU64_recognizes :
    Recognizes (commandFromU64 v) fun w c => w = [] ∧ v = c.asU8.toUInt64 :=
  u8TryFrom_recognizes _ fun _ => validate_recognizes.congr <| by simp [Command.tryFrom_eq_ok]

theorem decodeCommand_recognizes :
    Recognizes decodeCommand fun w c => w = encodeUnsigned c.asU8.toUInt64 := by
  unfold decodeCommand
  refine (Decoder.unsigned_recognizes.bind fun v => commandFromU64_recognizes).congr ?_
  simp

theorem decodeStatus_recognizes :
    Recognizes decodeStatus fun w s => w = encodeUnsigned s.asU8.toUInt64 := by
  unfold decodeStatus
  refine (Decoder.unsigned_recognizes.bind fun v => u8TryFrom_recognizes Status.asU8
    fun _ => validate_recognizes.congr ?_).congr ?_
  · simp [Status.tryFrom_eq_ok]
  · simp

theorem smallU8_recognizes :
    Recognizes (smallU8 field) fun w b => w = encodeUnsigned b.toUInt64 := by
  unfold smallU8
  refine (Decoder.unsigned_recognizes.bind fun v => u8TryFrom_recognizes id
    fun byte => (Recognizes.pure byte).congr ?_).congr ?_
  · simp [eq_comm]
  · simp

theorem queueId_recognizes : Recognizes queueId fun w q => w = encodeId q.asBytes :=
  fixedBytes_map_recognizes fun ⟨_⟩ _ => by simp

theorem principal_recognizes : Recognizes principal fun w p => w = encodeId p.asBytes :=
  fixedBytes_map_recognizes fun ⟨_⟩ _ => by simp

theorem messageId_recognizes : Recognizes messageId fun w m => w = encodeId m.asBytes :=
  fixedBytes_map_recognizes fun ⟨_⟩ _ => by simp

theorem payload_recognizes : Recognizes payload fun w p => w = encodeBytes p.asBytes := by
  unfold payload
  refine ((Decoder.bytes_recognizes (by decide)).bind fun _ => validate_recognizes).congr ?_
  intro w p
  have := p.bounded
  simp [Payload.new_eq_ok]
  grind

theorem decodeAuth_recognizes : Recognizes decodeAuth fun w a => w = encodeBytes a.asBytes := by
  unfold decodeAuth
  refine ((Decoder.bytes_recognizes (by decide)).bind fun _ => validate_recognizes).congr ?_
  intro w a
  have := a.bounded
  simp [Auth.new_eq_ok]
  grind

-- The body for a command is that of a request with this command.
theorem decodeRequestBody_recognizes :
    Recognizes (decodeRequestBody command) fun w r =>
      r.command = command ∧ w = encodeRequestBody r := by
  cases command <;> unfold decodeRequestBody
  case createQueue =>
    refine (Decoder.array_recognizes.bind fun _ => queueId_recognizes.bind fun _ =>
      principal_recognizes.bind fun _ => principal_recognizes.bind fun _ =>
      Decoder.unsigned_recognizes.bind fun _ => Decoder.unsigned_recognizes.bind fun _ =>
      validate_recognizes.bind fun _ => .pure _).congr ?_
    rintro w (⟨_, _⟩ | ⟨_, _⟩ | ⟨_, _⟩ | ⟨_, _⟩ | ⟨_, _⟩) <;>
      simp [Request.command, encodeRequestBody, QueueLimits.new_eq_ok]
  case send =>
    refine (Decoder.array_recognizes.bind fun _ => queueId_recognizes.bind fun _ =>
      principal_recognizes.bind fun _ => messageId_recognizes.bind fun _ =>
      payload_recognizes.bind fun _ => Decoder.unsigned_recognizes.bind fun _ => .pure _).congr ?_
    rintro w (⟨_, _⟩ | ⟨_, _⟩ | ⟨_, _⟩ | ⟨_, _⟩ | ⟨_, _⟩) <;> simp [Request.command, encodeRequestBody]
  case ack =>
    refine (Decoder.array_recognizes.bind fun _ => queueId_recognizes.bind fun _ =>
      principal_recognizes.bind fun _ => messageId_recognizes.bind fun _ => .pure _).congr ?_
    rintro w (⟨_, _⟩ | ⟨_, _⟩ | ⟨_, _⟩ | ⟨_, _⟩ | ⟨_, _⟩) <;> simp [Request.command, encodeRequestBody]
  case fetch | deleteQueue =>
    refine (Decoder.array_recognizes.bind fun _ => queueId_recognizes.bind fun _ =>
      principal_recognizes.bind fun _ => .pure _).congr ?_
    rintro w (⟨_, _⟩ | ⟨_, _⟩ | ⟨_, _⟩ | ⟨_, _⟩ | ⟨_, _⟩) <;> simp [Request.command, encodeRequestBody]

theorem decodeResponseBody_recognizes :
    Recognizes (decodeResponseBody command) fun w b =>
      b.command = command ∧ w = encodeSuccessBody b := by
  cases command <;> unfold decodeResponseBody
  case createQueue =>
    refine (Decoder.array_recognizes.bind fun _ => smallU8_recognizes.bind fun _ =>
      validate_recognizes.bind fun _ => .pure _).congr ?_
    rintro w (_ | _ | (_ | ⟨_, _⟩) | _ | _) <;>
      simp [ResponseBody.command, encodeSuccessBody, CreateQueueOutcome.tryFrom_eq_ok]
  case send =>
    refine (Decoder.array_recognizes.bind fun _ => smallU8_recognizes.bind fun _ =>
      validate_recognizes.bind fun _ => .pure _).congr ?_
    rintro w (_ | _ | (_ | ⟨_, _⟩) | _ | _) <;>
      simp [ResponseBody.command, encodeSuccessBody, SendOutcome.tryFrom_eq_ok]
  case fetch =>
    refine (Decoder.arrayLength_recognizes.bind fun n =>
      (expectValue_recognizes.bind fun _ => .pure _).ite <|
      (expectValue_recognizes.bind fun _ => messageId_recognizes.bind fun _ =>
        payload_recognizes.bind fun _ => Decoder.unsigned_recognizes.bind fun _ => .pure _).ite <|
      .throw _).congr ?_
    rintro w (_ | _ | (_ | ⟨_, _⟩) | _ | _) <;> simp [ResponseBody.command, encodeSuccessBody]
  case ack | deleteQueue =>
    refine (Decoder.array_recognizes.bind fun _ => .pure _).congr ?_
    rintro w (_ | _ | (_ | ⟨_, _⟩) | _ | _) <;> simp [ResponseBody.command, encodeSuccessBody]

theorem decodeRequestPayload_recognizes :
    Recognizes decodeRequestPayload fun w r => w = encodeRequestPayload r := by
  unfold decodeRequestPayload
  refine (Decoder.array_recognizes.bind fun _ => expectValue_recognizes.bind fun _ =>
    decodeCommand_recognizes.bind fun _ => decodeRequestBody_recognizes).congr ?_
  simp [encodeRequestPayload]

-- No command has the code 0.
theorem optionalCommand_recognizes :
    Recognizes (optionalCommand code) fun w command =>
      w = [] ∧ code = command.elim 0 (·.asU8.toUInt64) := by
  unfold optionalCommand
  refine ((Recognizes.pure none).ite (commandFromU64_recognizes.bind fun _ => .pure _)).congr ?_
  rintro w (_ | c)
  · simp [and_comm]
  · have := c.asU8_ne_zero
    grind

theorem decodeResponsePayload_recognizes :
    Recognizes decodeResponsePayload fun w r => w = encodeResponsePayload r := by
  unfold decodeResponsePayload
  refine (Decoder.array_recognizes.bind fun _ => expectValue_recognizes.bind fun _ =>
    Decoder.unsigned_recognizes.bind fun code => decodeStatus_recognizes.bind fun status =>
      .ite (commandFromU64_recognizes.bind fun _ => decodeResponseBody_recognizes.bind fun _ =>
        .pure _)
      (Decoder.array_recognizes.bind fun _ => optionalCommand_recognizes.bind fun _ =>
          validate_recognizes.bind fun _ => .pure _)).congr ?_
  rintro w (body | ⟨command, status, failed⟩)
  case success =>
    simp [encodeResponsePayload, Response.command, Response.status, Status.isOk_iff]
  case error =>
    have : status.isOk = false := by simp [←Bool.not_eq_true, Status.isOk_iff, failed]
    simp [encodeResponsePayload, Response.command, Response.status, ErrorResponse.new_eq_ok, this]

theorem command_length {command : Command} :
    (encodeUnsigned command.asU8.toUInt64).length = 1 := by
  cases command <;> rfl

theorem encodeRequestBody_length_le (request : Request) :
    (encodeRequestBody request).length ≤ 64489 := by
  cases request <;> simp only [encodeRequestBody, List.length_append, encodeId_length]
  case createQueue create =>
    have ha : (encodeArray 5).length = 1 := rfl
    have hm := encodeUnsigned_length_le (v := create.limits.maxMessages)
    have hb := encodeUnsigned_length_le (v := create.limits.maxMessageBytes)
    omega
  case send send =>
    have ha : (encodeArray 5).length = 1 := rfl
    have hp := encodeBytes_length_le send.payload.bounded (by decide)
    have ht := encodeUnsigned_length_le (v := send.ttl)
    rw [maxMessageBytes] at hp
    omega
  all_goals simp [encodeArray, encodeArgument]

-- A request frame with its own maximum of 1024 proof bytes, a payload of 64374 bytes and its longest
-- arguments has exactly the size limit.
theorem encodeRequest_length_le : (encodeRequest frame).length ≤ maxFrameBytes := by
  have hb := encodeRequestBody_length_le frame.request
  have ha := encodeBytes_length_le frame.auth.bounded (by decide)
  have h3 : (encodeArray 3).length = 1 := rfl
  have h0 : (encodeUnsigned 0).length = 1 := rfl
  simp only [encodeRequest, encodeAuthenticatedRequest, encodeRequestPayload, List.length_append,
    encodePreamble_length, command_length, h3, h0, preambleBytes, maxFrameBytes, maxAuthBytes] at *
  omega

theorem encodeSuccessBody_length_le (body : ResponseBody) :
    (encodeSuccessBody body).length ≤ 64489 := by
  rcases body with _ | _ | (_ | delivery) | _ | _
  case createQueue outcome => cases outcome <;> decide
  case send outcome => cases outcome <;> decide
  case fetch.some =>
    have ha : (encodeArray 4).length = 1 := rfl
    have h1 : (encodeUnsigned 1).length = 1 := rfl
    have hp := encodeBytes_length_le delivery.payload.bounded (by decide)
    have he := encodeUnsigned_length_le (v := delivery.expiresAt)
    simp only [encodeSuccessBody, List.length_append, encodeId_length, maxMessageBytes] at *
    omega
  all_goals decide

theorem encodeResponse_length_le : (encodeResponse frame).length ≤ maxFrameBytes := by
  have h4 : (encodeArray 4).length = 1 := rfl
  have h1 : (encodeUnsigned 1).length = 1 := rfl
  have hc := encodeUnsigned_length_le (v := frame.response.command.elim 0 (·.asU8.toUInt64))
  have hs := encodeUnsigned_length_le (v := frame.response.status.asU8.toUInt64)
  simp only [encodeResponse, encodeResponsePayload, List.length_append, encodePreamble_length, h4,
    h1, preambleBytes, maxFrameBytes]
  split
  case h_1 =>
    have h0 : (encodeArray 0).length = 1 := rfl
    omega
  case h_2 body _ =>
    have hb := encodeSuccessBody_length_le body
    omega

theorem decodeRequest_eq_ok {d : DecodedRequest} :
    decodeRequest bytes = .ok d ↔
      bytes = encodeRequest d.frame ∧
      d.authenticatedBytes = encodeAuthenticatedRequest d.frame.requestId d.frame.request := by
  refine (decode_signed_eq_ok decodeRequestPayload_recognizes decodeAuth_recognizes
    fun requestId request auth => DecodedRequest.mk ⟨requestId, request, auth⟩).trans ?_
  constructor
  case mp =>
    rintro ⟨requestId, _, request, _, auth, rfl, rfl, rfl, _, rfl⟩
    exact ⟨rfl, rfl⟩
  case mpr =>
    obtain ⟨⟨requestId, request, auth⟩, authenticatedBytes⟩ := d
    rintro ⟨rfl, ha⟩
    refine ⟨requestId, _, request, _, auth, rfl, rfl, rfl, encodeRequest_length_le, ?_⟩
    exact congrArg _ ha

-- The authenticated bytes determine the request.
theorem encodeAuthenticatedRequest_inj
    (h : encodeAuthenticatedRequest requestId request = encodeAuthenticatedRequest requestId' request') :
    requestId = requestId' ∧ request = request' := by
  have he : encodeRequest ⟨requestId, request, ⟨[], Nat.zero_le _⟩⟩ =
      encodeRequest ⟨requestId', request', ⟨[], Nat.zero_le _⟩⟩ :=
    congrArg (· ++ _) h
  have hd (f : RequestFrame) : decodeRequest (encodeRequest f) =
      .ok ⟨f, encodeAuthenticatedRequest f.requestId f.request⟩ :=
    decodeRequest_eq_ok.mpr ⟨rfl, rfl⟩
  have hd := (hd _).symm.trans (he ▸ hd _)
  cases hd
  exact ⟨rfl, rfl⟩

theorem decodeResponse_eq_ok {frame : ResponseFrame} :
    decodeResponse bytes = .ok frame ↔ bytes = encodeResponse frame := by
  refine (decode_plain_eq_ok decodeResponsePayload_recognizes ResponseFrame.mk).trans ?_
  constructor
  case mp =>
    rintro ⟨requestId, _, response, rfl, rfl, _, rfl⟩
    rfl
  case mpr =>
    rintro rfl
    exact ⟨frame.requestId, _, frame.response, rfl, rfl, encodeResponse_length_le, rfl⟩

-- Encoding and decoding are inverse to each other, for requests as well as for responses.
theorem queue_frame_bijection :
    (∀ frame : RequestFrame,
      decodeRequest (encodeRequest frame) =
        .ok ⟨frame, encodeAuthenticatedRequest frame.requestId frame.request⟩ ∧
      (encodeRequest frame).length ≤ maxFrameBytes) ∧
    (∀ bytes d, decodeRequest bytes = .ok d → encodeRequest d.frame = bytes) ∧
    (∀ frame : ResponseFrame, decodeResponse (encodeResponse frame) = .ok frame) ∧
    (∀ bytes frame, decodeResponse bytes = .ok frame → encodeResponse frame = bytes) := by
  refine ⟨fun _ => ⟨?_, encodeRequest_length_le⟩, ?_, ?_, ?_⟩
  · exact decodeRequest_eq_ok.mpr ⟨rfl, rfl⟩
  · exact fun _ _ h => decodeRequest_eq_ok.mp h |>.left.symm
  · exact fun _ => decodeResponse_eq_ok.mpr rfl
  · exact fun _ _ h => decodeResponse_eq_ok.mp h |>.symm

end Cofferwire.Codec
