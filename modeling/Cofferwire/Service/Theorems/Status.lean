import Cofferwire.Codec.Theorems.Errors
import Cofferwire.Service.Theorems.Reuse

namespace Cofferwire.RelayService

open Codec

-- A request in version 1 whose command is not registered, whatever follows it.
def UnknownCommand (bytes : Bytes) : Prop :=
  ∃ requestId code rest,
    bytes = encodePreamble requestId ++ (encodeArray 3 ++ (encodeUnsigned 0 ++
      (encodeUnsigned code ++ rest))) ∧
    (code < 1 ∨ 5 < code)

-- The fields of a request to create a queue, whose limits may be out of range.
structure CreateFields where
  requestId       : RequestId
  queueId         : QueueId
  sender          : Principal
  recipient       : Principal
  maxMessages     : UInt64
  maxMessageBytes : UInt64
  auth            : Auth

namespace CreateFields

variable (fields : CreateFields)

def authenticatedBytes : Bytes :=
  encodePreamble fields.requestId ++ (encodeArray 3 ++ (encodeUnsigned 0 ++
    (encodeUnsigned 1 ++ (encodeArray 5 ++ (encodeId fields.queueId.asBytes ++
    (encodeId fields.sender.asBytes ++ (encodeId fields.recipient.asBytes ++
    (encodeUnsigned fields.maxMessages ++ encodeUnsigned fields.maxMessageBytes))))))))

def encode : Bytes :=
  fields.authenticatedBytes ++ encodeBytes fields.auth.asBytes

def OutOfRange : Prop :=
  fields.maxMessages = 0 ∨ fields.maxMessageBytes = 0 ∨
    Cofferwire.maxMessageBytes < fields.maxMessageBytes.toNat

end CreateFields

-- The grammar of requests does not restrict the limits of queues.
def Grammatical (bytes : Bytes) : Prop :=
  (∃ frame, bytes = encodeRequest frame) ∨ ∃ fields : CreateFields, bytes = fields.encode

theorem requestIdFromPrefix_eq (h : preambleBytes ≤ bytes.length) :
    (requestIdFromPrefix bytes).asBytes.toBytes = slice bytes 1 17 := by
  have hl : (slice bytes 1 17).length = 16 := slice_length h
  simp [requestIdFromPrefix, ByteVec.tryFrom, hl]

theorem decodeErrorResponse_malformed (he : error.Malformed) :
    decodeErrorResponse bytes error =
      errorResponse (requestIdFromPrefix bytes) none .malformedFrame := by
  cases error <;> first | rfl | contradiction

section Undecodable

theorem encodeUnsigned_append_inj (h : encodeUnsigned v ++ x = encodeUnsigned v' ++ y) :
    v = v' ∧ x = y :=
  have hr : Reader.Recognizes (Decoder.unsigned "") _ := Decoder.unsigned_recognizes
  have ⟨hv, _, hx⟩ := hr.append_inj rfl rfl h
  ⟨hv, hx⟩

-- All that precedes the command of a request is the same for all requests.
theorem encodeRequest_inj (h : encodeRequest frame = encodePreamble requestId ++ (encodeArray 3 ++
      (encodeUnsigned 0 ++ (encodeUnsigned code ++ rest)))) :
    frame.request.command.asU8.toUInt64 = code ∧
      encodeRequestBody frame.request ++ encodeBytes frame.auth.asBytes = rest := by
  simp only [encodeRequest, encodeAuthenticatedRequest, encodeRequestPayload,
    List.append_assoc] at h
  obtain ⟨_, h⟩ := List.append_inj h (by simp only [encodePreamble_length])
  exact encodeUnsigned_append_inj <| List.append_cancel_left (List.append_cancel_left h)

theorem encodeRequest_ne_of_unknownCommand (h : UnknownCommand bytes) (frame : RequestFrame) :
    bytes ≠ encodeRequest frame := by
  rintro rfl
  obtain ⟨requestId, code, rest, h, hc⟩ := h
  obtain ⟨rfl, _⟩ := encodeRequest_inj h
  generalize frame.request.command = command at hc
  cases command <;> revert hc <;> decide

theorem encodeRequest_ne_of_outOfRange {fields : CreateFields} (h : fields.OutOfRange)
    (frame : RequestFrame) : fields.encode ≠ encodeRequest frame := by
  intro he
  simp only [CreateFields.encode, CreateFields.authenticatedBytes, List.append_assoc] at he
  obtain ⟨hc, hb⟩ := encodeRequest_inj he.symm
  have hc : frame.request.command = .createQueue := by
    generalize frame.request.command = command at hc
    cases command <;> first | rfl | exact absurd hc (by decide)
  cases hr : frame.request <;> rw [hr] at hc <;> cases hc
  case createQueue create =>
    simp only [hr, encodeRequestBody, List.append_assoc] at hb
    have hl {a b : ByteVec 32} : (encodeId a).length = (encodeId b).length := by
      rw [encodeId_length, encodeId_length]
    have hb := List.append_cancel_left hb
    have hb := (List.append_inj hb hl).right
    have hb := (List.append_inj hb hl).right
    have hb := (List.append_inj hb hl).right
    obtain ⟨hm, hb⟩ := encodeUnsigned_append_inj hb
    obtain ⟨hs, _⟩ := encodeUnsigned_append_inj hb
    rcases h with h | h | h
    · exact create.limits.messages_pos (hm.trans h)
    · exact create.limits.bytes_pos (hs.trans h)
    · have := create.limits.bytes_le
      rw [hs] at this
      omega

theorem CreateFields.encode_length_le (fields : CreateFields) :
    fields.encode.length ≤ maxFrameBytes := by
  have hm := encodeUnsigned_length_le (v := fields.maxMessages)
  have hb := encodeUnsigned_length_le (v := fields.maxMessageBytes)
  have ha := encodeBytes_length_le fields.auth.bounded (by decide)
  have h3 : (encodeArray 3).length = 1 := rfl
  have h5 : (encodeArray 5).length = 1 := rfl
  have h0 : (encodeUnsigned 0).length = 1 := rfl
  have h1 : (encodeUnsigned 1).length = 1 := rfl
  simp only [encode, authenticatedBytes, List.length_append, encodePreamble_length, encodeId_length,
    h0, h1, h3, h5, preambleBytes, maxFrameBytes, maxAuthBytes] at *
  omega

end Undecodable

section Answers

variable [Ed25519]

def SignedOutOfRange (bytes : Bytes) : Prop :=
  ∃ fields : CreateFields, bytes = fields.encode ∧ fields.OutOfRange ∧
    verifyRequest fields.sender fields.authenticatedBytes fields.auth = .ok ()

-- The status which the specification assigns to a frame.
inductive Specified (bytes : Bytes) : Status → Prop
  | frameTooLarge (h : maxFrameBytes < bytes.length) : Specified bytes .frameTooLarge
  | unsupportedVersion (h : bytes.length ≤ maxFrameBytes) (hv : bytes.head? = some received)
    (h₀ : received ≠ 0) (h₁ : received ≠ 1) : Specified bytes .unsupportedVersion
  | unknownCommand (h : bytes.length ≤ maxFrameBytes) (hc : UnknownCommand bytes) :
    Specified bytes .unknownCommand
  | limitOutOfRange (hl : SignedOutOfRange bytes) : Specified bytes .limitOutOfRange
  | malformedFrame (h : bytes.length ≤ maxFrameBytes)
    (hv : bytes.head? = some 0 ∨ bytes.head? = some 1) (hc : ¬UnknownCommand bytes)
    (hg : ¬Grammatical bytes) : Specified bytes .malformedFrame

-- The answer to a frame is the error which is specified for it, with its request id.
def AnsweredAsSpecified [Profile] (service : RelayService) (bytes : Bytes)
    (now : Timestamp) (fault : Bool) : Prop :=
  preambleBytes ≤ bytes.length → ∀ status, Specified bytes status →
    ∃ requestId command failed, requestId.asBytes.toBytes = slice bytes 1 17 ∧
      (service.exchangeAt bytes now fault).fst =
        .ok (errorResponse requestId command status failed)

variable [Profile]

theorem exchangeAt_undecodable (service : RelayService) (now : Timestamp) (fault : Bool)
    (h : decodeRequest bytes = .error error) :
    (service.exchangeAt bytes now fault).fst = .ok (decodeErrorResponse bytes error) := by
  simp only [exchangeAt, screen, h]

-- The code assigns the other statuses as they are specified.
theorem exchangeAt_specified (service : RelayService) (now : Timestamp) (fault : Bool)
    (hl : preambleBytes ≤ bytes.length) (hs : Specified bytes status)
    (hc : ¬(bytes.length ≤ maxFrameBytes ∧ UnknownCommand bytes)) (ho : ¬SignedOutOfRange bytes) :
    ∃ requestId command failed, requestId.asBytes.toBytes = slice bytes 1 17 ∧
      (service.exchangeAt bytes now fault).fst =
        .ok (errorResponse requestId command status failed) := by
  have hd := decodeRequest_classified hl
  generalize hr : decodeRequest bytes = result at hd
  cases hs
  case unknownCommand h hc' => exact absurd ⟨h, hc'⟩ hc
  case limitOutOfRange hl   => exact absurd hl ho
  case frameTooLarge h =>
    cases hd
    case frameTooLarge =>
      rw [exchangeAt_undecodable service now fault hr]
      exact ⟨_, _, _, requestIdFromPrefix_eq hl, rfl⟩
    case unsupportedVersion h' _ _ _ _ => exact absurd h (Nat.not_lt.mpr h')
    case malformed h' _ _              => exact absurd h (Nat.not_lt.mpr h')
    case ok =>
      rw [(decodeRequest_eq_ok.mp hr).left] at h
      exact absurd h (Nat.not_lt.mpr encodeRequest_length_le)
  case unsupportedVersion h hv h₀ h₁ =>
    cases hd
    case frameTooLarge h' => exact absurd h' (Nat.not_lt.mpr h)
    case unsupportedVersion hi =>
      rw [exchangeAt_undecodable service now fault hr]
      exact ⟨_, _, _, hi, rfl⟩
    case malformed hv' _ =>
      rw [hv] at hv'
      rcases hv' with hv' | hv' <;> cases hv' <;> contradiction
    case ok =>
      rw [(decodeRequest_eq_ok.mp hr).left] at hv
      cases hv
      contradiction
  case malformedFrame h hv _ hg =>
    cases hd
    case frameTooLarge h' => exact absurd h' (Nat.not_lt.mpr h)
    case unsupportedVersion hv' h₀ h₁ _ =>
      rw [hv'] at hv
      rcases hv with hv | hv <;> cases hv <;> contradiction
    case malformed he =>
      rw [exchangeAt_undecodable service now fault hr, decodeErrorResponse_malformed he]
      exact ⟨_, _, _, requestIdFromPrefix_eq hl, rfl⟩
    case ok => exact absurd (.inl ⟨_, (decodeRequest_eq_ok.mp hr).left⟩) hg

-- A frame in version 1 which is not the encoding of any request is answered as malformed.
theorem exchangeAt_malformed (service : RelayService) (now : Timestamp) (fault : Bool)
    (hb : bytes = encodePreamble requestId ++ rest) (h : bytes.length ≤ maxFrameBytes)
    (hn : ∀ frame, bytes ≠ encodeRequest frame) :
    (service.exchangeAt bytes now fault).fst =
      .ok (errorResponse (requestIdFromPrefix bytes) none .malformedFrame) := by
  have hl : preambleBytes ≤ bytes.length := by
    rw [hb, List.length_append, encodePreamble_length]
    exact Nat.le_add_right ..
  have hv : bytes.head? = some 1 := hb ▸ rfl
  have hd := decodeRequest_classified hl
  generalize hr : decodeRequest bytes = result at hd
  cases hd
  case frameTooLarge h' => exact absurd h' (Nat.not_lt.mpr h)
  case unsupportedVersion hv' _ h₁ _ =>
    rw [hv] at hv'
    cases hv'
    contradiction
  case malformed he =>
    rw [exchangeAt_undecodable service now fault hr, decodeErrorResponse_malformed he]
  case ok => exact absurd (decodeRequest_eq_ok.mp hr).left (hn _)

theorem AnsweredAsSpecified.eq_malformedFrame {service : RelayService}
    (ha : service.AnsweredAsSpecified bytes now fault) (hs : Specified bytes status)
    (hb : bytes = encodePreamble requestId ++ rest) (h : bytes.length ≤ maxFrameBytes)
    (hn : ∀ frame, bytes ≠ encodeRequest frame) : status = .malformedFrame := by
  have hl : preambleBytes ≤ bytes.length := by
    rw [hb, List.length_append, encodePreamble_length]
    exact Nat.le_add_right ..
  have ⟨_, _, _, _, hr⟩ := ha hl status hs
  rw [exchangeAt_malformed service now fault hb h hn] at hr
  exact errorResponse_inj (Except.ok.inj hr).symm

variable [Sha256]

theorem answered_as_specified_iff (inputs : Nat → Input) (n : Nat) (bytes : Bytes) (now : Timestamp)
    (fault : Bool) :
    AnsweredAsSpecified (machine.state inputs n) bytes now fault ↔
      ¬(bytes.length ≤ maxFrameBytes ∧ UnknownCommand bytes) ∧ ¬SignedOutOfRange bytes where
  mp h := by
    refine ⟨fun ⟨hl, hc⟩ => ?_, fun ho => ?_⟩
    · have ⟨_, _, _, hb, _⟩ := hc
      have hn := encodeRequest_ne_of_unknownCommand hc
      cases h.eq_malformedFrame (.unknownCommand hl hc) hb hl hn
    · have ⟨fields, hb, hf, _⟩ := ho
      have hl : bytes.length ≤ maxFrameBytes := hb ▸ fields.encode_length_le
      have hn := hb ▸ encodeRequest_ne_of_outOfRange hf
      rw [CreateFields.encode, CreateFields.authenticatedBytes, List.append_assoc] at hb
      cases h.eq_malformedFrame (.limitOutOfRange ho) hb hl hn
  mpr h _ _ hs := exchangeAt_specified _ now fault ‹_› hs h.left h.right

end Answers

-- A request with the unregistered command 6, and a request to create a queue for no messages.
namespace Misreported

attribute [local instance] Toy.profile Toy.sha256 Toy.ed25519

def inputs : Nat → Input
  | _ => .exchange [] 0 false

def unassigned : Bytes :=
  encodePreamble Reused.requestId ++ (encodeArray 3 ++ (encodeUnsigned 0 ++ (encodeUnsigned 6 ++ [])))

def unsigned : CreateFields where
  requestId       := Reused.requestId
  queueId         := Reused.queueId
  sender          := Reused.principal
  recipient       := Reused.principal
  maxMessages     := 0
  maxMessageBytes := 1000
  auth            := signRequest Reused.key []

def fields : CreateFields :=
  { unsigned with auth := signRequest Reused.key unsigned.authenticatedBytes }

theorem unassigned_unknownCommand : UnknownCommand unassigned :=
  ⟨_, _, _, rfl, by decide⟩

theorem fields_signedOutOfRange : SignedOutOfRange fields.encode :=
  ⟨fields, rfl, .inl rfl, by decide +kernel⟩

theorem misreported_as_malformed :
    ¬AnsweredAsSpecified (machine.state inputs 0) unassigned 0 false ∧
      ¬AnsweredAsSpecified (machine.state inputs 0) fields.encode 0 false := by
  refine ⟨fun h => ?_, fun h => ?_⟩
  · have hn := encodeRequest_ne_of_unknownCommand unassigned_unknownCommand
    have hs := Specified.unknownCommand (by decide) unassigned_unknownCommand
    cases h.eq_malformedFrame hs rfl (by decide) hn
  · have hn := encodeRequest_ne_of_outOfRange (.inl rfl : fields.OutOfRange)
    cases h.eq_malformedFrame (.limitOutOfRange fields_signedOutOfRange) (List.append_assoc ..)
      fields.encode_length_le hn

end Misreported
end Cofferwire.RelayService
