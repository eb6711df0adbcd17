import Cofferwire.Codec.Blob
import Cofferwire.Codec.Theorems.Queue

namespace Cofferwire.Codec

open Reader (Raises Recognizes)

-- The errors which are neither about the size nor about the version of a frame.
def DecodeError.Malformed : DecodeError → Prop
  | frameTooLarge _ | unsupportedVersion _ _ => False
  | _                                        => True

namespace Decoder

theorem byte_raises : Raises byte DecodeError.Malformed :=
  .item fun _ => trivial

theorem wide_raises : Raises (wide start width minimum) DecodeError.Malformed :=
  (Raises.items (fun _ => trivial) _).bind fun _ => (Raises.throw trivial).ite (.pure _)

theorem argument_raises : Raises (argument major expected) DecodeError.Malformed :=
  .get_bind fun _ => byte_raises.bind fun _ =>
    (Raises.throw trivial).ite <| (Raises.pure _).ite <| wide_raises.ite <| wide_raises.ite <|
    wide_raises.ite <| wide_raises.ite <| .throw trivial

theorem unsigned_raises : Raises (unsigned field) DecodeError.Malformed :=
  argument_raises

theorem array_raises : Raises (array field n) DecodeError.Malformed :=
  argument_raises.bind fun _ => (Raises.throw trivial).ite (.pure ())

theorem bytes_raises {max : Nat} : Raises (bytes field max) DecodeError.Malformed :=
  argument_raises.bind fun _ =>
    (Raises.throw trivial).ite (.take (fun _ => trivial) _)

end Decoder

theorem validate_raises {x : Except TypeError α} : Raises (validate x) DecodeError.Malformed := by
  refine .lift fun e he => ?_
  cases x <;> cases he
  trivial

theorem expectValue_raises : Raises (expectValue field n) DecodeError.Malformed :=
  Decoder.unsigned_raises.bind fun _ => (Raises.pure ()).ite (.throw trivial)

theorem fixedBytes_raises : Raises (fixedBytes n field) DecodeError.Malformed := by
  refine Decoder.bytes_raises.bind fun _ => ?_
  split
  case isTrue  => exact .pure _
  case isFalse => exact .throw trivial

theorem decodeCommand_raises : Raises decodeCommand DecodeError.Malformed := by
  refine Decoder.unsigned_raises.bind fun _ => ?_
  unfold commandFromU64
  split
  case h_1 => exact validate_raises
  case h_2 => exact .throw trivial

theorem queueId_raises : Raises queueId DecodeError.Malformed :=
  fixedBytes_raises.bind fun _ => .pure _

theorem principal_raises : Raises principal DecodeError.Malformed :=
  fixedBytes_raises.bind fun _ => .pure _

theorem messageId_raises : Raises messageId DecodeError.Malformed :=
  fixedBytes_raises.bind fun _ => .pure _

theorem payload_raises : Raises payload DecodeError.Malformed :=
  Decoder.bytes_raises.bind fun _ => validate_raises

theorem decodeRequestBody_raises : Raises (decodeRequestBody command) DecodeError.Malformed := by
  cases command
  case createQueue =>
    exact Decoder.array_raises.bind fun _ => queueId_raises.bind fun _ =>
      principal_raises.bind fun _ => principal_raises.bind fun _ =>
      Decoder.unsigned_raises.bind fun _ => Decoder.unsigned_raises.bind fun _ =>
      validate_raises.bind fun _ => .pure _
  case send =>
    exact Decoder.array_raises.bind fun _ => queueId_raises.bind fun _ =>
      principal_raises.bind fun _ => messageId_raises.bind fun _ => payload_raises.bind fun _ =>
      Decoder.unsigned_raises.bind fun _ => .pure _
  case ack =>
    exact Decoder.array_raises.bind fun _ => queueId_raises.bind fun _ =>
      principal_raises.bind fun _ => messageId_raises.bind fun _ => .pure _
  all_goals
    exact Decoder.array_raises.bind fun _ => queueId_raises.bind fun _ =>
      principal_raises.bind fun _ => .pure _

theorem decodeRequestPayload_raises : Raises decodeRequestPayload DecodeError.Malformed :=
  Decoder.array_raises.bind fun _ => expectValue_raises.bind fun _ =>
    decodeCommand_raises.bind fun _ => decodeRequestBody_raises

theorem decodeAuth_raises : Raises decodeAuth DecodeError.Malformed :=
  Decoder.bytes_raises.bind fun _ => validate_raises

namespace Blob

theorem registered_raises {tryFrom : UInt8 → Except BlobTypeError α} :
    Raises (registered tryFrom field value) DecodeError.Malformed := by
  unfold registered
  split
  case h_1 => exact .pure _
  case h_2 => exact .throw trivial

theorem uploadId_raises : Raises uploadId DecodeError.Malformed :=
  fixedBytes_raises.bind fun _ => .pure _

theorem blobId_raises : Raises blobId DecodeError.Malformed :=
  fixedBytes_raises.bind fun _ => .pure _

theorem capability_raises : Raises (capability field) DecodeError.Malformed :=
  fixedBytes_raises.bind fun _ => .pure _

theorem manifest_raises : Raises manifest DecodeError.Malformed := by
  refine Decoder.bytes_raises.bind fun bytes => .lift fun e he => ?_
  cases hp : BlobManifest.parse bytes
  all_goals
    rw [hp] at he
    cases he
  trivial

theorem ttl_raises : Raises ttl DecodeError.Malformed :=
  Decoder.unsigned_raises.bind fun _ => (Raises.throw trivial).ite (.pure _)

theorem chunkIndex_raises : Raises chunkIndex DecodeError.Malformed :=
  Decoder.unsigned_raises.bind fun _ => (Raises.pure _).ite (.throw trivial)

theorem decodeRequestBody_raises {command : BlobCommand} :
    Raises (decodeRequestBody command) DecodeError.Malformed := by
  cases command
  case beginUpload =>
    exact Decoder.array_raises.bind fun _ => uploadId_raises.bind fun _ =>
      capability_raises.bind fun _ => capability_raises.bind fun _ => capability_raises.bind fun _ =>
      capability_raises.bind fun _ => manifest_raises.bind fun _ => ttl_raises.bind fun _ => .pure _
  case putChunk =>
    exact Decoder.array_raises.bind fun _ => uploadId_raises.bind fun _ =>
      capability_raises.bind fun _ => chunkIndex_raises.bind fun _ =>
      Decoder.bytes_raises.bind fun _ => .pure _
  case commit =>
    exact Decoder.array_raises.bind fun _ => uploadId_raises.bind fun _ =>
      capability_raises.bind fun _ => blobId_raises.bind fun _ => .pure _
  case getChunk =>
    exact Decoder.array_raises.bind fun _ => blobId_raises.bind fun _ =>
      capability_raises.bind fun _ => chunkIndex_raises.bind fun _ => .pure _
  case renew =>
    exact Decoder.array_raises.bind fun _ => blobId_raises.bind fun _ =>
      capability_raises.bind fun _ => ttl_raises.bind fun _ => .pure _
  all_goals
    exact Decoder.array_raises.bind fun _ => blobId_raises.bind fun _ =>
      capability_raises.bind fun _ => .pure _

theorem decodeRequestPayload_raises : Raises decodeRequestPayload DecodeError.Malformed :=
  Decoder.array_raises.bind fun _ => expectValue_raises.bind fun _ =>
    Decoder.unsigned_raises.bind fun _ => registered_raises.bind fun _ => decodeRequestBody_raises

theorem decodeAuth_raises : Raises decodeAuth DecodeError.Malformed :=
  Decoder.bytes_raises.bind fun _ => (Raises.throw trivial).ite validate_raises

end Blob

section Signed

variable {r : Decode α} {r' : Decode β}

-- Only the preamble of a frame tells its size and its version.
theorem of_decode_signed_eq_error (h : Raises r DecodeError.Malformed)
    (h' : Raises r' DecodeError.Malformed) (make : RequestId → α → β → Bytes → γ)
    (hd : (do
      let requestId ← decodePreambleWithin maxBytes bytes
      let (a, decoder) ← r.run ⟨bytes, preambleBytes⟩
      let authenticatedEnd := decoder.offset
      let (b, decoder) ← r'.run decoder
      finish decoder bytes
      return make requestId a b (bytes.take authenticatedEnd)) = Except.error e) :
    decodePreambleWithin maxBytes bytes = .error e ∨ e.Malformed := by
  simp only [Except.bind_eq_error] at hd
  obtain hd | ⟨_, _, hd | ⟨_, _, hd | ⟨_, _, hd | ⟨_, _, hd⟩⟩⟩⟩ := hd
  · exact .inl hd
  · exact .inr (h.run_eq_error _ _ hd)
  · exact .inr (h'.run_eq_error _ _ hd)
  · unfold finish at hd
    split at hd <;> cases hd
    exact .inr trivial
  · cases hd

theorem decodePreambleWithin_unsupportedVersion
    (h : decodePreambleWithin maxBytes bytes = .error (.unsupportedVersion received requestId)) :
    preambleBytes ≤ bytes.length ∧ requestId.asBytes.toBytes = (bytes.drop 1).take 16 := by
  unfold decodePreambleWithin at h
  split at h
  case isTrue => cases h
  case isFalse =>
    split at h
    case isTrue => cases h
    case isFalse hl =>
      dsimp only at h
      split at h
      case isTrue => cases h
      case isFalse =>
        split at h <;> cases h
        exact ⟨Nat.not_lt.mp hl, rfl⟩

end Signed

theorem decodeRequest_error (h : decodeRequest bytes = .error e) :
    decodePreambleWithin maxFrameBytes bytes = .error e ∨ e.Malformed :=
  of_decode_signed_eq_error decodeRequestPayload_raises decodeAuth_raises
    (fun requestId request auth => DecodedRequest.mk ⟨requestId, request, auth⟩) h

theorem decodeBlobRequest_error (h : Blob.decodeBlobRequest bytes = .error e) :
    decodePreambleWithin maxBlobFrameBytes bytes = .error e ∨ e.Malformed :=
  of_decode_signed_eq_error Blob.decodeRequestPayload_raises Blob.decodeAuth_raises
    (fun requestId request auth => Blob.DecodedBlobRequest.mk ⟨requestId, request, auth⟩) h

-- What becomes of a frame whose preamble is complete.
inductive Classified (bytes : Bytes) : Except DecodeError DecodedRequest → Prop
  | frameTooLarge (h : maxFrameBytes < bytes.length) :
    Classified bytes (.error (.frameTooLarge bytes.length))
  | unsupportedVersion (h : bytes.length ≤ maxFrameBytes) (hv : bytes.head? = some received)
    (h₀ : received ≠ 0) (h₁ : received ≠ version)
    (hr : requestId.asBytes.toBytes = (bytes.drop 1).take 16) :
    Classified bytes (.error (.unsupportedVersion received requestId))
  | malformed (h : bytes.length ≤ maxFrameBytes)
    (hv : bytes.head? = some 0 ∨ bytes.head? = some version) (he : error.Malformed) :
    Classified bytes (.error error)
  | ok : Classified bytes (.ok decoded)

theorem decodePreamble_classified (hl : preambleBytes ≤ bytes.length) :
    (∃ requestId, decodePreamble bytes = .ok requestId ∧ bytes.length ≤ maxFrameBytes ∧
      bytes.head? = some version) ∨
    ∃ error, decodePreamble bytes = .error error ∧ Classified bytes (.error error) := by
  unfold decodePreamble decodePreambleWithin
  split
  case isTrue h => exact .inr ⟨_, rfl, .frameTooLarge h⟩
  case isFalse h =>
    have h : bytes.length ≤ maxFrameBytes := Nat.not_lt.mp h
    rw [dif_neg (Nat.not_lt.mpr hl)]
    obtain ⟨b, rest, rfl⟩ : ∃ b rest, bytes = b :: rest := by
      cases bytes
      case nil  => cases hl
      case cons => exact ⟨_, _, rfl⟩
    simp only [List.getElem_cons_zero]
    split
    case isTrue h₀ => exact .inr ⟨_, rfl, .malformed h (.inl (congrArg some h₀)) trivial⟩
    case isFalse h₀ =>
      split
      case isTrue h₁  => exact .inr ⟨_, rfl, .unsupportedVersion h rfl h₀ h₁ rfl⟩
      case isFalse h₁ => exact .inl ⟨_, rfl, h, congrArg some (Decidable.not_not.mp h₁)⟩

theorem decodeRequest_classified (hl : preambleBytes ≤ bytes.length) :
    Classified bytes (decodeRequest bytes) := by
  obtain ⟨requestId, hp, h, hv⟩ | ⟨error, hp, hc⟩ := decodePreamble_classified hl
  case inr =>
    have hd : decodeRequest bytes = .error error := Except.bind_eq_error.mpr (.inl hp)
    exact hd ▸ hc
  case inl =>
    cases hd : decodeRequest bytes
    case ok => exact .ok
    case error error =>
      refine .malformed h (.inr hv) ?_
      obtain hd | he := decodeRequest_error hd
      · cases hp.symm.trans hd
      · exact he

end Cofferwire.Codec
