import Mathlib.Tactic.MkIffOfInductiveProp
import Cofferwire.Codec.Blob
import Cofferwire.Codec.Theorems.Frame

namespace Cofferwire.Codec.Blob

open Reader (Recognizes)

theorem registered_recognizes {tryFrom : UInt8 → Except BlobTypeError α} (code : α → UInt8)
    (h : ∀ v a, tryFrom v = .ok a ↔ v = code a) :
    Recognizes (registered tryFrom field value) fun w a =>
      w = [] ∧ value = (code a).toUInt64 := by
  have hs {a} : (u8TryFrom value).bind (tryFrom · |>.toOption) = some a ↔
      value = (code a).toUInt64 := by
    have ht {v} : (tryFrom v).toOption = some a ↔ v = code a := by
      rw [←h]
      cases tryFrom v <;> simp [Except.toOption]
    simp [Option.bind_eq_some_iff, u8TryFrom_eq_some, ht]
  unfold registered
  split
  case h_1 a ha =>
    apply (Recognizes.pure a).congr
    intro w b
    rw [←hs, ha, Option.some.injEq, eq_comm (a := b)]
  case h_2 hn =>
    apply (Recognizes.throw _).congr
    simp [←hs, hn]

theorem command_recognizes :
    Recognizes (command v) fun w c => w = [] ∧ v = c.asU8.toUInt64 :=
  registered_recognizes _ fun _ _ => BlobCommand.tryFrom_eq_ok

theorem outcome_recognizes :
    Recognizes outcome fun w o => w = encodeUnsigned o.asU8.toUInt64 := by
  unfold outcome
  refine (Decoder.unsigned_recognizes.bind fun _ =>
    registered_recognizes _ fun _ _ => BlobWriteOutcome.tryFrom_eq_ok).congr ?_
  simp

theorem decodeStatus_recognizes :
    Recognizes decodeStatus fun w s => w = encodeUnsigned s.asU8.toUInt64 := by
  unfold decodeStatus
  refine (Decoder.unsigned_recognizes.bind fun _ =>
    registered_recognizes _ fun _ _ => BlobStatus.tryFrom_eq_ok).congr ?_
  simp

theorem uploadId_recognizes : Recognizes uploadId fun w u => w = encodeId u.asBytes :=
  fixedBytes_map_recognizes fun ⟨_⟩ _ => by simp

theorem blobId_recognizes : Recognizes blobId fun w b => w = encodeId b.asBytes :=
  fixedBytes_map_recognizes fun ⟨_⟩ _ => by simp

theorem capability_recognizes : Recognizes (capability field) fun w c => w = encodeId c.asBytes :=
  fixedBytes_map_recognizes fun ⟨_⟩ _ => by simp

theorem manifest_recognizes : Recognizes manifest fun w m => w = encodeBytes m.asBytes := by
  unfold manifest
  refine ((Decoder.bytes_recognizes (by decide)).bind fun _ => .lift _).congr ?_
  intro w m
  have := m.asBytes_length_le
  simp only [Except.mapError_eq_ok, BlobManifest.parse_eq_ok]
  grind

theorem ttl_recognizes : Recognizes ttl fun w t => t ≠ 0 ∧ w = encodeUnsigned t := by
  unfold ttl
  refine (Decoder.unsigned_recognizes.bind fun t => (Recognizes.throw _).ite (.pure t)).congr ?_
  simp

theorem chunkIndex_recognizes :
    Recognizes chunkIndex fun w i => w = encodeUnsigned i.toUInt64 := by
  unfold chunkIndex
  refine (Decoder.unsigned_recognizes.bind fun v =>
    (Recognizes.pure v.toUInt32).ite (.throw _)).congr ?_
  intro w i
  have hi := i.toNat_lt
  have hv {v : UInt64} : (v ≤ 0xffffffff ∧ i = v.toUInt32) ↔ v = i.toUInt64 := by
    simp only [UInt64.le_iff_toNat_le, UInt64.reduceToNat, ←UInt32.toNat_inj, ←UInt64.toNat_inj,
      UInt64.toNat_toUInt32, UInt32.toNat_toUInt64]
    omega
  grind

theorem ciphertextChunk_recognizes :
    Recognizes ciphertextChunk fun w c => w = encodeBytes c ∧ c.length ≤ maxChunkBytes + 16 :=
  Decoder.bytes_recognizes (by decide)

theorem decodeAuth_recognizes :
    Recognizes decodeAuth fun w a => w = encodeBytes a.asBytes ∧ a.asBytes.length = 68 := by
  unfold decodeAuth
  refine ((Decoder.bytes_recognizes (by decide)).bind fun _ =>
    (Recognizes.throw _).ite validate_recognizes).congr ?_
  intro w a
  simp only [Auth.new_eq_ok]
  grind

-- What the type of a request leaves open but decoding checks.
def RequestWellFormed : BlobRequest → Prop
  | .beginUpload _ _ _ ttl | .renew _ _ ttl => ttl ≠ 0
  | .putChunk _ _ _ ciphertext              => ciphertext.length ≤ maxChunkBytes + 16
  | _                                       => True

def bodyCommand : BlobResponseBody → BlobCommand
  | .beginUpload _   => .beginUpload
  | .putChunk _      => .putChunk
  | .commit _        => .commit
  | .getManifest _ _ => .getManifest
  | .getChunk _ _    => .getChunk
  | .renew _         => .renew
  | .delete          => .delete

def BodyWellFormed : BlobResponseBody → Prop
  | .getChunk ciphertext _ => ciphertext.length ≤ maxChunkBytes + 16
  | _                      => True

-- A body comes with the status `ok` and only with it, and then belongs to the command.
@[mk_iff]
structure ResponseWellFormed (response : BlobResponse) : Prop where
  isSome_iff : response.body.isSome ↔ response.status = .ok
  command_eq : ∀ body ∈ response.body, response.command = bodyCommand body
  body       : ∀ body ∈ response.body, BodyWellFormed body

theorem decodeRequestBody_recognizes {command : BlobCommand} :
    Recognizes (decodeRequestBody command) fun w r =>
      r.command = command ∧ RequestWellFormed r ∧ w = encodeRequestBody r := by
  cases command <;> unfold decodeRequestBody
  case beginUpload =>
    refine (Decoder.array_recognizes.bind fun _ => uploadId_recognizes.bind fun _ =>
      capability_recognizes.bind fun _ => capability_recognizes.bind fun _ =>
      capability_recognizes.bind fun _ => capability_recognizes.bind fun _ =>
      manifest_recognizes.bind fun _ => ttl_recognizes.bind fun _ => .pure _).congr ?_
    rintro w (⟨_, ⟨_, _, _, _⟩, _, _⟩ | _ | _ | _ | _ | _ | _) <;>
      simp [BlobRequest.command, RequestWellFormed, encodeRequestBody]
  case putChunk =>
    refine (Decoder.array_recognizes.bind fun _ => uploadId_recognizes.bind fun _ =>
      capability_recognizes.bind fun _ => chunkIndex_recognizes.bind fun _ =>
      ciphertextChunk_recognizes.bind fun _ => .pure _).congr ?_
    rintro w (_ | _ | _ | _ | _ | _ | _) <;>
      simp [BlobRequest.command, RequestWellFormed, encodeRequestBody, and_comm]
  case commit =>
    refine (Decoder.array_recognizes.bind fun _ => uploadId_recognizes.bind fun _ =>
      capability_recognizes.bind fun _ => blobId_recognizes.bind fun _ => .pure _).congr ?_
    rintro w (_ | _ | _ | _ | _ | _ | _) <;>
      simp [BlobRequest.command, RequestWellFormed, encodeRequestBody]
  case getChunk =>
    refine (Decoder.array_recognizes.bind fun _ => blobId_recognizes.bind fun _ =>
      capability_recognizes.bind fun _ => chunkIndex_recognizes.bind fun _ => .pure _).congr ?_
    rintro w (_ | _ | _ | _ | _ | _ | _) <;>
      simp [BlobRequest.command, RequestWellFormed, encodeRequestBody]
  case renew =>
    refine (Decoder.array_recognizes.bind fun _ => blobId_recognizes.bind fun _ =>
      capability_recognizes.bind fun _ => ttl_recognizes.bind fun _ => .pure _).congr ?_
    rintro w (_ | _ | _ | _ | _ | _ | _) <;>
      simp [BlobRequest.command, RequestWellFormed, encodeRequestBody]
  case getManifest | delete =>
    refine (Decoder.array_recognizes.bind fun _ => blobId_recognizes.bind fun _ =>
      capability_recognizes.bind fun _ => .pure _).congr ?_
    rintro w (_ | _ | _ | _ | _ | _ | _) <;>
      simp [BlobRequest.command, RequestWellFormed, encodeRequestBody]

theorem decodeResponseBody_recognizes {command : BlobCommand} :
    Recognizes (decodeResponseBody command) fun w b =>
      bodyCommand b = command ∧ BodyWellFormed b ∧ w = encodeResponseBody b := by
  cases command <;> unfold decodeResponseBody
  case beginUpload | putChunk =>
    refine (Decoder.array_recognizes.bind fun _ => outcome_recognizes.bind fun _ => .pure _).congr ?_
    rintro w (_ | _ | _ | _ | _ | _ | _) <;> simp [bodyCommand, BodyWellFormed, encodeResponseBody]
  case commit | renew =>
    refine (Decoder.array_recognizes.bind fun _ =>
      Decoder.unsigned_recognizes.bind fun _ => .pure _).congr ?_
    rintro w (_ | _ | _ | _ | _ | _ | _) <;> simp [bodyCommand, BodyWellFormed, encodeResponseBody]
  case getManifest =>
    refine (Decoder.array_recognizes.bind fun _ => manifest_recognizes.bind fun _ =>
      Decoder.unsigned_recognizes.bind fun _ => .pure _).congr ?_
    rintro w (_ | _ | _ | _ | _ | _ | _) <;> simp [bodyCommand, BodyWellFormed, encodeResponseBody]
  case getChunk =>
    refine (Decoder.array_recognizes.bind fun _ => ciphertextChunk_recognizes.bind fun _ =>
      Decoder.unsigned_recognizes.bind fun _ => .pure _).congr ?_
    rintro w (_ | _ | _ | _ | _ | _ | _) <;>
      simp [bodyCommand, BodyWellFormed, encodeResponseBody, and_comm]
  case delete =>
    refine (Decoder.array_recognizes.bind fun _ => .pure _).congr ?_
    rintro w (_ | _ | _ | _ | _ | _ | _) <;> simp [bodyCommand, BodyWellFormed, encodeResponseBody]

theorem decodeRequestPayload_recognizes :
    Recognizes decodeRequestPayload fun w r =>
      RequestWellFormed r ∧ w = encodeArray 3 ++ encodeUnsigned 0 ++
        encodeUnsigned r.command.asU8.toUInt64 ++ encodeRequestBody r := by
  unfold decodeRequestPayload
  refine (Decoder.array_recognizes.bind fun _ => expectValue_recognizes.bind fun _ =>
    Decoder.unsigned_recognizes.bind fun _ => command_recognizes.bind fun _ =>
    decodeRequestBody_recognizes).congr ?_
  simp

-- No command has the code 0.
theorem optionalCommand_recognizes :
    Recognizes (optionalCommand code) fun w command =>
      w = [] ∧ code = command.elim 0 (·.asU8.toUInt64) := by
  unfold optionalCommand
  refine ((Recognizes.pure none).ite (command_recognizes.bind fun _ => .pure _)).congr ?_
  rintro w (_ | c)
  · simp [and_comm]
  · have := c.asU8_ne_zero
    grind

-- The part of a response frame behind the preamble.
def encodeResponsePayload (response : BlobResponse) : Bytes :=
  encodeArray 4 ++
  encodeUnsigned 1 ++
  encodeUnsigned (response.command.elim 0 (·.asU8.toUInt64)) ++
  encodeUnsigned response.status.asU8.toUInt64 ++
  (response.body.elim (encodeArray 0) encodeResponseBody)

theorem encodeBlobResponse_eq (h : ResponseWellFormed frame.response) :
    encodeBlobResponse frame = encodePreamble frame.requestId ++ encodeResponsePayload frame.response
    := by
  have ho := h.isSome_iff
  unfold encodeBlobResponse encodeResponsePayload
  split
  case h_1 body hb =>
    have : frame.response.status.isOk := by
      rw [BlobStatus.isOk_iff, ←ho, hb]
      rfl
    simp [hb, this]
  case h_2 hb => simp [hb]

theorem decodeOptionalBody_recognizes {command : Option BlobCommand} :
    Recognizes (decodeOptionalBody command status) fun w body =>
      ResponseWellFormed ⟨command, status, body⟩ ∧
        w = body.elim (encodeArray 0) encodeResponseBody := by
  simp only [responseWellFormed_iff]
  unfold decodeOptionalBody
  split
  case isTrue h =>
    rw [BlobStatus.isOk_iff] at h
    split
    case h_1 c =>
      refine (decodeResponseBody_recognizes.bind fun _ => .pure _).congr ?_
      rintro w (_ | b) <;> simp [h]
      grind
    case h_2 =>
      apply (Recognizes.throw _).congr
      rintro w (_ | b) <;> simp [h]
  case isFalse h =>
    rw [BlobStatus.isOk_iff] at h
    refine (Decoder.array_recognizes.bind fun _ => .pure _).congr ?_
    rintro w (_ | b) <;> simp [h]

theorem decodeResponsePayload_recognizes :
    Recognizes decodeResponsePayload fun w r =>
      ResponseWellFormed r ∧ w = encodeResponsePayload r := by
  unfold decodeResponsePayload
  refine (Decoder.array_recognizes.bind fun _ => expectValue_recognizes.bind fun _ =>
    Decoder.unsigned_recognizes.bind fun _ => optionalCommand_recognizes.bind fun _ =>
    decodeStatus_recognizes.bind fun _ => decodeOptionalBody_recognizes.bind fun _ =>
    .pure _).congr ?_
  rintro w ⟨_, _, _⟩
  simp [encodeResponsePayload]

-- The largest manifest has 1048616 bytes. Compared to it, everything else in a frame is small.
theorem encodeRequestBody_length_le (h : RequestWellFormed request) :
    (encodeRequestBody request).length ≤ 1048813 := by
  cases request <;> simp only [encodeRequestBody, List.length_append, encodeId_length]
  case beginUpload manifest ttl =>
    have ha := encodeArray_length_le (v := 7)
    have hm := encodeBytes_length_le_add manifest.asBytes
    have hl := manifest.asBytes_length_le
    have ht := encodeUnsigned_length_le (v := ttl)
    omega
  case putChunk index ciphertext =>
    have ha := encodeArray_length_le (v := 4)
    have hi := encodeUnsigned_length_le (v := index.toUInt64)
    have hc := encodeBytes_length_le_add ciphertext
    simp only [RequestWellFormed, maxChunkBytes] at h
    omega
  case commit =>
    have ha := encodeArray_length_le (v := 3)
    omega
  case getManifest | delete =>
    have ha := encodeArray_length_le (v := 2)
    omega
  case getChunk index =>
    have ha := encodeArray_length_le (v := 3)
    have hi := encodeUnsigned_length_le (v := index.toUInt64)
    omega
  case renew ttl =>
    have ha := encodeArray_length_le (v := 3)
    have ht := encodeUnsigned_length_le (v := ttl)
    omega

theorem encodeResponseBody_length_le (h : BodyWellFormed body) :
    (encodeResponseBody body).length ≤ 1048643 := by
  cases body <;> simp only [encodeResponseBody, List.length_append]
  case getManifest manifest expiry =>
    have ha := encodeArray_length_le (v := 2)
    have hm := encodeBytes_length_le_add manifest.asBytes
    have hl := manifest.asBytes_length_le
    have he := encodeUnsigned_length_le (v := expiry)
    omega
  case getChunk ciphertext expiry =>
    have ha := encodeArray_length_le (v := 2)
    have hc := encodeBytes_length_le_add ciphertext
    have he := encodeUnsigned_length_le (v := expiry)
    simp only [BodyWellFormed, maxChunkBytes] at h
    omega
  case beginUpload outcome | putChunk outcome =>
    have ha := encodeArray_length_le (v := 1)
    have ho := encodeUnsigned_length_le (v := outcome.asU8.toUInt64)
    omega
  case commit expiry | renew expiry =>
    have ha := encodeArray_length_le (v := 1)
    have he := encodeUnsigned_length_le (v := expiry)
    omega
  case delete =>
    have ha := encodeArray_length_le (v := 0)
    omega

theorem encodeBlobRequest_length_le (h : RequestWellFormed frame.request)
    (ha : frame.auth.asBytes.length = 68) : (encodeBlobRequest frame).length ≤ maxBlobFrameBytes := by
  have hb := encodeRequestBody_length_le h
  have hl := encodeBytes_length_le_add frame.auth.asBytes
  have hc := encodeUnsigned_length_le (v := frame.request.command.asU8.toUInt64)
  have h3 : (encodeArray 3).length = 1 := rfl
  have h0 : (encodeUnsigned 0).length = 1 := rfl
  simp only [encodeBlobRequest, encodeBlobAuthenticatedRequest, List.length_append,
    encodePreamble_length, h3, h0, preambleBytes, maxBlobFrameBytes]
  omega

theorem decodeBlobRequest_eq_ok {d : DecodedBlobRequest} :
    decodeBlobRequest bytes = .ok d ↔
      (RequestWellFormed d.frame.request ∧ d.frame.auth.asBytes.length = 68) ∧
      bytes = encodeBlobRequest d.frame ∧
      d.authenticatedBytes = encodeBlobAuthenticatedRequest d.frame.requestId d.frame.request := by
  refine (decode_signed_eq_ok decodeRequestPayload_recognizes decodeAuth_recognizes
    fun requestId request auth => DecodedBlobRequest.mk ⟨requestId, request, auth⟩).trans ?_
  constructor
  case mp =>
    rintro ⟨requestId, _, request, _, auth, ⟨hr, rfl⟩, ⟨rfl, ha⟩, rfl, _, rfl⟩
    simp [encodeBlobRequest, encodeBlobAuthenticatedRequest, hr, ha]
  case mpr =>
    obtain ⟨⟨requestId, request, auth⟩, authenticatedBytes⟩ := d
    rintro ⟨⟨hr, ha⟩, rfl, hb⟩
    refine ⟨requestId, _, request, _, auth, ⟨hr, rfl⟩, ⟨rfl, ha⟩, ?_, ?_, ?_⟩
    · simp [encodeBlobRequest, encodeBlobAuthenticatedRequest]
    · exact encodeBlobRequest_length_le hr ha
    · simpa [encodeBlobAuthenticatedRequest] using hb

-- The length of the last byte string need not be bounded.
theorem encodeBytes_inj (h : encodeBytes bytes = encodeBytes bytes') : bytes = bytes' :=
  ((@Decoder.argument_recognizes _ "" (by decide)).append_inj rfl rfl h).right.right

theorem encodeRequestBody_inj {r r' : BlobRequest} (hc : r.command = r'.command)
    (h : encodeRequestBody r = encodeRequestBody r') : r = r' := by
  cases r <;> cases r' <;> cases hc <;>
    simp only [encodeRequestBody, List.append_assoc, List.append_cancel_left_eq] at h
  case beginUpload.beginUpload caps _ _ _ caps' _ _ =>
    obtain ⟨_, _, _, _⟩ := caps
    obtain ⟨_, _, _, _⟩ := caps'
    obtain ⟨rfl, _, h⟩ := uploadId_recognizes.append_inj rfl rfl h
    obtain ⟨rfl, _, h⟩ := (@capability_recognizes "").append_inj rfl rfl h
    obtain ⟨rfl, _, h⟩ := (@capability_recognizes "").append_inj rfl rfl h
    obtain ⟨rfl, _, h⟩ := (@capability_recognizes "").append_inj rfl rfl h
    obtain ⟨rfl, _, h⟩ := (@capability_recognizes "").append_inj rfl rfl h
    obtain ⟨rfl, _, h⟩ := manifest_recognizes.append_inj rfl rfl h
    cases (@Decoder.unsigned_recognizes "").unique rfl h
    rfl
  case putChunk.putChunk =>
    obtain ⟨rfl, _, h⟩ := uploadId_recognizes.append_inj rfl rfl h
    obtain ⟨rfl, _, h⟩ := (@capability_recognizes "").append_inj rfl rfl h
    obtain ⟨rfl, _, h⟩ := chunkIndex_recognizes.append_inj rfl rfl h
    cases encodeBytes_inj h
    rfl
  case commit.commit =>
    obtain ⟨rfl, _, h⟩ := uploadId_recognizes.append_inj rfl rfl h
    obtain ⟨rfl, _, h⟩ := (@capability_recognizes "").append_inj rfl rfl h
    cases blobId_recognizes.unique rfl h
    rfl
  case getChunk.getChunk =>
    obtain ⟨rfl, _, h⟩ := blobId_recognizes.append_inj rfl rfl h
    obtain ⟨rfl, _, h⟩ := (@capability_recognizes "").append_inj rfl rfl h
    cases chunkIndex_recognizes.unique rfl h
    rfl
  case renew.renew =>
    obtain ⟨rfl, _, h⟩ := blobId_recognizes.append_inj rfl rfl h
    obtain ⟨rfl, _, h⟩ := (@capability_recognizes "").append_inj rfl rfl h
    cases (@Decoder.unsigned_recognizes "").unique rfl h
    rfl
  case getManifest.getManifest | delete.delete =>
    obtain ⟨rfl, _, h⟩ := blobId_recognizes.append_inj rfl rfl h
    cases (@capability_recognizes "").unique rfl h
    rfl

-- The authenticated bytes determine the request, even if it cannot be decoded.
theorem encodeBlobAuthenticatedRequest_inj {requestId requestId' : RequestId} {r r' : BlobRequest}
    (h : encodeBlobAuthenticatedRequest requestId r = encodeBlobAuthenticatedRequest requestId' r') :
    requestId = requestId' ∧ r = r' := by
  simp only [encodeBlobAuthenticatedRequest, List.append_assoc] at h
  obtain ⟨hp, hb⟩ := List.append_inj h (by rw [encodePreamble_length, encodePreamble_length])
  simp only [List.append_cancel_left_eq] at hb
  obtain ⟨hc, _, hb⟩ := (@Decoder.unsigned_recognizes "").append_inj rfl rfl hb
  have hc : r.command = r'.command := by
    have hu := UInt8.toUInt64_inj.mp hc
    exact Except.ok.inj ((BlobCommand.tryFrom_eq_ok.mpr rfl).symm.trans (BlobCommand.tryFrom_eq_ok.mpr hu))
  obtain ⟨⟨_⟩⟩ := requestId
  obtain ⟨⟨_⟩⟩ := requestId'
  cases hp
  exact ⟨rfl, encodeRequestBody_inj hc hb⟩

-- A signature covers all of a request.
theorem request_eq_of_authenticatedBytes_eq {d d' : DecodedBlobRequest}
    (h : decodeBlobRequest bytes = .ok d) (h' : decodeBlobRequest bytes' = .ok d')
    (ha : d.authenticatedBytes = d'.authenticatedBytes) : d.frame.request = d'.frame.request := by
  rw [(decodeBlobRequest_eq_ok.mp h).right.right, (decodeBlobRequest_eq_ok.mp h').right.right] at ha
  exact (encodeBlobAuthenticatedRequest_inj ha).right

theorem requestId_eq_of_authenticatedBytes_eq {d d' : DecodedBlobRequest}
    (h : decodeBlobRequest bytes = .ok d) (h' : decodeBlobRequest bytes' = .ok d')
    (ha : d.authenticatedBytes = d'.authenticatedBytes) : d.frame.requestId = d'.frame.requestId := by
  rw [(decodeBlobRequest_eq_ok.mp h).right.right, (decodeBlobRequest_eq_ok.mp h').right.right] at ha
  exact (encodeBlobAuthenticatedRequest_inj ha).left

theorem encodeBlobResponse_length_le (h : ResponseWellFormed frame.response) :
    (encodeBlobResponse frame).length ≤ maxBlobFrameBytes := by
  have ha := encodeArray_length_le (v := 4)
  have h1 := encodeUnsigned_length_le (v := 1)
  have hc := encodeUnsigned_length_le (v := frame.response.command.elim 0 (·.asU8.toUInt64))
  have hs := encodeUnsigned_length_le (v := frame.response.status.asU8.toUInt64)
  have hb := h.body
  rw [encodeBlobResponse_eq h]
  simp only [encodeResponsePayload, List.length_append, encodePreamble_length, preambleBytes,
    maxBlobFrameBytes]
  cases he : frame.response.body
  case none =>
    have h0 := encodeArray_length_le (v := 0)
    simp only [Option.elim_none]
    omega
  case some body =>
    have hl := encodeResponseBody_length_le (hb body he)
    simp only [Option.elim_some]
    omega

theorem decodeBlobResponse_eq_ok {frame : BlobResponseFrame} :
    decodeBlobResponse bytes = .ok frame ↔
      ResponseWellFormed frame.response ∧ bytes = encodeBlobResponse frame := by
  refine (decode_plain_eq_ok decodeResponsePayload_recognizes BlobResponseFrame.mk).trans ?_
  constructor
  case mp =>
    rintro ⟨requestId, _, response, ⟨hw, rfl⟩, rfl, _, rfl⟩
    exact ⟨hw, (encodeBlobResponse_eq hw : encodeBlobResponse ⟨_, _⟩ = _).symm⟩
  case mpr =>
    rintro ⟨hw, rfl⟩
    exact ⟨frame.requestId, _, frame.response, ⟨hw, rfl⟩, encodeBlobResponse_eq hw,
      encodeBlobResponse_length_le hw, rfl⟩

-- Encoding and decoding are inverse to each other between the accepted bytes and the requests and
-- responses which are well-formed.
theorem blob_frame_bijection :
    (∀ frame : BlobRequestFrame,
      RequestWellFormed frame.request → frame.auth.asBytes.length = 68 →
      decodeBlobRequest (encodeBlobRequest frame) =
        .ok ⟨frame, encodeBlobAuthenticatedRequest frame.requestId frame.request⟩ ∧
      (encodeBlobRequest frame).length ≤ maxBlobFrameBytes) ∧
    (∀ bytes d, decodeBlobRequest bytes = .ok d → encodeBlobRequest d.frame = bytes) ∧
    (∀ frame : BlobResponseFrame, ResponseWellFormed frame.response →
      decodeBlobResponse (encodeBlobResponse frame) = .ok frame) ∧
    (∀ bytes frame, decodeBlobResponse bytes = .ok frame → encodeBlobResponse frame = bytes) := by
  refine ⟨fun frame hr ha => ⟨?_, encodeBlobRequest_length_le hr ha⟩, ?_, ?_, ?_⟩
  · exact decodeBlobRequest_eq_ok.mpr ⟨⟨hr, ha⟩, rfl, rfl⟩
  · exact fun _ _ h => decodeBlobRequest_eq_ok.mp h |>.right.left.symm
  · exact fun _ h => decodeBlobResponse_eq_ok.mpr ⟨h, rfl⟩
  · exact fun _ _ h => decodeBlobResponse_eq_ok.mp h |>.right.symm

-- The contents of a manifest with the largest number of chunks.
def largestRaw : BlobManifest.Raw where
  bytes      := []
  objectSalt := .replicate 16 0
  paddedSize := 1073741824
  chunkSize  := 32768
  digests    := .replicate 32768 (.replicate 32 0)

theorem largestRaw_valid : largestRaw.Valid where
  count_le := by simp only [largestRaw, List.length_replicate, maxChunks, Nat.le_refl]
  limits   := by
    simp only [largestRaw, List.length_replicate]
    decide

def largestFrame : BlobRequestFrame where
  requestId := ⟨.replicate 16 0⟩
  request   :=
    let id := ⟨.replicate 32 0⟩
    .beginUpload ⟨.replicate 32 0⟩ ⟨id, id, id, id⟩ (.ofRaw largestRaw largestRaw_valid) 0xffffffffffffffff
  auth      := ⟨.replicate 68 0, by decide⟩

-- Also the upload of a blob with the largest number of chunks can be requested.
theorem largestFrame_roundtrip :
    decodeBlobRequest (encodeBlobRequest largestFrame) = .ok ⟨largestFrame,
      encodeBlobAuthenticatedRequest largestFrame.requestId largestFrame.request⟩ ∧
    (encodeBlobRequest largestFrame).length ≤ maxBlobFrameBytes :=
  blob_frame_bijection.left largestFrame (by simp [largestFrame, RequestWellFormed]) (by decide)

end Cofferwire.Codec.Blob
