import Cofferwire.Codec.Theorems.Blob
import Cofferwire.Codec.Theorems.Queue
import Cofferwire.Strict.Codec

namespace Cofferwire.Strict

open Codec (DecodeError preambleBytes)

-- Slices have less than 2 ^ 63 bytes.
def bound : Nat := 2 ^ 63

abbrev Agrees (r : Decode α) (p : Codec.Decode α) : Prop :=
  CheckedReader.Agrees bound r p

theorem add_eq_some (h : a + b < 2 ^ 64) : add a b = some (a + b) :=
  if_pos h

theorem mul_eq_some (h : a * b < 2 ^ 64) : mul a b = some (a * b) :=
  if_pos h

theorem index_eq_some {bytes : Bytes} (h : i < bytes.length) : index bytes i = some bytes[i] :=
  List.getElem?_eq_getElem h

theorem range_eq_some {bytes : Bytes} (hi : i ≤ j) (hj : j ≤ bytes.length) :
    range bytes i j = some (slice bytes i j) :=
  if_pos ⟨hi, hj⟩

theorem copyFromSlice_eq_some (h : bs.length = n) : copyFromSlice n bs = some ⟨bs, h⟩ :=
  ByteVec.tryFrom_eq_some.mpr rfl

section Decoder

namespace Decoder

theorem byte_agrees : Agrees byte Codec.Decoder.byte := by
  refine .of_run_eq (.item _) fun c hc => ?_
  simp only [byte, StateT.run_bind, StateT.run_get, pure_bind]
  cases hb : c.bytes[c.offset]?
  case none =>
    have hp : Codec.Decoder.byte.run c = .error (.truncated c.offset) := by
      simp only [Codec.Decoder.byte, StateT.run, Reader.item, hb]
    rw [hp]
    exact .throw _
  case some b =>
    have hp : Codec.Decoder.byte.run c = .ok (b, c.advance 1) := by
      simp only [Codec.Decoder.byte, StateT.run, Reader.item, hb]
    have ha : add c.offset 1 = some (c.offset + 1) := by
      have hl : c.offset < c.bytes.length := (List.getElem?_eq_some_iff.mp hb).choose
      have hm := hc.bounded
      rw [bound] at hm
      exact add_eq_some (by omega)
    rw [hp, ha]
    exact .pure _

theorem byteArray_agrees (n : Nat) : Agrees (byteArray n) (Reader.items n .truncated) := by
  induction n
  case zero      => exact .pure []
  case succ n hi => exact byte_agrees.bind fun _ => hi.bind fun _ => .pure _

theorem wide_agrees : Agrees (wide start width minimum) (Codec.Decoder.wide start width minimum) :=
  (byteArray_agrees width).bind fun _ => .ite (.throw _) (.pure _)

theorem argument_agrees :
    Agrees (argument major expected) (Codec.Decoder.argument major expected) := by
  refine .get_bind fun c => byte_agrees.bind fun initial => .ite (.throw _) ?_
  exact .ite (.pure _) <| .ite wide_agrees <| .ite wide_agrees <| .ite wide_agrees <|
    .ite wide_agrees (.throw _)

theorem unsigned_agrees : Agrees (unsigned field) (Codec.Decoder.unsigned field) :=
  argument_agrees

theorem array_agrees : Agrees (array field expected) (Codec.Decoder.array field expected) :=
  argument_agrees.bind fun _ => .ite (.throw _) (.pure _)

-- A length within the limit cannot overflow the offset.
theorem bytes_agrees {max : Nat} (hm : max < bound) :
    Agrees (bytes field max) (Codec.Decoder.bytes field max) := by
  refine argument_agrees.bind fun length => ?_
  by_cases hl : length.toNat > max
  case pos =>
    simp only [if_pos hl]
    exact .throw _
  case neg =>
    simp only [if_neg hl]
    refine .of_run_eq (.take _ _) fun c hc => ?_
    have ha : add c.offset length.toNat = some (c.offset + length.toNat) := by
      have hv := hc.valid
      have hb := hc.bounded
      rw [Cursor.Valid] at hv
      rw [bound] at hb hm
      exact add_eq_some (by omega)
    have hp : (Reader.take length.toNat DecodeError.truncated).run c =
        if c.offset + length.toNat ≤ c.bytes.length then
          .ok (c.rest.take length.toNat, c.advance length.toNat)
        else
          .error (.truncated c.offset) := rfl
    simp only [hp, StateT.run_bind, StateT.run_get, pure_bind, ha]
    split
    case isTrue  =>
      rw [slice, Nat.add_sub_cancel_left]
      exact .pure _
    case isFalse => exact .throw _

end Decoder

theorem validate_agrees (x : Except TypeError α) : Agrees (validate x) (Codec.validate x) :=
  .lift _

theorem expectValue_agrees :
    Agrees (expectValue field expected) (Codec.expectValue field expected) :=
  Decoder.unsigned_agrees.bind fun _ => .ite (.pure _) (.throw _)

theorem fixedBytes_agrees (hn : n < bound) :
    Agrees (fixedBytes n field) (Codec.fixedBytes n field) := by
  refine (Decoder.bytes_agrees hn).bind fun bs => ?_
  by_cases hl : bs.length = n
  case pos =>
    simp only [hl, ne_eq, not_true_eq_false, if_false, dite_true, copyFromSlice_eq_some hl]
    exact .pure _
  case neg =>
    simp only [hl, ne_eq, not_false_eq_true, if_true, dite_false]
    exact .throw _

theorem decodePreambleWithin_agrees (maxBytes : Nat) (bytes : Bytes) :
    Checked.Agrees (decodePreambleWithin maxBytes bytes)
      (Codec.decodePreambleWithin maxBytes bytes) := by
  refine .ite (fun _ => .throw _) fun _ => ?_
  by_cases hl : bytes.length < preambleBytes
  case pos =>
    simp only [hl, if_true, dite_true]
    exact .throw _
  case neg =>
    simp only [hl, if_false, dite_false]
    rw [preambleBytes, Nat.not_lt] at hl
    have ht : (bytes.take preambleBytes).length = 17 := by simp [preambleBytes, hl]
    have hi : index (bytes.take preambleBytes) 0 = some bytes[0] := by
      rw [index_eq_some (ht ▸ Nat.succ_pos 16), List.getElem_take]
    have hs : slice (bytes.take preambleBytes) 1 17 = (bytes.drop 1).take 16 := by
      rw [slice, preambleBytes, List.drop_take, List.take_take, Nat.min_self]
    refine .bind_some hi <| .ite (fun _ => .throw _) fun _ => ?_
    rw [ht]
    refine .bind_some ((range_eq_some (by omega) ht.ge).trans (congrArg some hs)) ?_
    refine .bind_some (copyFromSlice_eq_some (by simp; omega)) ?_
    exact .ite (fun _ => .throw _) fun _ => .pure _

-- The payload ends within the frame.
theorem decode_signed_agrees {r : Decode α} {p : Codec.Decode α} {r' : Decode Auth}
    {p' : Codec.Decode Auth} (hm : maxBytes < bound) (hr : Reader.Recognizes p L) (h : Agrees r p)
    (h' : Agrees r' p') (make : RequestId → α → Auth → Bytes → γ) :
    Checked.Agrees (do
      let requestId ← decodePreambleWithin maxBytes bytes
      let (a, auth, authenticatedBytes) ← decodeSigned bytes r r'
      return make requestId a auth authenticatedBytes)
    (do
      let requestId ← Codec.decodePreambleWithin maxBytes bytes
      let (a, decoder) ← p.run ⟨bytes, preambleBytes⟩
      let authenticatedEnd := decoder.offset
      let (auth, decoder) ← p'.run decoder
      Codec.finish decoder bytes
      return make requestId a auth (bytes.take authenticatedEnd)) := by
  refine (decodePreambleWithin_agrees _ _).bind fun requestId hp => ?_
  obtain ⟨hl, hp⟩ := Codec.decodePreambleWithin_eq_ok.mp hp
  have hc : Cursor.Within bound (⟨bytes, preambleBytes⟩ : Cursor UInt8) := by
    refine ⟨?_, hl.trans_lt hm⟩
    exact (Codec.encodePreamble_length requestId).symm.trans_le hp.length_le
  simp only [decodeSigned, bind_assoc]
  refine (h.run_eq _ hc).bind fun ⟨a, decoder⟩ hd => ?_
  have hw := h.within _ hc _ _ hd
  obtain ⟨w, -, -, rfl⟩ := (hr.run_eq_ok _ hc.valid _ _).mp hd
  refine (h'.run_eq _ hw).bind fun ⟨auth, decoder'⟩ _ => ?_
  refine Checked.Agrees.bind (.lift _) fun _ _ => ?_
  exact .bind_some (range_eq_some (Nat.zero_le _) hw.valid) (.pure _)

section Queue

theorem decodeCommand_agrees : Agrees decodeCommand Codec.decodeCommand := by
  refine Decoder.unsigned_agrees.bind fun value => ?_
  rw [Codec.commandFromU64]
  cases Codec.u8TryFrom value
  case none   => exact .throw _
  case some b => exact validate_agrees _

theorem queueId_agrees : Agrees queueId Codec.queueId :=
  (fixedBytes_agrees (by decide)).bind fun _ => .pure _

theorem principal_agrees : Agrees principal Codec.principal :=
  (fixedBytes_agrees (by decide)).bind fun _ => .pure _

theorem messageId_agrees : Agrees messageId Codec.messageId :=
  (fixedBytes_agrees (by decide)).bind fun _ => .pure _

theorem payload_agrees : Agrees payload Codec.payload :=
  (Decoder.bytes_agrees (by decide)).bind fun _ => validate_agrees _

theorem decodeRequestBody_agrees (command : Command) :
    Agrees (decodeRequestBody command) (Codec.decodeRequestBody command) := by
  cases command
  case createQueue =>
    exact Decoder.array_agrees.bind fun _ => queueId_agrees.bind fun _ =>
      principal_agrees.bind fun _ => principal_agrees.bind fun _ =>
      Decoder.unsigned_agrees.bind fun _ => Decoder.unsigned_agrees.bind fun _ =>
      (validate_agrees _).bind fun _ => .pure _
  case send =>
    exact Decoder.array_agrees.bind fun _ => queueId_agrees.bind fun _ =>
      principal_agrees.bind fun _ => messageId_agrees.bind fun _ =>
      payload_agrees.bind fun _ => Decoder.unsigned_agrees.bind fun _ => .pure _
  case ack =>
    exact Decoder.array_agrees.bind fun _ => queueId_agrees.bind fun _ =>
      principal_agrees.bind fun _ => messageId_agrees.bind fun _ => .pure _
  all_goals
    exact Decoder.array_agrees.bind fun _ => queueId_agrees.bind fun _ =>
      principal_agrees.bind fun _ => .pure _

theorem decodeRequestPayload_agrees : Agrees decodeRequestPayload Codec.decodeRequestPayload :=
  Decoder.array_agrees.bind fun _ => expectValue_agrees.bind fun _ =>
    decodeCommand_agrees.bind fun _ => decodeRequestBody_agrees _

theorem decodeAuth_agrees : Agrees decodeAuth Codec.decodeAuth :=
  (Decoder.bytes_agrees (by decide)).bind fun _ => validate_agrees _

theorem decodeRequest_agrees (bytes : Bytes) :
    Checked.Agrees (decodeRequest bytes) (Codec.decodeRequest bytes) :=
  have hm : maxFrameBytes < bound := by decide
  decode_signed_agrees hm Codec.decodeRequestPayload_recognizes decodeRequestPayload_agrees
    decodeAuth_agrees fun requestId request auth =>
      Codec.DecodedRequest.mk ⟨requestId, request, auth⟩

end Queue
end Decoder

section Encoder

@[simp]
theorem concat_nil : concat [] = some [] := rfl

@[simp]
theorem concat_cons_some : concat (some part :: parts) = (concat parts).map (part ++ ·) := by
  rw [concat, List.mapM_cons]
  cases h : parts.mapM id <;> simp [concat, h]

theorem encodeWide_eq_some (h : value.toNat < 256 ^ width) :
    encodeWide lead width value = some (lead :: BigEndian.encode width value.toNat) :=
  if_pos h

-- Each width is only used for arguments which fit into it.
@[simp]
theorem encodeArgument_eq_some :
    encodeArgument major value = some (Codec.encodeArgument major value) := by
  simp only [encodeArgument, Codec.encodeArgument]
  split
  case isTrue h =>
    have h : value ≤ 0xff := by
      rw [UInt64.le_iff_toNat_le] at *
      exact h.trans (by decide)
    simp [Codec.u8TryFrom, h]
  case isFalse =>
  split
  case isTrue h => exact encodeWide_eq_some (Nat.lt_succ_of_le (UInt64.le_iff_toNat_le.mp h))
  case isFalse =>
  split
  case isTrue h => exact encodeWide_eq_some (Nat.lt_succ_of_le (UInt64.le_iff_toNat_le.mp h))
  case isFalse =>
  split
  case isTrue h => exact encodeWide_eq_some (Nat.lt_succ_of_le (UInt64.le_iff_toNat_le.mp h))
  case isFalse => exact encodeWide_eq_some value.toNat_lt

@[simp]
theorem encodeUnsigned_eq_some : encodeUnsigned value = some (Codec.encodeUnsigned value) :=
  encodeArgument_eq_some

@[simp]
theorem encodeArray_eq_some : encodeArray length = some (Codec.encodeArray length) :=
  encodeArgument_eq_some

theorem encodeBytes_eq_some (h : bs.length < 2 ^ 64) :
    encodeBytes bs = some (Codec.encodeBytes bs) := by
  rw [encodeBytes, if_pos h]
  simp [Codec.encodeBytes]

@[simp]
theorem encodeId_eq_some {id : ByteVec 32} : encodeId id = some (Codec.encodeId id) :=
  encodeBytes_eq_some (by rw [id.size]; decide)

theorem encodeBytes_payload (payload : Payload) :
    encodeBytes payload.asBytes = some (Codec.encodeBytes payload.asBytes) :=
  encodeBytes_eq_some (payload.bounded.trans_lt (by decide))

@[simp]
theorem encodeSuccessBody_eq_some {body : ResponseBody} :
    encodeSuccessBody body = some (Codec.encodeSuccessBody body) := by
  cases body
  case fetch delivery =>
    cases delivery
    case none          => simp [encodeSuccessBody, Codec.encodeSuccessBody]
    case some delivery => simp [encodeSuccessBody, Codec.encodeSuccessBody, encodeBytes_payload]
  all_goals simp [encodeSuccessBody, Codec.encodeSuccessBody]

theorem encodeResponsePayload_eq_some {response : Response} :
    encodeResponsePayload response = some (Codec.encodeResponsePayload response) := by
  cases response <;> simp [encodeResponsePayload, Codec.encodeResponsePayload]

-- All responses meet the limit for frames.
theorem encodeResponse_eq_some : encodeResponse frame = some (Codec.encodeResponse frame) := by
  have hc :
      concat [some (Codec.encodePreamble frame.requestId), encodeResponsePayload frame.response] =
        some (Codec.encodeResponse frame) := by
    simp [encodeResponsePayload_eq_some, Codec.encodeResponse]
  have ha : debugAssert ((Codec.encodeResponse frame).length ≤ maxFrameBytes) = some () :=
    if_pos Codec.encodeResponse_length_le
  rw [encodeResponse, hc, Option.bind_eq_bind, Option.bind_some, ha]
  rfl

end Encoder

namespace Blob

section Manifest

open BlobManifest (Raw)

-- The divisor is only reached if it is at least the minimal chunk size.
theorem limitsValid_eq_some :
    limitsValid paddedSize chunkSize chunkCount =
      some (BlobManifest.limitsValid paddedSize chunkSize chunkCount) := by
  rw [limitsValid]
  split
  case isTrue h =>
    refine congrArg some (decide_eq_false ?_).symm
    tauto
  case isFalse h =>
    simp only [not_or, not_not] at h
    obtain ⟨⟨hc, hc'⟩, hp, ⟨hs, hs'⟩, hp'⟩ := h
    have hz : chunkSize.toUInt64 ≠ 0 := by
      rintro hz
      rw [←UInt64.toNat_inj, UInt32.toNat_toUInt64] at hz
      rw [hz] at hc
      exact absurd hc (by decide)
    simp only [div, rem, hz, if_false, Option.bind_eq_bind, Option.bind_some]
    split
    case isTrue h =>
      refine congrArg some (decide_eq_false ?_).symm
      tauto
    case isFalse h =>
      refine congrArg some (decide_eq_decide.mpr ?_)
      tauto

theorem slice_two {bytes : Bytes} (h : i + 1 < bytes.length) :
    slice bytes i (i + 2) = [bytes[i], bytes[i + 1]] := by
  rw [slice, Nat.add_sub_cancel_left, List.drop_eq_getElem_cons (by omega),
    List.drop_eq_getElem_cons (by omega)]
  rfl

theorem Raw.parse_agrees (bytes : Bytes) :
    Checked.Agrees (Raw.parse bytes) (BlobManifest.Raw.parse bytes) := by
  unfold Raw.parse BlobManifest.Raw.parse
  by_cases hl : bytes.length < 72
  case pos =>
    simp only [hl, true_or, if_true, dite_true]
    exact .throw _
  case neg =>
    simp only [hl, false_or, if_false]
    rw [Nat.not_lt] at hl
    refine .bind_some (range_eq_some (by omega) (by omega)) ?_
    by_cases hm : slice bytes 0 4 = BlobManifest.magic
    case neg =>
      simp only [hm, ne_eq, not_false_eq_true, if_true, dite_true]
      exact .throw _
    case pos =>
      simp only [hm, ne_eq, not_true_eq_false, if_false, dite_false]
      refine .bind_some (index_eq_some (by omega)) <| .bind_some (index_eq_some (by omega)) <|
        .bind_some (index_eq_some (by omega)) <| .bind_some (index_eq_some (by omega)) ?_
      rw [slice_two (by omega), slice_two (by omega)]
      refine .ite (fun _ => .throw _) fun _ => ?_
      refine .bind_some (range_eq_some (by omega) (by omega)) <|
        .bind_some (copyFromSlice_eq_some (slice_length (by omega))) <|
        .bind_some limitsValid_eq_some ?_
      refine .ite (fun _ => .throw _) fun _ => ?_
      have hc := (UInt32.ofNat (BigEndian.decode (slice bytes 36 40))).toNat_lt
      refine .bind_some (mul_eq_some (by omega)) <| .bind_some (add_eq_some (by omega)) ?_
      refine .ite (fun _ => .throw _) fun _ => ?_
      refine .bind_some (range_eq_some (by omega) (by omega)) ?_
      have hd : slice bytes 40 bytes.length = bytes.drop 40 := by
        rw [slice, List.take_of_length_le (by simp)]
      rw [hd]
      exact Checked.Agrees.bind (.lift _) fun _ _ => .pure _

theorem parse_agrees (bytes : Bytes) : Checked.Agrees (parse bytes) (BlobManifest.parse bytes) := by
  have hp : BlobManifest.parse bytes =
      BlobManifest.Raw.parse bytes >>= fun _ => BlobManifest.parse bytes := by
    cases hr : BlobManifest.Raw.parse bytes
    case ok => rfl
    case error e =>
      unfold BlobManifest.parse
      split <;> simp_all [bind, Except.bind]
  rw [hp]
  exact (Raw.parse_agrees bytes).bind fun _ _ => .lift _

end Manifest

theorem registered_agrees :
    Agrees (registered tryFrom field value) (Codec.Blob.registered tryFrom field value) := by
  rw [registered, Codec.Blob.registered]
  cases (Codec.u8TryFrom value).bind (tryFrom · |>.toOption)
  case none   => exact .throw _
  case some a => exact .pure a

theorem fixed_agrees (hn : n < bound) : Agrees (fixed n field) (Codec.fixedBytes n field) := by
  refine (Decoder.bytes_agrees hn).bind fun bs => ?_
  by_cases hl : bs.length = n
  case pos =>
    have ht : ByteVec.tryFrom n bs = some ⟨bs, hl⟩ := ByteVec.tryFrom_eq_some.mpr rfl
    simp only [ht, hl, dite_true]
    exact .pure _
  case neg =>
    have ht : ByteVec.tryFrom n bs = none := dif_neg hl
    simp only [ht, hl, dite_false]
    exact .throw _

theorem uploadId_agrees : Agrees uploadId Codec.Blob.uploadId :=
  (fixed_agrees (by decide)).bind fun _ => .pure _

theorem blobId_agrees : Agrees blobId Codec.Blob.blobId :=
  (fixed_agrees (by decide)).bind fun _ => .pure _

theorem capability_agrees : Agrees (capability field) (Codec.Blob.capability field) :=
  (fixed_agrees (by decide)).bind fun _ => .pure _

theorem manifest_agrees : Agrees manifest Codec.Blob.manifest := by
  refine (Decoder.bytes_agrees (by decide)).bind fun bytes => ?_
  rw [(parse_agrees bytes).adapt]
  exact .lift _

theorem ttl_agrees : Agrees ttl Codec.Blob.ttl :=
  Decoder.unsigned_agrees.bind fun _ => .ite (.throw _) (.pure _)

theorem chunkIndex_agrees : Agrees chunkIndex Codec.Blob.chunkIndex :=
  Decoder.unsigned_agrees.bind fun _ => .ite (.pure _) (.throw _)

theorem ciphertextChunk_agrees : Agrees ciphertextChunk Codec.Blob.ciphertextChunk := by
  have ha : add maxChunkBytes 16 = some (maxChunkBytes + 16) := add_eq_some (by decide)
  rw [ciphertextChunk, ha]
  exact Decoder.bytes_agrees (by decide)

theorem decodeRequestBody_agrees (command : BlobCommand) :
    Agrees (decodeRequestBody command) (Codec.Blob.decodeRequestBody command) := by
  cases command
  case beginUpload =>
    exact Decoder.array_agrees.bind fun _ => uploadId_agrees.bind fun _ =>
      capability_agrees.bind fun _ => capability_agrees.bind fun _ =>
      capability_agrees.bind fun _ => capability_agrees.bind fun _ =>
      manifest_agrees.bind fun _ => ttl_agrees.bind fun _ => .pure _
  case putChunk =>
    exact Decoder.array_agrees.bind fun _ => uploadId_agrees.bind fun _ =>
      capability_agrees.bind fun _ => chunkIndex_agrees.bind fun _ =>
      ciphertextChunk_agrees.bind fun _ => .pure _
  case commit =>
    exact Decoder.array_agrees.bind fun _ => uploadId_agrees.bind fun _ =>
      capability_agrees.bind fun _ => blobId_agrees.bind fun _ => .pure _
  case getChunk =>
    exact Decoder.array_agrees.bind fun _ => blobId_agrees.bind fun _ =>
      capability_agrees.bind fun _ => chunkIndex_agrees.bind fun _ => .pure _
  case renew =>
    exact Decoder.array_agrees.bind fun _ => blobId_agrees.bind fun _ =>
      capability_agrees.bind fun _ => ttl_agrees.bind fun _ => .pure _
  all_goals
    exact Decoder.array_agrees.bind fun _ => blobId_agrees.bind fun _ =>
      capability_agrees.bind fun _ => .pure _

theorem decodeRequestPayload_agrees :
    Agrees decodeRequestPayload Codec.Blob.decodeRequestPayload :=
  Decoder.array_agrees.bind fun _ => expectValue_agrees.bind fun _ =>
    Decoder.unsigned_agrees.bind fun _ => registered_agrees.bind fun _ => decodeRequestBody_agrees _

theorem decodeAuth_agrees : Agrees decodeAuth Codec.Blob.decodeAuth :=
  (Decoder.bytes_agrees (by decide)).bind fun _ => .ite (.throw _) (validate_agrees _)

theorem decodeBlobRequest_agrees (bytes : Bytes) :
    Checked.Agrees (decodeBlobRequest bytes) (Codec.Blob.decodeBlobRequest bytes) :=
  have hm : maxBlobFrameBytes < bound := by decide
  decode_signed_agrees hm Codec.Blob.decodeRequestPayload_recognizes decodeRequestPayload_agrees
    decodeAuth_agrees fun requestId request auth =>
      Codec.Blob.DecodedBlobRequest.mk ⟨requestId, request, auth⟩

section Encoder

open Codec.Blob (BodyWellFormed ResponseWellFormed)

theorem encodeResponseBody_eq_some (h : BodyWellFormed body) :
    encodeResponseBody body = some (Codec.Blob.encodeResponseBody body) := by
  cases body
  case getManifest manifest expiry =>
    have hm := encodeBytes_eq_some (manifest.asBytes_length_le.trans_lt (by decide))
    simp [encodeResponseBody, Codec.Blob.encodeResponseBody, hm]
  case getChunk chunk expiry =>
    have hc := encodeBytes_eq_some (Nat.lt_of_le_of_lt h (by decide))
    simp [encodeResponseBody, Codec.Blob.encodeResponseBody, hc]
  all_goals simp [encodeResponseBody, Codec.Blob.encodeResponseBody]

theorem encodeBlobResponse_eq_some (h : ∀ body ∈ frame.response.body, BodyWellFormed body) :
    encodeBlobResponse frame = some (Codec.Blob.encodeBlobResponse frame) := by
  rw [encodeBlobResponse, Codec.Blob.encodeBlobResponse]
  cases hb : frame.response.body
  case none      => simp
  case some body =>
    have he := encodeResponseBody_eq_some (h body hb)
    by_cases hs : frame.response.status.isOk <;> simp [hs, he]

end Encoder
end Blob
end Cofferwire.Strict
