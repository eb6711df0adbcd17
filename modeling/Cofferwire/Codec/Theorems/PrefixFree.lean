import Cofferwire.Codec.Theorems.Blob
import Cofferwire.Codec.Theorems.Queue

namespace Cofferwire.Codec

open Blob (decodeBlobRequest decodeBlobResponse)
open Reader (Recognizes)

def Accepts (decode : Bytes → Except DecodeError α) (bytes : Bytes) : Prop :=
  ∃ a, decode bytes = .ok a

-- No accepted frame starts with another one.
def PrefixFree (decode : Bytes → Except DecodeError α) : Prop :=
  ∀ bytes bytes', Accepts decode bytes → Accepts decode bytes' → bytes <+: bytes' → bytes = bytes'

-- All preambles have the same length, so only what follows matters.
theorem preamble_append_prefix (h : encodePreamble requestId ++ w <+: encodePreamble requestId' ++ w') :
    encodePreamble requestId = encodePreamble requestId' ∧ w <+: w' := by
  obtain ⟨t, ht⟩ := h
  rw [List.append_assoc] at ht
  have ⟨hp, hw⟩ := List.append_inj ht (by rw [encodePreamble_length, encodePreamble_length])
  exact ⟨hp, t, hw⟩

theorem prefixFree_of_recognizes {decode : Bytes → Except DecodeError γ} {r : Decode α}
    {L : Bytes → α → Prop} (h : Recognizes r L)
    (hd : ∀ bytes out, decode bytes = .ok out →
      ∃ requestId w a, L w a ∧ bytes = encodePreamble requestId ++ w) : PrefixFree decode := by
  rintro bytes bytes' ⟨out, ho⟩ ⟨out', ho'⟩ hp
  obtain ⟨requestId, w, a, hw, rfl⟩ := hd bytes out ho
  obtain ⟨requestId', w', a', hw', rfl⟩ := hd bytes' out' ho'
  have ⟨he, t, ht⟩ := preamble_append_prefix hp
  have ht : w ++ t = w' ++ [] := by rw [ht, List.append_nil]
  have ⟨_, hn, _⟩ := h.append_inj hw hw' ht
  rw [he, hn]

theorem decodeResponse_prefixFree : PrefixFree decodeResponse := by
  refine prefixFree_of_recognizes decodeResponsePayload_recognizes fun bytes frame h => ?_
  exact ⟨frame.requestId, _, frame.response, rfl, decodeResponse_eq_ok.mp h⟩

theorem decodeRequest_prefixFree : PrefixFree decodeRequest := by
  refine prefixFree_of_recognizes (decodeRequestPayload_recognizes.bind fun _ => decodeAuth_recognizes)
    fun bytes d h => ?_
  obtain ⟨hb, _⟩ := decodeRequest_eq_ok.mp h
  refine ⟨d.frame.requestId, _, d.frame.auth, ⟨_, d.frame.request, _, rfl, rfl, rfl⟩, ?_⟩
  rw [hb, encodeRequest, encodeAuthenticatedRequest, List.append_assoc]

theorem decodeBlobResponse_prefixFree : PrefixFree decodeBlobResponse := by
  refine prefixFree_of_recognizes Blob.decodeResponsePayload_recognizes fun bytes frame h => ?_
  obtain ⟨hw, hb⟩ := Blob.decodeBlobResponse_eq_ok.mp h
  exact ⟨frame.requestId, _, frame.response, ⟨hw, rfl⟩, hb.trans (Blob.encodeBlobResponse_eq hw)⟩

theorem decodeBlobRequest_prefixFree : PrefixFree decodeBlobRequest := by
  refine prefixFree_of_recognizes
    (Blob.decodeRequestPayload_recognizes.bind fun _ => Blob.decodeAuth_recognizes)
    fun bytes d h => ?_
  obtain ⟨⟨hw, ha⟩, hb, _⟩ := Blob.decodeBlobRequest_eq_ok.mp h
  refine ⟨d.frame.requestId, _, d.frame.auth, ⟨_, d.frame.request, _, ⟨hw, rfl⟩, ⟨rfl, ha⟩, rfl⟩, ?_⟩
  simp [hb, Blob.encodeBlobRequest, Blob.encodeBlobAuthenticatedRequest]

-- Behind the preamble come the length of the payload, the direction, the command and the length of
-- the body. All of them take a single byte.
def kind (bytes : Bytes) : Bytes :=
  (bytes.drop preambleBytes).take 4

theorem kind_append : kind (encodePreamble requestId ++ w) = w.take 4 := by
  rw [kind, ←encodePreamble_length requestId, List.drop_left]

def requestKind : Request → Bytes
  | .createQueue _ => [0x83, 0, 1, 0x85]
  | .send _        => [0x83, 0, 2, 0x85]
  | .fetch _       => [0x83, 0, 3, 0x82]
  | .ack _         => [0x83, 0, 4, 0x83]
  | .deleteQueue _ => [0x83, 0, 5, 0x82]

def blobRequestKind : BlobRequest → Bytes
  | .beginUpload .. => [0x83, 0, 1, 0x87]
  | .putChunk ..    => [0x83, 0, 2, 0x84]
  | .commit ..      => [0x83, 0, 3, 0x83]
  | .getManifest .. => [0x83, 0, 4, 0x82]
  | .getChunk ..    => [0x83, 0, 5, 0x83]
  | .renew ..       => [0x83, 0, 6, 0x83]
  | .delete ..      => [0x83, 0, 7, 0x82]

theorem kind_encodeRequest : kind (encodeRequest frame) = requestKind frame.request := by
  rw [encodeRequest, encodeAuthenticatedRequest, List.append_assoc, kind_append]
  cases frame.request <;>
    simp [encodeRequestPayload, encodeRequestBody, encodeArray, encodeUnsigned, encodeArgument,
      Request.command, Command.asU8, requestKind] <;> decide

theorem kind_encodeBlobRequest :
    kind (Blob.encodeBlobRequest frame) = blobRequestKind frame.request := by
  simp only [Blob.encodeBlobRequest, Blob.encodeBlobAuthenticatedRequest, List.append_assoc,
    kind_append]
  cases frame.request <;>
    simp [Blob.encodeRequestBody, encodeArray, encodeUnsigned, encodeArgument, BlobRequest.command,
      BlobCommand.asU8, blobRequestKind] <;> decide

theorem head_kind_encodeResponse : (kind (encodeResponse frame)).head? = some 0x84 := by
  rw [encodeResponse, kind_append]
  simp [encodeResponsePayload, encodeArray, encodeArgument]
  decide

theorem head_kind_encodeBlobResponse :
    (kind (Blob.encodeBlobResponse frame)).head? = some 0x84 := by
  simp only [Blob.encodeBlobResponse, List.append_assoc, kind_append]
  simp [encodeArray, encodeArgument]
  decide

theorem requestKind_ne_blobRequestKind : requestKind r ≠ blobRequestKind r' := by
  cases r <;> cases r' <;> simp [requestKind, blobRequestKind]

-- The length of the payload tells requests and responses apart, and the command together with the
-- length of the body does so for requests of different profiles.
theorem Accepts.kind_of_request (h : Accepts decodeRequest bytes) :
    ∃ request, kind bytes = requestKind request := by
  obtain ⟨d, h⟩ := h
  rw [(decodeRequest_eq_ok.mp h).left]
  exact ⟨_, kind_encodeRequest⟩

theorem Accepts.kind_of_blobRequest (h : Accepts decodeBlobRequest bytes) :
    ∃ request, kind bytes = blobRequestKind request := by
  obtain ⟨d, h⟩ := h
  rw [(Blob.decodeBlobRequest_eq_ok.mp h).right.left]
  exact ⟨_, kind_encodeBlobRequest⟩

theorem Accepts.head_of_response (h : Accepts decodeResponse bytes) :
    (kind bytes).head? = some 0x84 := by
  obtain ⟨frame, h⟩ := h
  rw [decodeResponse_eq_ok.mp h]
  exact head_kind_encodeResponse

theorem Accepts.head_of_blobResponse (h : Accepts decodeBlobResponse bytes) :
    (kind bytes).head? = some 0x84 := by
  obtain ⟨frame, h⟩ := h
  rw [(Blob.decodeBlobResponse_eq_ok.mp h).right]
  exact head_kind_encodeBlobResponse

theorem Accepts.head_of_request (h : Accepts decodeRequest bytes) :
    (kind bytes).head? = some 0x83 := by
  obtain ⟨request, hk⟩ := h.kind_of_request
  rw [hk]
  cases request <;> rfl

theorem Accepts.head_of_blobRequest (h : Accepts decodeBlobRequest bytes) :
    (kind bytes).head? = some 0x83 := by
  obtain ⟨request, hk⟩ := h.kind_of_blobRequest
  rw [hk]
  cases request <;> rfl

-- An accepted frame has no strict prefixes and no strict extensions which are accepted.
def Isolates (decode : Bytes → Except DecodeError α) : Prop :=
  ∀ bytes bytes', Accepts decode bytes → bytes' ≠ bytes → bytes' <+: bytes ∨ bytes <+: bytes' →
    ¬Accepts decode bytes'

theorem PrefixFree.isolates {decode : Bytes → Except DecodeError α} (h : PrefixFree decode) :
    Isolates decode := by
  intro bytes bytes' ha hn hp ha'
  cases hp
  case inl hp => exact hn (h bytes' bytes ha' ha hp)
  case inr hp => exact hn (h bytes bytes' ha ha' hp).symm

-- No frame is accepted by both decoders.
def Separates (decode : Bytes → Except DecodeError α) (decode' : Bytes → Except DecodeError β) :
    Prop :=
  ∀ bytes, Accepts decode bytes → ¬Accepts decode' bytes

theorem separates_of_head {decode : Bytes → Except DecodeError α}
    {decode' : Bytes → Except DecodeError β}
    (h : ∀ bytes, Accepts decode bytes → (kind bytes).head? = some 0x83)
    (h' : ∀ bytes, Accepts decode' bytes → (kind bytes).head? = some 0x84) :
    Separates decode decode' := by
  intro bytes ha ha'
  have he := (h bytes ha).symm.trans (h' bytes ha')
  simp at he

theorem accepted_frames_prefix_free :
    (Isolates decodeRequest ∧ Isolates decodeResponse ∧ Isolates decodeBlobRequest ∧
      Isolates decodeBlobResponse) ∧
    (Separates decodeRequest decodeResponse ∧ Separates decodeRequest decodeBlobResponse ∧
      Separates decodeBlobRequest decodeResponse ∧ Separates decodeBlobRequest decodeBlobResponse) ∧
    Separates decodeRequest decodeBlobRequest := by
  refine ⟨⟨?_, ?_, ?_, ?_⟩, ⟨?_, ?_, ?_, ?_⟩, ?_⟩
  · exact decodeRequest_prefixFree.isolates
  · exact decodeResponse_prefixFree.isolates
  · exact decodeBlobRequest_prefixFree.isolates
  · exact decodeBlobResponse_prefixFree.isolates
  · exact separates_of_head (fun _ => Accepts.head_of_request) fun _ => Accepts.head_of_response
  · exact separates_of_head (fun _ => Accepts.head_of_request) fun _ => Accepts.head_of_blobResponse
  · exact separates_of_head (fun _ => Accepts.head_of_blobRequest) fun _ => Accepts.head_of_response
  · exact separates_of_head (fun _ => Accepts.head_of_blobRequest) fun _ =>
      Accepts.head_of_blobResponse
  · intro bytes h h'
    obtain ⟨r, hk⟩ := h.kind_of_request
    obtain ⟨r', hk'⟩ := h'.kind_of_blobRequest
    exact requestKind_ne_blobRequestKind (hk.symm.trans hk')

end Cofferwire.Codec
