import Cofferwire.Client.Theorems.Prepared
import Cofferwire.Client.Theorems.Restore

namespace Cofferwire.Client

open Codec (encodeAuthenticatedRequest)
open Program (Runs)

section Queue

-- Nothing else is sent than the prepared frame.
theorem of_send {next : interface.Result (.exchange frame) → _}
    (h : Runs (Sender.send prepared) events (.call (.exchange frame) next)) :
    frame = prepared.asBytes := by
  have hg : (Sender.send prepared).Guarantees (fun _ (c : Call) => c = .exchange prepared.asBytes)
      (fun _ _ => True) [] := by
    refine guarantees_exchange rfl (fun _ _ => trivial) fun bytes => ?_
    refine .bind_except (fun _ _ => trivial) fun response _ => ?_
    split <;> trivial
  exact Call.exchange.inj (hg.runs h).left

variable [Ed25519] [Hpke]

-- The request which the recipient means to make next. It fetches a message first, and acknowledges
-- it right after it has been committed.
inductive Recipient.Means (recipient : Recipient) : List interface.Event → Request → Prop
  | fetch : Means recipient [] (.fetch ⟨recipient.queueId, recipient.recipient⟩)
  | ack : Means recipient (past ++ [⟨.commit m plaintext, .ok outcome⟩])
    (.ack ⟨recipient.queueId, recipient.recipient, m⟩)

-- The frame carries the last request id, and the request which the recipient means to make.
def Recipient.Emits (recipient : Recipient) (past : List interface.Event) (c : Call) : Prop :=
  ∀ frame, c = .exchange frame → ∃ past' requestId request,
    past = past' ++ [⟨.nextRequestId, requestId⟩] ∧ recipient.Means past' request ∧
    Acceptable requestId request frame

variable [LawfulEd25519] {recipient : Recipient}

theorem emits_signedFrame (hm : recipient.Means past request)
    (hp : requestPrincipal request = principalOf recipient.signingKey) :
    recipient.Emits (past ++ [⟨.nextRequestId, requestId⟩])
      (.exchange (signedFrame recipient.signingKey requestId request)) := by
  rintro _ ⟨⟩
  exact ⟨past, requestId, request, rfl, hm, acceptable_signedFrame hp⟩

theorem acknowledge_emits :
    (recipient.acknowledge m outcome).Guarantees recipient.Emits (fun _ _ => True)
      (past ++ [⟨.commit m plaintext, .ok outcome'⟩]) := by
  refine guarantees_nextRequestId nofun fun ackId => ?_
  refine guarantees_exchange (emits_signedFrame .ack recipient.principal.symm) (fun _ _ => trivial)
    fun bytes => ?_
  refine .bind_except (fun _ _ => trivial) fun response _ => ?_
  split
  case h_1 => cases outcome <;> trivial
  case h_2 => trivial
  case h_3 => trivial

theorem poll_emits (recipient : Recipient) :
    recipient.poll.Guarantees recipient.Emits (fun _ _ => True) [] := by
  refine guarantees_nextRequestId nofun fun fetchId => ?_
  have hm : recipient.Means [] _ := .fetch
  refine guarantees_exchange (emits_signedFrame hm recipient.principal.symm) (fun _ _ => trivial)
    fun bytes => ?_
  refine .bind_except (fun _ _ => trivial) fun response _ => ?_
  split
  case h_1 => trivial
  case h_2 =>
    refine .bind_except (fun _ _ => trivial) fun plaintext _ => ?_
    exact guarantees_commit nofun (fun _ _ => trivial) fun outcome => acknowledge_emits
  case h_3 => trivial
  case h_4 => trivial

theorem of_poll (h : Runs recipient.poll events (.call (.exchange frame) next)) :
    ∃ past requestId request,
      events = past ++ [⟨.nextRequestId, requestId⟩] ∧ recipient.Means past request ∧
      Acceptable requestId request frame :=
  ((poll_emits recipient).runs h).left frame rfl

end Queue

namespace Blob

open Codec.Blob (RequestWellFormed decodeBlobRequest decodeBlobRequest_eq_ok
  encodeBlobAuthenticatedRequest encodeBlobAuthenticatedRequest_inj encodeBlobRequest
  encodeBlobRequest_length_le)
open Crypto

section

variable [Ed25519]

-- The frame is decoded as the request which is meant, and has been signed for the capability which
-- the relay takes from it.
structure Acceptable (requestId : RequestId) (request : BlobRequest) (frame : Bytes) : Prop where
  bounded : frame.length ≤ maxBlobFrameBytes
  decoded : ∃ auth,
    decodeBlobRequest frame =
      .ok ⟨⟨requestId, request, auth⟩, encodeBlobAuthenticatedRequest requestId request⟩ ∧
    verifyBlobRequest request.capability (encodeBlobAuthenticatedRequest requestId request) auth =
      .ok ()

theorem acceptable_of_decode {bytes : Bytes} (hd : decodeBlobRequest bytes =
      .ok ⟨⟨requestId, request, auth⟩, encodeBlobAuthenticatedRequest requestId request⟩)
    (hv : verifyBlobRequest request.capability (encodeBlobAuthenticatedRequest requestId request) auth =
      .ok ()) : Acceptable requestId request bytes := by
  have ⟨⟨hr, ha⟩, hb, _⟩ := decodeBlobRequest_eq_ok.mp hd
  exact ⟨hb ▸ encodeBlobRequest_length_le hr ha, auth, hd, hv⟩

theorem acceptable_signed [LawfulEd25519] {key : Ed25519.SigningKey} (hr : RequestWellFormed request)
    (hc : request.capability = capability key) :
    Acceptable requestId request (signed key requestId request) := by
  refine acceptable_of_decode (decode_signed hr) ?_
  rw [hc]
  exact if_pos (verifyProof_signProof key)

-- Not all requests which can be signed are decoded. As proofs have a fixed length, it is the request
-- which is not.
theorem wellFormed_of_decode (h : decodeBlobRequest (signed key requestId request) = .ok decoded) :
    RequestWellFormed request := by
  obtain ⟨⟨hr, ha⟩, hb, _⟩ := decodeBlobRequest_eq_ok.mp h
  have hs : (signBlobRequest key (encodeBlobAuthenticatedRequest requestId request)).asBytes.length =
    68 := signProof_length
  have hl : (Codec.encodeBytes (signBlobRequest key
      (encodeBlobAuthenticatedRequest requestId request)).asBytes).length =
      (Codec.encodeBytes decoded.frame.auth.asBytes).length := by
    simp only [Codec.encodeBytes, List.length_append, hs, ha]
  have hi := encodeBlobAuthenticatedRequest_inj (List.append_inj_left' hb hl)
  have he : request = decoded.frame.request := hi.right
  exact he ▸ hr

theorem signed_length :
    (signed key requestId request).length =
      (encodeBlobAuthenticatedRequest requestId request).length + 70 := by
  have hs : (signBlobRequest key (encodeBlobAuthenticatedRequest requestId request)).asBytes.length =
    68 := signProof_length
  simp only [signed, encodeBlobRequest, Codec.encodeBytes, List.length_append, hs]
  rfl

-- A lifetime of zero takes as many bytes as a lifetime of one.
theorem begin_length_le : (signed key requestId (.beginUpload uploadId capabilities manifest 0)).length ≤
    maxBlobFrameBytes := by
  have hw : RequestWellFormed (.beginUpload uploadId capabilities manifest 1) := nofun
  have hl : (signed key requestId _).length ≤ _ := encodeBlobRequest_length_le hw signProof_length
  rw [signed_length] at hl ⊢
  simp only [encodeBlobAuthenticatedRequest, Codec.Blob.encodeRequestBody, List.length_append] at hl ⊢
  exact hl

-- What the download asks for one after another.
def PreparedBlob.downloadRequest (prepared : PreparedBlob) : Nat → BlobRequest
  | 0         => .getManifest prepared.encrypted.blobId (capability prepared.downloadKey)
  | index + 1 => .getChunk prepared.encrypted.blobId (capability prepared.downloadKey) (.ofNat index)

-- Every frame of a download comes after a request id and, in addition, two events for each request
-- before.
def PreparedBlob.Emits (prepared : PreparedBlob) (past : List interface.Event) (c : Call) : Prop :=
  ∀ bytes, c = .exchange bytes → ∃ past' requestId n,
    past = past' ++ [⟨.nextRequestId, requestId⟩] ∧ past'.length = 2 * n ∧
    Acceptable requestId (prepared.downloadRequest n) bytes

section Download

variable [LawfulEd25519] {prepared : PreparedBlob}

-- All requests up to a certain one have been made.
def Asked (n : Nat) (past : List interface.Event) : Except BlobClientError α → Prop
  | .ok _    => past.length = 2 * n
  | .error _ => True

theorem exchange_emits (hl : past.length = 2 * n) :
    (exchange prepared.downloadKey (prepared.downloadRequest n)).Guarantees prepared.Emits
      (Asked (n + 1)) past := by
  have hw : RequestWellFormed (prepared.downloadRequest n) := by
    cases n <;> trivial
  have hc : (prepared.downloadRequest n).capability = capability prepared.downloadKey := by
    cases n <;> rfl
  refine ⟨nofun, fun requestId => ⟨?_, fun response => ?_⟩⟩
  · rintro _ ⟨⟩
    exact ⟨past, requestId, n, rfl, hl, acceptable_signed hw hc⟩
  · rcases response with _ | bytes
    case error => trivial
    case ok =>
      dsimp only
      split
      case h_1 => trivial
      case h_2 =>
        split
        case isTrue => trivial
        case isFalse =>
          split
          case isTrue => trivial
          case isFalse =>
            split
            case h_1 => trivial
            case h_2 =>
              show List.length _ = _
              simp only [List.length_append, List.length_singleton]
              omega

theorem downloadChunk_emits (hl : past.length = 2 * (index + 1)) :
    (downloadChunk prepared index).Guarantees prepared.Emits (Asked (index + 2)) past := by
  unfold downloadChunk
  split
  case h_1 => trivial
  case h_2 i hi =>
    have hr : BlobRequest.getChunk prepared.encrypted.blobId (capability prepared.downloadKey) i =
        prepared.downloadRequest (index + 1) := by
      rw [PreparedBlob.downloadRequest, u32TryFrom_eq_some.mp hi, UInt32.ofNat_toNat]
    dsimp only
    rw [hr]
    refine (exchange_emits hl).bind (fun _ _ _ => trivial) fun past body hl => ?_
    split
    case h_1 => exact hl
    case h_2 => trivial

theorem downloadChunks_emits (hl : past.length = 2 * (index + 1)) :
    (downloadChunks prepared index count).Guarantees prepared.Emits (Asked (index + count + 1)) past := by
  induction count generalizing index past
  case zero => exact hl
  case succ count hi =>
    refine (downloadChunk_emits hl).bind (fun _ _ _ => trivial) fun past chunk hl => ?_
    refine (hi hl).bind (fun _ _ _ => trivial) fun past chunks hl => ?_
    have he : index + 1 + count + 1 = index + (count + 1) + 1 := by omega
    exact he ▸ hl

variable [Sha256] [ChaCha20Poly1305] [Hkdf]

theorem downloadBlob_emits (prepared : PreparedBlob) :
    (downloadBlob prepared).Guarantees prepared.Emits (fun _ _ => True) [] := by
  refine (exchange_emits (n := 0) rfl).bind (fun _ _ _ => trivial) fun past body hl => ?_
  split
  case h_1 =>
    refine (downloadChunks_emits hl).bind (fun _ _ _ => trivial) fun past chunks hl => ?_
    trivial
  case h_2 => trivial

end Download

section Upload

variable {u u' previous : BlobUploader} {past : List interface.Event}

-- The frame carries the request of the stage, under the request id which is pending or has been
-- drawn for it.
def BlobUploader.Emits (uploader : BlobUploader) (past : List interface.Event) (c : Call) : Prop :=
  ∀ bytes, c = .exchange bytes → ∃ requestId request,
    uploader.request = .ok request ∧ Acceptable requestId request bytes ∧
    match uploader.pending with
    | some pending => requestId = pending.requestId
    | none         => ⟨.nextRequestId, requestId⟩ ∈ past

variable [Sha256] [ChaCha20Poly1305] [Hkdf]

-- Unlike the ones of a valid uploader, a pending frame may have been signed elsewhere with its key.
structure BlobUploader.Sound (uploader : BlobUploader) : Prop where
  blob    : uploader.blob.Valid
  ttl     : uploader.ttl ≠ 0
  stage   : ∀ index, uploader.stage = .chunk index → index < uploader.blob.encrypted.chunks.length
  pending : ∀ pending ∈ uploader.pending, ∃ request, uploader.request = .ok request ∧
    Acceptable pending.requestId request pending.bytes

-- Whatever happens, the uploader which is left is sound again.
def Leaves : Except Failure (UploadProgress × BlobUploader) → Prop
  | .ok (_, uploader)           => uploader.Sound
  | .error (.error _ uploader) => uploader.Sound
  | .error .panic              => True

theorem sound_next {s : UploadStage} (h : u.Sound)
    (hf : u.stage.Follows u.blob.encrypted.chunks.length s) :
    BlobUploader.Sound { u with stage := s, pending := none } where
  blob  := h.blob
  ttl   := h.ttl
  stage := by
    rintro index rfl
    exact hf.index_lt h.blob.chunks_pos
  pending _ h := by cases h

theorem BlobUploader.Sound.leaves {failure : Failure} (h : u.Sound)
    (hr : u.request = .error failure) :
    Leaves (.error failure) := by
  unfold BlobUploader.request at hr
  dsimp only at hr
  split at hr
  case h_1 => cases hr
  case h_2 =>
    split at hr
    case h_1 =>
      cases hr
      exact h
    case h_2 =>
      split at hr <;> cases hr
      trivial
  case h_3 => cases hr
  case h_4 =>
    cases hr
    trivial

variable [Ed25519Seeds]

theorem persist_emits {f : Unit → Program interface Failure (UploadProgress × BlobUploader)}
    (hp : previous.Sound)
    (hf : ∀ events, (f ()).Guarantees u.Emits (fun _ => Leaves) (past ++ events)) :
    (u'.persist previous >>= f).Guarantees u.Emits (fun _ => Leaves) past := by
  unfold BlobUploader.persist
  split
  case h_1 => trivial
  case h_2 =>
    refine ⟨nofun, fun result => ?_⟩
    rcases result with _ | _
    case error => exact hp
    case ok    => exact hf _

theorem finish_emits (hs : u'.Sound) :
    (u'.finish pending response).Guarantees u.Emits (fun _ => Leaves) past := by
  refine .bind_except ?_ fun ⟨stage, progress⟩ hn => ?_
  · intro failure he
    cases hn : u'.nextStage pending response <;> rw [hn] at he <;> cases he
    exact hs
  · have hn := of_nextStage_eq_ok hs.stage (Except.mapError_eq_ok.mp hn)
    exact persist_emits hs fun _ => sound_next hs hn.right

theorem send_emits (hs : u'.Sound) (hp : u'.pending = some pending)
    (he : ∀ events, u.Emits (past ++ events) (.exchange pending.bytes)) :
    u'.send.Guarantees u.Emits (fun _ => Leaves) past := by
  refine persist_emits hs fun events => ?_
  rw [hp]
  refine ⟨he events, fun response => ?_⟩
  rcases response with _ | bytes
  case error => exact hs
  case ok    => exact finish_emits hs

theorem advance_emits [LawfulEd25519] (h : u.Sound) :
    u.advance.Guarantees u.Emits (fun _ => Leaves) [] := by
  unfold BlobUploader.advance
  split
  case isTrue => exact h
  case isFalse =>
    split
    case isTrue hp =>
      obtain ⟨pending, hp⟩ := Option.isSome_iff_exists.mp hp
      obtain ⟨request, hr, ha⟩ := h.pending pending hp
      refine send_emits h hp fun events => ?_
      rintro _ ⟨⟩
      exact ⟨pending.requestId, request, hr, ha, by rw [hp]⟩
    case isFalse hp =>
      have hp := Option.not_isSome_iff_eq_none.mp hp
      refine .bind_except (fun _ => h.leaves) fun request hr => ⟨nofun, fun requestId => ?_⟩
      have ha : Acceptable requestId request (signed u.blob.uploadKey requestId request) :=
        acceptable_signed (wellFormed_request h.blob h.ttl hr) (BlobUploader.capability_request hr)
      have hs : BlobUploader.Sound { u with
          pending := some ⟨requestId, request.command, signed u.blob.uploadKey requestId request⟩ } := by
        refine ⟨h.blob, h.ttl, h.stage, ?_⟩
        rintro _ ⟨⟩
        exact ⟨request, matchesStage_iff.mp (matchesStage_iff.mpr hr :), ha⟩
      refine send_emits hs rfl fun events => ?_
      rintro _ ⟨⟩
      exact ⟨requestId, request, hr, ha, by simp [hp]⟩

-- The uploaders which are left after advancing any number of times, whatever the environment returns.
inductive BlobUploader.Evolves (uploader : BlobUploader) : BlobUploader → Prop
  | refl : Evolves uploader uploader
  | ok (h : Evolves uploader v) (hr : Runs v.advance events (.done (.ok (progress, v')))) :
    Evolves uploader v'
  | error (h : Evolves uploader v) (hr : Runs v.advance events (.done (.error (.error e v')))) :
    Evolves uploader v'

theorem BlobUploader.Sound.evolves [LawfulEd25519] (h : u.Sound) (he : u.Evolves u') : u'.Sound := by
  induction he
  case refl        => exact h
  case ok hr hi    => exact (advance_emits hi).runs hr
  case error hr hi => exact (advance_emits hi).runs hr

theorem sound_of_restore (h : BlobUploader.restore bytes identity = .ok u) : u.Sound := by
  obtain ⟨_, state, hl, ha⟩ := of_restore_eq_ok h
  refine ⟨valid_of_restore h, ha.ttl ▸ hl.ttl, fun index hi => ?_, fun pending hp => ?_⟩
  · have hs := ha.stage
    rw [hi] at hs
    rw [ha.blob]
    unfold decodeStage at hs
    split at hs
    case h_2 =>
      obtain ⟨hl, ⟨⟩⟩ := Option.ite_none_right_eq_some.mp hs
      exact hl
    case h_5 => cases hs
    all_goals
      obtain ⟨_, hs⟩ := Option.ite_none_right_eq_some.mp hs
      cases hs
  · obtain ⟨request, auth, hr, _, hd, hv⟩ := ha.presents.right pending hp
    exact ⟨request, hr, acceptable_of_decode hd (BlobUploader.capability_request hr ▸ hv)⟩

-- A client does not notice that its relay will not decode the first frame if the lifetime is zero.
theorem exists_begin_rejected {prepared : PreparedBlob} (hv : prepared.Valid) :
    ∃ events bytes next, Runs (prepared.uploader 0).advance events (.call (.exchange bytes) next) ∧
      ∀ decoded, decodeBlobRequest bytes ≠ .ok decoded := by
  let request : BlobRequest :=
    .beginUpload prepared.uploadId prepared.capabilities prepared.encrypted.manifest 0
  let pending : Pending := frame prepared ⟨.replicate 16 0⟩ request
  have hl : pending.bytes.length ≤ maxBlobFrameBytes := begin_length_le
  let u : BlobUploader := { prepared.uploader 0 with pending := some pending }
  obtain ⟨state, he⟩ : ∃ state, encodeUploadState u = some state :=
    exists_encodeUploadState hv nofun hl
  obtain ⟨next, hr, _⟩ := runs_send he rfl
  refine ⟨⟨.nextRequestId, pending.requestId⟩ :: _, pending.bytes, next, .step hr, ?_⟩
  intro decoded hd
  exact wellFormed_of_decode hd rfl

end Upload

-- All frames of the client are accepted by the relay, except for the one which begins an upload
-- without a lifetime.
theorem client_frames_acceptable_iff [LawfulEd25519] [Hpke] [Sha256] [ChaCha20Poly1305] [Hkdf]
    [Ed25519Seeds] [LawfulChaCha20Poly1305] :
    -- Messages
    (∀ (sender : Sender) requestId messageId plaintext ttl rng prepared,
      sender.prepare requestId messageId plaintext ttl rng = .ok prepared →
      ∀ events frame next, Runs (Sender.send prepared) events (.call (.exchange frame) next) →
        ∃ payload,
          sealMessage sender.encryptionKey sender.recipientEncryptionKey (sender.context messageId)
            plaintext rng = .ok payload ∧
          Client.Acceptable requestId
            (.send ⟨sender.queueId, sender.sender, messageId, payload, ttl⟩) frame) ∧
    (∀ (sender : Sender) bytes prepared, sender.restore bytes = .ok prepared →
      ∀ events frame next, Runs (Sender.send prepared) events (.call (.exchange frame) next) →
        ∃ send : SendRequest, send.queueId = sender.queueId ∧ send.sender = sender.sender ∧
          send.messageId = prepared.messageId ∧
          Client.Acceptable prepared.requestId (.send send) frame) ∧
    (∀ (recipient : Recipient) events frame next,
      Runs recipient.poll events (.call (.exchange frame) next) → ∃ past requestId request,
        events = past ++ [⟨.nextRequestId, requestId⟩] ∧ recipient.Means past request ∧
        Client.Acceptable requestId request frame) ∧
    -- Blobs
    (∀ (prepared : PreparedBlob) events bytes next,
      Runs (downloadBlob prepared) events (.call (.exchange bytes) next) →
      prepared.Emits events (.exchange bytes)) ∧
    (∀ bytes identity (restored : BlobUploader), BlobUploader.restore bytes identity = .ok restored →
      ∀ u, restored.Evolves u → ∀ events bytes next,
        Runs u.advance events (.call (.exchange bytes) next) → u.Emits events (.exchange bytes)) ∧
    (∀ prepared : PreparedBlob, prepared.Constructed → ∀ ttl,
      (∀ u, (prepared.uploader ttl).Evolves u → ∀ events bytes next,
        Runs u.advance events (.call (.exchange bytes) next) → u.Emits events (.exchange bytes)) ↔
      ttl ≠ 0) := by
  refine ⟨?_, ?_, ?_, ?_, ?_, ?_⟩
  · intro sender requestId messageId plaintext ttl rng prepared h events frame next hr
    obtain ⟨payload, hs, rfl⟩ := of_prepare_eq_ok h
    cases of_send hr
    exact ⟨payload, hs, acceptable_signedFrame sender.principal.symm⟩
  · intro sender bytes prepared h events frame next hr
    obtain ⟨rfl, hs⟩ := restore_eq_ok.mp h
    cases of_send hr
    exact hs
  · exact fun recipient events frame next => of_poll
  · exact fun prepared events bytes next hr => ((downloadBlob_emits prepared).runs hr).left
  · intro bytes identity restored h u he events bytes next hr
    exact ((advance_emits ((sound_of_restore h).evolves he)).runs hr).left
  · intro prepared hc ttl
    constructor
    case mp =>
      rintro h rfl
      obtain ⟨events, bytes, next, hr, hd⟩ := exists_begin_rejected hc.valid
      obtain ⟨_, _, _, ha, _⟩ := h _ .refl events bytes next hr bytes rfl
      obtain ⟨auth, ha, _⟩ := ha.decoded
      exact hd _ ha
    case mpr =>
      intro ht u he events bytes next hr
      have hs : (prepared.uploader ttl).Sound := ⟨hc.valid, ht, nofun, nofun⟩
      exact ((advance_emits (hs.evolves he)).runs hr).left

end

open Sample in
attribute [local instance] Toy.ed25519 Toy.seeds Toy.sha256 Toy.chaCha20Poly1305 Toy.hkdf
  Toy.lawfulCipher in
-- The client is given an object and no time to keep it.
theorem upload_without_lifetime_rejected :
    ∃ prepared rng', PreparedBlob.new plaintext 64 rng = .ok (prepared, rng') ∧
      ∃ events bytes next, Runs (prepared.uploader 0).advance events (.call (.exchange bytes) next) ∧
        ∀ decoded, decodeBlobRequest bytes ≠ .ok decoded := by
  obtain ⟨rng', hn⟩ := new_eq_ok
  exact ⟨prepared, rng', hn, exists_begin_rejected (PreparedBlob.Constructed.new hn).valid⟩

open Sample in
attribute [local instance] Toy.ed25519 Toy.seeds Toy.sha256 Toy.chaCha20Poly1305 Toy.hkdf
  Toy.lawfulCipher Toy.lawfulEd25519 Toy.hpke in
theorem upload_with_lifetime_accepted :
    ∃ prepared rng', PreparedBlob.new plaintext 64 rng = .ok (prepared, rng') ∧
      ∀ events bytes next, Runs (prepared.uploader 1).advance events (.call (.exchange bytes) next) →
        (prepared.uploader 1).Emits events (.exchange bytes) := by
  obtain ⟨rng', hn⟩ := new_eq_ok
  have h := client_frames_acceptable_iff.right.right.right.right.right prepared (.new hn) 1
  exact ⟨prepared, rng', hn, fun events bytes next => h.mpr (by decide) _ .refl events bytes next⟩

end Blob
end Cofferwire.Client
