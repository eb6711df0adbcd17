import Cofferwire.Client.Blob
import Cofferwire.Codec.Theorems.Blob
import Cofferwire.Crypto.Theorems.Blob

namespace Cofferwire.Client.Blob

open Codec.Blob (decodeBlobRequest decodeBlobRequest_eq_ok encodeBlobAuthenticatedRequest
  encodeBlobRequest_length_le RequestWellFormed)
open Crypto
open Reader (Reads Recognizes)

theorem pushSized_eq_some :
    pushSized bytes = some w ↔ bytes.length < 2 ^ 32 ∧ w = BigEndian.encode 4 bytes.length ++ bytes := by
  simp only [pushSized, Option.map_eq_some_iff, u32TryFrom_eq_some]
  constructor
  · rintro ⟨length, hl, rfl⟩
    exact ⟨hl ▸ length.toNat_lt, by rw [hl]⟩
  · rintro ⟨hl, rfl⟩
    have ho : (UInt32.ofNat bytes.length).toNat = bytes.length := by
      rw [UInt32.toNat_ofNat', Nat.mod_eq_of_lt hl]
    exact ⟨.ofNat bytes.length, ho.symm, by rw [ho]⟩

theorem exists_pushSized (h : bytes.length ≤ maxBlobFrameBytes) : ∃ w, pushSized bytes = some w :=
  ⟨_, pushSized_eq_some.mpr ⟨Nat.lt_of_le_of_lt h (by decide), rfl⟩⟩

theorem exists_mapM_pushSized {chunks : List Bytes}
    (h : ∀ chunk ∈ chunks, chunk.length ≤ maxBlobFrameBytes) :
    ∃ ws, chunks.mapM pushSized = some ws := by
  induction chunks
  case nil => exact ⟨[], rfl⟩
  case cons chunk chunks hi =>
    rw [List.forall_mem_cons] at h
    obtain ⟨w, hw⟩ := exists_pushSized h.left
    obtain ⟨ws, hws⟩ := hi h.right
    exact ⟨w :: ws, by simp [hw, hws]⟩

theorem decodeStage_encodeStage (h : encodeStage stage = some (tag, index))
    (hi : ∀ index, stage = .chunk index → index < count) :
    decodeStage tag index.toNat count = some stage := by
  cases stage
  case chunk i =>
    obtain ⟨v, hv, ⟨⟩⟩ := Option.map_eq_some_iff.mp h
    have hi := hi i rfl
    rw [u32TryFrom_eq_some.mp hv] at hi ⊢
    simp [decodeStage, hi]
  all_goals
    cases h
    rfl

namespace StateCursor

theorem take_recognizes (n : Nat) : Recognizes (take n) fun w bytes => w = bytes ∧ bytes.length = n :=
  .take n _

theorem byte_recognizes : Recognizes byte fun w b => w = [b] :=
  .item _

theorem ensure_recognizes (p : Prop) [Decidable p] : Recognizes (ensure p) fun w _ => w = [] ∧ p := by
  refine ((Recognizes.pure ()).ite (.throw _)).congr fun w a => ?_
  simp [and_comm]

theorem array_recognizes (n : Nat) : Recognizes (array n) fun w bytes => w = bytes.toBytes := by
  have he : array n = ByteVec.read n (fun _ => .invalidPersistedState) .invalidPersistedState := by
    refine bind_congr fun bytes => ?_
    cases ByteVec.tryFrom n bytes <;> rfl
  exact he ▸ ByteVec.read_recognizes n _ _

theorem u32_recognizes : Recognizes u32 fun w v => w = BigEndian.encode 4 v.toNat := by
  refine ((array_recognizes 4).bind fun _ => .pure _).congr fun w v => ?_
  constructor
  · rintro ⟨_, bytes, _, rfl, ⟨rfl, rfl⟩, rfl⟩
    rw [List.append_nil]
    exact (BlobManifest.ofNat_decode_eq_iff₄ bytes.size).mp rfl
  · rintro rfl
    refine ⟨_, ⟨_, BigEndian.encode_length ..⟩, [], rfl, ⟨rfl, ?_⟩, (List.append_nil _).symm⟩
    exact ((BlobManifest.ofNat_decode_eq_iff₄ (BigEndian.encode_length ..)).mpr rfl).symm

theorem u64_recognizes : Recognizes u64 fun w v => w = BigEndian.encode 8 v.toNat := by
  refine ((array_recognizes 8).bind fun _ => .pure _).congr fun w v => ?_
  constructor
  · rintro ⟨_, bytes, _, rfl, ⟨rfl, rfl⟩, rfl⟩
    rw [List.append_nil]
    exact (BlobManifest.ofNat_decode_eq_iff₈ bytes.size).mp rfl
  · rintro rfl
    refine ⟨_, ⟨_, BigEndian.encode_length ..⟩, [], rfl, ⟨rfl, ?_⟩, (List.append_nil _).symm⟩
    exact ((BlobManifest.ofNat_decode_eq_iff₈ (BigEndian.encode_length ..)).mpr rfl).symm

theorem sized_recognizes (maximum : Nat) :
    Recognizes (sized maximum) fun w bytes => bytes.length ≤ maximum ∧ pushSized bytes = some w := by
  refine (u32_recognizes.bind fun length => (Recognizes.throw _).ite (take_recognizes _)).congr
    fun w bytes => ?_
  rw [pushSized_eq_some]
  constructor
  · rintro ⟨_, length, _, rfl, ⟨_, ⟨⟩⟩ | ⟨hm, rfl, hl⟩, rfl⟩
    exact ⟨hl ▸ Nat.not_lt.mp hm, hl ▸ length.toNat_lt, by rw [hl]⟩
  · rintro ⟨hm, hl, rfl⟩
    obtain ⟨v, hv⟩ : ∃ v : UInt32, v.toNat = bytes.length :=
      ⟨.ofNat bytes.length, by rw [UInt32.toNat_ofNat', Nat.mod_eq_of_lt hl]⟩
    exact ⟨_, v, bytes, rfl, .inr ⟨Nat.not_lt.mpr (hv ▸ hm), rfl, hv.symm⟩, by rw [hv]⟩

theorem sizedMany_recognizes (maximum count : Nat) :
    Recognizes (sizedMany maximum count) fun w chunks => chunks.length = count ∧
      (∀ chunk ∈ chunks, chunk.length ≤ maximum) ∧
      ∃ ws, chunks.mapM pushSized = some ws ∧ w = ws.flatten := by
  induction count
  case zero =>
    refine (Recognizes.pure []).congr fun w chunks => ?_
    constructor
    · rintro ⟨rfl, rfl⟩
      exact ⟨rfl, nofun, [], rfl, rfl⟩
    · rintro ⟨hl, _, _, hs, rfl⟩
      cases List.length_eq_zero_iff.mp hl
      cases hs
      exact ⟨rfl, rfl⟩
  case succ count hi =>
    refine ((sized_recognizes maximum).bind fun chunk => hi.bind fun chunks => .pure (chunk :: chunks)).congr
      fun w chunks => ?_
    constructor
    · rintro ⟨w, chunk, _, ⟨hm, hw⟩, ⟨_, chunks, _, ⟨rfl, hb, ws, hs, rfl⟩, ⟨rfl, rfl⟩, rfl⟩, rfl⟩
      refine ⟨rfl, List.forall_mem_cons.mpr ⟨hm, hb⟩, w :: ws, ?_, ?_⟩
      · simp [hw, hs]
      · simp
    · rintro ⟨hl, hm, ws, hs, rfl⟩
      obtain ⟨chunk, chunks, rfl⟩ := List.exists_cons_of_length_eq_add_one hl
      rw [List.forall_mem_cons] at hm
      simp only [List.mapM_cons, Option.bind_eq_bind, Option.bind_eq_some_iff] at hs
      obtain ⟨w, hw, ws, hs, ⟨⟩⟩ := hs
      refine ⟨w, chunk, _, ⟨hm.left, hw⟩, ⟨_, chunks, [], ⟨?_, hm.right, ws, hs, rfl⟩, ⟨rfl, rfl⟩, rfl⟩, ?_⟩
      · exact Nat.succ.inj hl
      · simp

theorem take_reads (h : bytes.length = n) : Reads (take n) bytes bytes :=
  .of_recognizes (take_recognizes n) ⟨rfl, h⟩

theorem byte_reads (b : UInt8) : Reads byte [b] b :=
  .of_recognizes byte_recognizes rfl

theorem ensure_reads [Decidable p] (h : p) : Reads (ensure p) [] () :=
  .of_recognizes (ensure_recognizes p) ⟨rfl, h⟩

theorem array_reads (bytes : ByteVec n) : Reads (array n) bytes.toBytes bytes :=
  .of_recognizes (array_recognizes n) rfl

theorem u32_reads (v : UInt32) : Reads u32 (BigEndian.encode 4 v.toNat) v :=
  .of_recognizes u32_recognizes rfl

theorem u64_reads (v : UInt64) : Reads u64 (BigEndian.encode 8 v.toNat) v :=
  .of_recognizes u64_recognizes rfl

theorem sized_reads (hm : bytes.length ≤ maximum) (hs : pushSized bytes = some w) :
    Reads (sized maximum) w bytes :=
  .of_recognizes (sized_recognizes maximum) ⟨hm, hs⟩

theorem sizedMany_reads (hm : ∀ chunk ∈ chunks, chunk.length ≤ maximum)
    (hs : chunks.mapM pushSized = some ws) :
    Reads (sizedMany maximum chunks.length) ws.flatten chunks :=
  .of_recognizes (sizedMany_recognizes maximum _) ⟨rfl, hm, ws, hs, rfl⟩

end StateCursor

section Snapshot

variable [Ed25519]

-- A pending frame is checked for exactly the request of its stage.
theorem matchesStage_iff {uploader : BlobUploader} {r : BlobRequest} :
    matchesStage uploader.blob uploader.ttl uploader.stage r ↔ uploader.request = .ok r := by
  unfold BlobUploader.request
  cases uploader.stage
  case begin =>
    cases r <;> simp only [matchesStage, decide_eq_true_eq, Except.ok.injEq, reduceCtorEq,
      Bool.false_eq_true, BlobRequest.beginUpload.injEq]
    constructor
    · rintro ⟨rfl, rfl, rfl, rfl⟩
      exact ⟨rfl, rfl, rfl, rfl⟩
    · rintro ⟨rfl, rfl, rfl, rfl⟩
      exact ⟨rfl, rfl, rfl, rfl⟩
  case chunk index =>
    dsimp only
    split
    case h_1 hi =>
      cases r <;> simp only [matchesStage, decide_eq_true_eq, reduceCtorEq, Bool.false_eq_true, iff_false]
      rintro ⟨_, _, hv, _⟩
      cases hi.symm.trans (u32TryFrom_eq_some.mpr hv.symm)
    case h_2 i hi =>
      obtain rfl := u32TryFrom_eq_some.mp hi
      cases r <;> cases hc : uploader.blob.encrypted.chunks[i.toNat]? <;>
        simp only [matchesStage, decide_eq_true_eq, Except.ok.injEq, reduceCtorEq, Bool.false_eq_true,
          BlobRequest.putChunk.injEq, UInt32.toNat_inj, hc, and_false, Option.some.injEq]
      constructor
      · rintro ⟨rfl, rfl, rfl, rfl⟩
        exact ⟨rfl, rfl, rfl, rfl⟩
      · rintro ⟨rfl, rfl, rfl, rfl⟩
        exact ⟨rfl, rfl, rfl, rfl⟩
  case commit =>
    cases r <;> simp only [matchesStage, decide_eq_true_eq, Except.ok.injEq, reduceCtorEq,
      Bool.false_eq_true, BlobRequest.commit.injEq]
    constructor
    · rintro ⟨rfl, rfl, rfl⟩
      exact ⟨rfl, rfl, rfl⟩
    · rintro ⟨rfl, rfl, rfl⟩
      exact ⟨rfl, rfl, rfl⟩
  case complete => cases r <;> simp [matchesStage]

theorem BlobUploader.capability_request {uploader : BlobUploader} {r : BlobRequest}
    (hr : uploader.request = .ok r) : r.capability = capability uploader.blob.uploadKey := by
  have hm := matchesStage_iff.mpr hr
  generalize uploader.stage = stage at hm
  cases stage <;> cases r <;> simp only [matchesStage, decide_eq_true_eq, Bool.false_eq_true] at hm
  case begin.beginUpload => exact congrArg BlobCapabilities.upload hm.right.right.right
  case chunk.putChunk    => exact hm.right.left
  case commit.commit     => exact hm.right.left

theorem decode_signed (h : RequestWellFormed request) :
    decodeBlobRequest (signed key requestId request) =
      .ok ⟨⟨requestId, request, signBlobRequest key (encodeBlobAuthenticatedRequest requestId request)⟩,
        encodeBlobAuthenticatedRequest requestId request⟩ := by
  have hl : (signBlobRequest key (encodeBlobAuthenticatedRequest requestId request)).asBytes.length = 68 :=
    signProof_length
  exact decodeBlobRequest_eq_ok.mpr ⟨⟨h, hl⟩, rfl, rfl⟩

-- The bytes which a state of the uploader is read from.
structure UploadState.Layout [Ed25519Seeds] (state : UploadState) (bytes : Bytes) : Prop where
  ttl     : state.ttl ≠ 0
  bounded : ∀ chunk ∈ state.chunks, chunk.length ≤ state.manifest.chunkSize.toNat + 16
  word    : ∃ (uploadSeed downloadSeed renewSeed deleteSeed : ByteVec 32) (index count : UInt32)
    (manifest : Bytes) (chunks : List Bytes) (pending : Bytes),
    state.uploadKey = Ed25519Seeds.fromSeed uploadSeed ∧
    state.downloadKey = Ed25519Seeds.fromSeed downloadSeed ∧
    state.renewKey = Ed25519Seeds.fromSeed renewSeed ∧
    state.deleteKey = Ed25519Seeds.fromSeed deleteSeed ∧
    state.stageIndex = index.toNat ∧
    pushSized state.manifest.asBytes = some manifest ∧
    state.chunks.length = count.toNat ∧
    state.chunks.mapM pushSized = some chunks ∧
    pushSized state.pendingBytes = some pending ∧
    bytes = uploadStateMagic ++ ([uploadStateVersion] ++ (state.uploadId.asBytes.toBytes ++
      (state.objectKey.toBytes.toBytes ++ (uploadSeed.toBytes ++ (downloadSeed.toBytes ++
      (renewSeed.toBytes ++ (deleteSeed.toBytes ++ (BigEndian.encode 8 state.ttl.toNat ++
      ([state.stageTag] ++ (BigEndian.encode 4 index.toNat ++ (manifest ++
      (BigEndian.encode 4 count.toNat ++ (chunks.flatten ++ pending)))))))))))))

theorem layout_of_readUploadState [Ed25519Seeds]
    (h : readUploadState.run ⟨bytes, 0⟩ = .ok (state, c)) (hc : c.offset = bytes.length) :
    state.Layout bytes := by
  have hr : Recognizes readUploadState _ :=
    .bind (StateCursor.take_recognizes 4) fun _ =>
    .bind (StateCursor.ensure_recognizes _) fun _ =>
    .bind StateCursor.byte_recognizes fun _ =>
    .bind (StateCursor.ensure_recognizes _) fun _ =>
    .bind (StateCursor.array_recognizes 32) fun _ =>
    .bind (StateCursor.array_recognizes 32) fun _ =>
    .bind (StateCursor.array_recognizes 32) fun _ =>
    .bind (StateCursor.array_recognizes 32) fun _ =>
    .bind (StateCursor.array_recognizes 32) fun _ =>
    .bind (StateCursor.array_recognizes 32) fun _ =>
    .bind StateCursor.u64_recognizes fun _ =>
    .bind (StateCursor.ensure_recognizes _) fun _ =>
    .bind StateCursor.byte_recognizes fun _ =>
    .bind StateCursor.u32_recognizes fun _ =>
    .bind (StateCursor.sized_recognizes _) fun _ =>
    .bind (.lift _) fun manifest =>
    .bind StateCursor.u32_recognizes fun count =>
    .bind (StateCursor.ensure_recognizes _) fun _ =>
    .bind (StateCursor.sizedMany_recognizes _ _) fun _ =>
    .bind (StateCursor.sized_recognizes _) fun _ => .pure _
  -- The header
  obtain ⟨_, _, _, ⟨rfl, _⟩, h, hb⟩ := (hr.run_to_end (Nat.zero_le _)).mp ⟨c, h, hc⟩
  obtain ⟨_, _, _, ⟨rfl, rfl⟩, ⟨_, _, _, rfl, h, rfl⟩, rfl⟩ := h
  obtain ⟨_, _, _, ⟨rfl, rfl⟩, h, rfl⟩ := h
  -- The keys
  obtain ⟨_, uploadId, _, rfl, ⟨_, objectKey, _, rfl, h, rfl⟩, rfl⟩ := h
  obtain ⟨_, uploadSeed, _, rfl, ⟨_, downloadSeed, _, rfl, h, rfl⟩, rfl⟩ := h
  obtain ⟨_, renewSeed, _, rfl, ⟨_, deleteSeed, _, rfl, h, rfl⟩, rfl⟩ := h
  -- The stage
  obtain ⟨_, ttl, _, rfl, ⟨_, _, _, ⟨rfl, ht⟩, h, rfl⟩, rfl⟩ := h
  obtain ⟨_, stageTag, _, rfl, ⟨_, index, _, rfl, h, rfl⟩, rfl⟩ := h
  -- The contents of the object
  obtain ⟨m, _, _, ⟨_, hm⟩, ⟨_, manifest, _, ⟨rfl, hp⟩, h, rfl⟩, rfl⟩ := h
  cases BlobManifest.parse_eq_ok.mp (Except.mapError_eq_ok.mp hp)
  obtain ⟨_, count, _, rfl, ⟨_, _, _, ⟨rfl, _⟩, h, rfl⟩, rfl⟩ := h
  obtain ⟨_, chunks, _, ⟨hl, hs, ws, hw, rfl⟩, h, rfl⟩ := h
  obtain ⟨pending, pendingBytes, _, ⟨_, hx⟩, ⟨rfl, rfl⟩, rfl⟩ := h
  rw [List.append_nil] at hb
  exact ⟨ht, hs, uploadSeed, downloadSeed, renewSeed, deleteSeed, index, count, m, ws, pending, rfl, rfl, rfl,
    rfl, rfl, hm, hl, hw, hx, hb⟩

variable [Sha256] [ChaCha20Poly1305] [Hkdf]

-- What all prepared blobs have in common, whether they are new or restored.
structure PreparedBlob.Valid (blob : PreparedBlob) : Prop where
  blobId  : blob.encrypted.blobId = identify blob.encrypted.manifest
  bounded : ∀ chunk ∈ blob.encrypted.chunks, chunk.length ≤ blob.encrypted.manifest.chunkSize.toNat + 16
  opens   : ∃ plaintext, openBlob blob.encrypted.key blob.encrypted.blobId blob.encrypted.manifest
    blob.encrypted.chunks = .ok plaintext

-- The frame which is pending for a request under some request id.
def frame (blob : PreparedBlob) (requestId : RequestId) (request : BlobRequest) : Pending where
  requestId := requestId
  command   := request.command
  bytes     := signed blob.uploadKey requestId request

structure BlobUploader.Valid (uploader : BlobUploader) : Prop where
  blob    : uploader.blob.Valid
  ttl     : uploader.ttl ≠ 0
  stage   : ∀ index, uploader.stage = .chunk index → index < uploader.blob.encrypted.chunks.length
  pending : ∀ pending ∈ uploader.pending, ∃ requestId request,
    uploader.request = .ok request ∧ pending = frame uploader.blob requestId request

namespace PreparedBlob

variable {blob : PreparedBlob}

theorem Valid.length_chunks (h : blob.Valid) :
    blob.encrypted.chunks.length = blob.encrypted.manifest.chunkCount := by
  obtain ⟨_, ho⟩ := h.opens
  rw [BlobManifest.chunkCount, (of_openBlob_eq_ok ho).right, List.length_map]

theorem Valid.chunks_pos (h : blob.Valid) : 0 < blob.encrypted.chunks.length := by
  rw [h.length_chunks]
  exact (BlobManifest.Raw.parse_eq_ok.mp blob.encrypted.manifest.parsed).right.right.count_pos

theorem Valid.chunks_le (h : blob.Valid) : blob.encrypted.chunks.length ≤ maxChunks := by
  rw [h.length_chunks]
  exact blob.encrypted.manifest.chunkCount_le

end PreparedBlob

section Frame

variable {uploader : BlobUploader} {r : BlobRequest}

theorem wellFormed_request (hb : uploader.blob.Valid) (ht : uploader.ttl ≠ 0)
    (hr : uploader.request = .ok r) : RequestWellFormed r := by
  have hm := matchesStage_iff.mpr hr
  generalize uploader.stage = stage at hm
  cases stage <;> cases r <;> simp only [matchesStage, decide_eq_true_eq, Bool.false_eq_true] at hm
  case begin.beginUpload => exact hm.right.left ▸ ht
  case chunk.putChunk =>
    have hc := List.mem_of_getElem? hm.right.right.right
    have := uploader.blob.encrypted.manifest.chunkSize_le
    exact (hb.bounded _ hc).trans (Nat.add_le_add_right this 16)
  case commit.commit => trivial

theorem BlobUploader.Valid.wellFormed (h : uploader.Valid) (hr : uploader.request = .ok r) :
    RequestWellFormed r :=
  wellFormed_request h.blob h.ttl hr

theorem BlobUploader.Valid.decode_frame (h : uploader.Valid) (hr : uploader.request = .ok r)
    (requestId : RequestId) :
    decodeBlobRequest (frame uploader.blob requestId r).bytes =
      .ok ⟨⟨requestId, r, signBlobRequest uploader.blob.uploadKey
        (encodeBlobAuthenticatedRequest requestId r)⟩, encodeBlobAuthenticatedRequest requestId r⟩ :=
  decode_signed (h.wellFormed hr)

theorem validatePending_frame [LawfulEd25519] (h : uploader.Valid) (hr : uploader.request = .ok r)
    (requestId : RequestId) :
    validatePending uploader.blob uploader.ttl uploader.stage (frame uploader.blob requestId r).bytes =
      .ok (frame uploader.blob requestId r) := by
  have hd := h.decode_frame hr requestId
  have hv : verifyBlobRequest r.capability (encodeBlobAuthenticatedRequest requestId r)
      (signBlobRequest uploader.blob.uploadKey (encodeBlobAuthenticatedRequest requestId r)) =
      .ok () := by
    rw [BlobUploader.capability_request hr]
    exact if_pos (verifyProof_signProof _)
  simp only [validatePending, hd, hv, matchesStage_iff.mpr hr, if_true]
  rfl

theorem BlobUploader.Valid.pending_bytes (h : uploader.Valid) (hp : uploader.pending = some p) :
    p.bytes ≠ [] ∧ p.bytes.length ≤ maxBlobFrameBytes := by
  obtain ⟨requestId, r, hr, rfl⟩ := h.pending p hp
  exact ⟨nofun, encodeBlobRequest_length_le (h.wellFormed hr) signProof_length⟩

theorem BlobUploader.Valid.pending_length_le (h : uploader.Valid) :
    (uploader.pending.elim [] Pending.bytes).length ≤ maxBlobFrameBytes := by
  cases hp : uploader.pending
  case none   => exact Nat.zero_le _
  case some p => exact (h.pending_bytes hp).right

theorem BlobUploader.Valid.pending_eq_none (h : uploader.Valid) (hs : uploader.stage = .complete) :
    uploader.pending = none := by
  cases hp : uploader.pending
  case none => rfl
  case some p =>
    obtain ⟨_, _, hr, _⟩ := h.pending p hp
    rw [request, hs] at hr
    cases hr

end Frame

-- The state which is read from a snapshot.
def BlobUploader.state (uploader : BlobUploader) (stage : UInt8 × UInt32) : UploadState where
  uploadId     := uploader.blob.uploadId
  objectKey    := uploader.blob.encrypted.key
  uploadKey    := uploader.blob.uploadKey
  downloadKey  := uploader.blob.downloadKey
  renewKey     := uploader.blob.renewKey
  deleteKey    := uploader.blob.deleteKey
  ttl          := uploader.ttl
  stageTag     := stage.fst
  stageIndex   := stage.snd.toNat
  manifest     := uploader.blob.encrypted.manifest
  chunks       := uploader.blob.encrypted.chunks
  pendingBytes := uploader.pending.elim [] Pending.bytes

-- All checks are passed by the state of a valid uploader.
theorem uploader_state [LawfulEd25519] {uploader : BlobUploader} (h : uploader.Valid)
    (hs : encodeStage uploader.stage = some stage) :
    (uploader.state stage).uploader = .ok uploader := by
  obtain ⟨plaintext, ho⟩ := h.blob.opens
  have hd := decodeStage_encodeStage hs h.stage
  rw [h.blob.blobId] at ho
  have hp : (uploader.state stage).pending uploader.blob uploader.stage = .ok uploader.pending := by
    rcases hp : uploader.pending with _ | p
    · simp [UploadState.pending, BlobUploader.state, hp]
    · have hb := (h.pending_bytes hp).left
      obtain ⟨requestId, r, hr, rfl⟩ := h.pending p hp
      have hv := validatePending_frame h hr requestId
      simp only [UploadState.pending, BlobUploader.state, hp, Option.elim, List.isEmpty_iff, hb, if_false,
        hv, Except.map]
  have hn : ¬(uploader.stage = .complete ∧ uploader.pending.isSome) := by
    rintro ⟨hs, hp⟩
    rw [h.pending_eq_none hs] at hp
    cases hp
  refine Except.bind_eq_ok.mpr ⟨plaintext, Except.mapError_eq_ok.mpr ho, ?_⟩
  simp only [BlobUploader.state, ←h.blob.blobId] at hd hp ⊢
  rw [hd]
  exact Except.bind_eq_ok.mpr ⟨uploader.pending, hp, if_neg hn⟩

-- The blob of a state, as far as it has been checked.
def UploadState.blob (state : UploadState) : PreparedBlob where
  uploadId  := state.uploadId
  encrypted := {
    key      := state.objectKey
    manifest := state.manifest
    blobId   := identify state.manifest
    chunks   := state.chunks
  }
  uploadKey   := state.uploadKey
  downloadKey := state.downloadKey
  renewKey    := state.renewKey
  deleteKey   := state.deleteKey

structure UploadState.Accepted (state : UploadState) (uploader : BlobUploader) : Prop where
  opens   : ∃ plaintext, openBlob state.objectKey (identify state.manifest) state.manifest state.chunks =
    .ok plaintext
  blob    : uploader.blob = state.blob
  ttl     : uploader.ttl = state.ttl
  stage   : decodeStage state.stageTag state.stageIndex state.chunks.length = some uploader.stage
  pending : state.pending uploader.blob uploader.stage = .ok uploader.pending

theorem accepted_of_uploader {state : UploadState} {uploader : BlobUploader}
    (h : state.uploader = .ok uploader) : state.Accepted uploader := by
  obtain ⟨plaintext, ho, h⟩ := Except.bind_eq_ok.mp h
  split at h
  case h_1 => cases h
  case h_2 hs =>
    obtain ⟨_, hp, h⟩ := Except.bind_eq_ok.mp h
    obtain ⟨_, ⟨⟩⟩ := Except.ite_error_eq_ok.mp h
    exact ⟨⟨plaintext, Except.mapError_eq_ok.mp ho⟩, rfl, rfl, hs, hp⟩

variable [Ed25519Seeds]

-- A snapshot can be taken of every uploader, whatever its lifetime is.
theorem exists_encodeUploadState {uploader : BlobUploader} (hv : uploader.blob.Valid)
    (hi : ∀ index, uploader.stage = .chunk index → index < uploader.blob.encrypted.chunks.length)
    (hf : (uploader.pending.elim [] Pending.bytes).length ≤ maxBlobFrameBytes) :
    ∃ bytes, encodeUploadState uploader = some bytes := by
  have hl := hv.chunks_le
  have hs : ∃ stage, encodeStage uploader.stage = some stage := by
    cases hs : uploader.stage
    case chunk index =>
      have hi := hi index hs
      rw [maxChunks] at hl
      exact ⟨_, by rw [encodeStage, u32TryFrom, if_pos (by omega)]; rfl⟩
    all_goals exact ⟨_, rfl⟩
  obtain ⟨⟨tag, index⟩, hs⟩ := hs
  have hc : u32TryFrom uploader.blob.encrypted.chunks.length = some _ :=
    if_pos (Nat.lt_of_le_of_lt hl (by decide))
  have hb : uploader.blob.encrypted.manifest.asBytes.length ≤ maxBlobFrameBytes :=
    BlobManifest.asBytes_length_le.trans (by decide)
  obtain ⟨m, hm⟩ := exists_pushSized hb
  obtain ⟨ws, hw⟩ := exists_mapM_pushSized fun chunk hc => (hv.bounded chunk hc).trans <|
    (Nat.add_le_add_right uploader.blob.encrypted.manifest.chunkSize_le 16).trans (by decide)
  obtain ⟨p, hp⟩ := exists_pushSized hf
  exact ⟨_, by simp only [encodeUploadState, hs, hm, hc, hw, hp, bind, Option.bind]; rfl⟩

theorem exists_encode {uploader : BlobUploader} (h : uploader.Valid) :
    ∃ bytes, encodeUploadState uploader = some bytes :=
  exists_encodeUploadState h.blob h.stage h.pending_length_le

-- How a blob can be prepared.
inductive PreparedBlob.Constructed : PreparedBlob → Prop
  | new (h : PreparedBlob.new plaintext chunkSize rng = .ok (prepared, rng')) : Constructed prepared
  | restore {uploader : BlobUploader} (h : BlobUploader.restore bytes expected = .ok uploader) :
    Constructed uploader.blob

theorem of_new_eq_ok (h : PreparedBlob.new plaintext chunkSize rng = .ok (prepared, rng')) :
    ∃ stream, Sealed plaintext prepared.encrypted stream := by
  obtain ⟨⟨encrypted, rng⟩, hs, h⟩ := Except.bind_eq_ok.mp h
  cases h
  exact (of_sealBlob_eq_ok (Except.mapError_eq_ok.mp hs)).left

theorem of_restore_eq_ok {uploader : BlobUploader}
    (h : BlobUploader.restore bytes expected = .ok uploader) :
    uploader.blob.uploadIdentity = expected ∧
      ∃ state : UploadState, state.Layout bytes ∧ state.Accepted uploader := by
  obtain ⟨_, h, he⟩ := Except.bind_eq_ok.mp h
  obtain ⟨hi, ⟨⟩⟩ := Except.ite_error_eq_ok.mp he
  obtain ⟨⟨state, c⟩, hr, h⟩ := Except.bind_eq_ok.mp h
  obtain ⟨hc, h⟩ := Except.ite_error_eq_ok.mp h
  exact ⟨not_not.mp hi, state, layout_of_readUploadState hr (not_not.mp hc), accepted_of_uploader h⟩

theorem valid_of_restore {uploader : BlobUploader}
    (h : BlobUploader.restore bytes expected = .ok uploader) : uploader.blob.Valid := by
  obtain ⟨_, state, hl, ha⟩ := of_restore_eq_ok h
  rw [ha.blob]
  exact ⟨rfl, hl.bounded, ha.opens⟩

theorem PreparedBlob.Constructed.valid [LawfulChaCha20Poly1305] {blob : PreparedBlob}
    (h : Constructed blob) : blob.Valid := by
  cases h
  case new h =>
    obtain ⟨stream, hs⟩ := of_new_eq_ok h
    exact ⟨hs.blobId, fun _ hc => Nat.le_of_eq (hs.length_chunk hc), _, hs.openBlob_eq⟩
  case restore h => exact valid_of_restore h

-- All keys of the blob are given by their seeds.
structure PreparedBlob.Seeded (blob : PreparedBlob) : Prop where
  upload   : Ed25519Seeds.fromSeed (Ed25519Seeds.toSeed blob.uploadKey) = blob.uploadKey
  download : Ed25519Seeds.fromSeed (Ed25519Seeds.toSeed blob.downloadKey) = blob.downloadKey
  renew    : Ed25519Seeds.fromSeed (Ed25519Seeds.toSeed blob.renewKey) = blob.renewKey
  delete   : Ed25519Seeds.fromSeed (Ed25519Seeds.toSeed blob.deleteKey) = blob.deleteKey

theorem readUploadState_reads {uploader : BlobUploader} (hv : uploader.Valid) (hk : uploader.blob.Seeded)
    (h : encodeUploadState uploader = some bytes) :
    ∃ stage, encodeStage uploader.stage = some stage ∧
      Reads readUploadState bytes (uploader.state stage) := by
  simp only [encodeUploadState, Option.bind_eq_bind, Option.bind_eq_some_iff] at h
  obtain ⟨⟨tag, index⟩, ht, m, hm, count, hc, chunks, hs, pending, hx, h⟩ := h
  cases h
  refine ⟨(tag, index), ht, ?_⟩
  simp only [List.append_assoc]
  unfold readUploadState
  refine (StateCursor.take_reads (rfl : uploadStateMagic.length = 4)).bind ?_
  refine (StateCursor.ensure_reads rfl).bind_nil ?_
  refine (StateCursor.byte_reads _).bind ?_
  refine (StateCursor.ensure_reads rfl).bind_nil ?_
  refine (StateCursor.array_reads _).bind ?_
  refine (StateCursor.array_reads _).bind ?_
  refine (StateCursor.array_reads _).bind ?_
  refine (StateCursor.array_reads _).bind ?_
  refine (StateCursor.array_reads _).bind ?_
  refine (StateCursor.array_reads _).bind ?_
  refine (StateCursor.u64_reads _).bind ?_
  refine (StateCursor.ensure_reads hv.ttl).bind_nil ?_
  refine (StateCursor.byte_reads _).bind ?_
  refine (StateCursor.u32_reads _).bind ?_
  refine (StateCursor.sized_reads ?_ hm).bind ?_
  · exact BlobManifest.asBytes_length_le.trans (by decide)
  rw [BlobManifest.parse_eq_ok.mpr rfl]
  refine (Reads.pure _).bind_nil ?_
  refine (StateCursor.u32_reads _).bind ?_
  rw [←u32TryFrom_eq_some.mp hc]
  refine (StateCursor.ensure_reads ⟨hv.blob.length_chunks, hv.blob.chunks_le⟩).bind_nil ?_
  refine (StateCursor.sizedMany_reads hv.blob.bounded hs).bind ?_
  simp only [hk.upload, hk.download, hk.renew, hk.delete]
  exact (StateCursor.sized_reads hv.pending_length_le hx).map fun pendingBytes =>
    { uploader.state (tag, index) with pendingBytes }

variable [LawfulEd25519] {uploader : BlobUploader}

theorem PreparedBlob.Seeded.restore_encode (hk : uploader.blob.Seeded) (h : uploader.Valid)
    (he : encodeUploadState uploader = some bytes) :
    BlobUploader.restore bytes uploader.blob.uploadIdentity = .ok uploader := by
  obtain ⟨stage, hs, hr⟩ := readUploadState_reads h hk he
  have hd : decodeUploadState bytes = .ok uploader := by
    simp only [decodeUploadState, hr.run_all, bind, Except.bind, ne_eq, not_true, if_false]
    exact uploader_state h hs
  simp only [BlobUploader.restore, hd, bind, Except.bind, ne_eq, not_true, if_false]

theorem restore_encode [LawfulEd25519Seeds] (h : uploader.Valid)
    (he : encodeUploadState uploader = some bytes) :
    BlobUploader.restore bytes uploader.blob.uploadIdentity = .ok uploader :=
  have hk (key : Ed25519.SigningKey) := LawfulEd25519Seeds.fromSeed_toSeed key
  PreparedBlob.Seeded.restore_encode ⟨hk _, hk _, hk _, hk _⟩ h he

end Snapshot
end Cofferwire.Client.Blob
