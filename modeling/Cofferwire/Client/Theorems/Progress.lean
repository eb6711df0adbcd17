import Cofferwire.Client.Theorems.Availability
import Cofferwire.Relay.Theorems.BlobProgress

namespace Cofferwire.Client.Blob

open Codec.Blob (DecodedBlobRequest decodeBlobRequest decodeBlobResponse encodeBlobAuthenticatedRequest
  request_eq_of_authenticatedBytes_eq requestId_eq_of_authenticatedBytes_eq RequestWellFormed)
open Crypto
open DurableRelay (Uploading UploadRow executeBlobRequest uploadChunk)
open RelayService (AdmissibleBlob Answers Input Performs blobCall blobTables blobTables_cases
  blobTables_valid)

section Stages

variable [Ed25519] {prepared : PreparedBlob}

theorem matchesStage_unique (h : matchesStage prepared ttl stage request)
    (h' : matchesStage prepared ttl stage' request) : stage = stage' := by
  cases stage <;> cases stage' <;> cases request <;>
    simp only [matchesStage, decide_eq_true_eq, Bool.false_eq_true] at h h'
  case begin.begin.beginUpload => rfl
  case commit.commit.commit    => rfl
  case chunk.chunk.putChunk    => rw [←h.right.right.left, ←h'.right.right.left]

omit [Ed25519] in
theorem UploadStage.Follows.rank_succ {stage stage' : UploadStage} (h : stage.Follows count stage') :
    stage'.rank count = stage.rank count + 1 := by
  cases h
  case begin  => rfl
  case chunk  => rfl
  case last h => exact congrArg (· + 1) h.symm
  case commit => rfl

theorem wellFormed_of_matchesStage [Sha256] [ChaCha20Poly1305] [Hkdf] (hp : prepared.Valid) (ht : ttl ≠ 0)
    (h : matchesStage prepared ttl stage request) : RequestWellFormed request := by
  let u : BlobUploader := { blob := prepared, ttl, stage, pending := none }
  have hr : u.request = .ok request := matchesStage_iff.mp h
  exact wellFormed_request hp ht hr

theorem capability_of_matchesStage (h : matchesStage prepared ttl stage request) :
    request.capability = prepared.capabilities.upload := by
  let u : BlobUploader := { blob := prepared, ttl, stage, pending := none }
  have hr : u.request = .ok request := matchesStage_iff.mp h
  exact BlobUploader.capability_request hr

end Stages

section Relay

variable [Profile] [Ed25519] [Sha256] {prepared : PreparedBlob} {inputs : Nat → Input}

-- The `n`-th input is a frame which is signed with the key for the upload.
structure Arrives (prepared : PreparedBlob) (inputs : Nat → Input) (n : Nat) (bytes : Bytes)
    (now : Timestamp) (decoded : DecodedBlobRequest) : Prop where
  input      : ∃ fault, inputs n = .exchangeBlob bytes now fault
  admissible : AdmissibleBlob bytes decoded
  capability : decoded.frame.request.capability = prepared.capabilities.upload

-- What an upload needs of its environment.
structure Fair (prepared : PreparedBlob) (ttl : UInt64) (inputs : Nat → Input) : Prop where
  -- The time at which the upload expires is representable.
  lease    : ∀ n bytes now decoded, Arrives prepared inputs n bytes now decoded →
    matchesStage prepared ttl .begin decoded.frame.request → now.toNat + ttl.toNat < 2 ^ 64
  -- All of its frames arrive before it expires.
  timely   : ∀ n bytes now decoded, Arrives prepared inputs n bytes now decoded →
    ∀ row ∈ (blobTables inputs n).uploads, row.uploadId = prepared.uploadId.asBytes →
      now < fromBeBytes row.expiresAt
  -- They have different request identifiers.
  unique   : ∀ n k bytes bytes' now now' decoded decoded', Arrives prepared inputs n bytes now decoded →
    Arrives prepared inputs k bytes' now' decoded' →
    decoded.frame.requestId = decoded'.frame.requestId → bytes = bytes'
  -- Nobody else begins an upload with the same identifier.
  reserved : ∀ n, ∀ row ∈ (blobTables inputs n).uploads, row.uploadId = prepared.uploadId.asBytes →
    row.uploadCap = prepared.capabilities.upload.asBytes
  -- There is no other object with the same identity.
  distinct : ∀ n, ∀ object ∈ (blobTables inputs n).objects,
    object.blobId = prepared.encrypted.blobId.asBytes →
    object.manifest = prepared.encrypted.manifest.asBytes

-- What the relay holds before the `n`-th input once the stages below a rank are done.
structure Stored (prepared : PreparedBlob) (inputs : Nat → Input) (n rank : Nat) : Prop where
  begun  : 0 < rank → ∃ expiry, Uploading (blobTables inputs n) prepared.uploadId prepared.capabilities
    prepared.encrypted.manifest expiry
  chunks : ∀ index < prepared.encrypted.chunks.length, index + 1 < rank →
    (uploadChunk (blobTables inputs n) prepared.uploadId (.ofNat index)).isSome

namespace Stored

theorem succ (h : Stored prepared inputs n rank) :
    Stored prepared inputs (n + 1) rank := by
  obtain he | ⟨_, _, _, _, _, _, hs⟩ := blobTables_cases inputs n
  · exact ⟨fun hr => he ▸ h.begun hr, fun i hi hr => he ▸ h.chunks i hi hr⟩
  · refine ⟨fun hr => ?_, fun i hi hr => hs.step.uploadChunk_isSome (h.chunks i hi hr)⟩
    obtain ⟨expiry, hu⟩ := h.begun hr
    exact ⟨expiry, hs.step.uploading (blobTables_valid inputs n) hu⟩

theorem mono (h : Stored prepared inputs n rank) (hn : n ≤ k) :
    Stored prepared inputs k rank := by
  induction hn
  case refl    => exact h
  case step hi => exact hi.succ

theorem anti (h : Stored prepared inputs n rank) (hr : rank' ≤ rank) :
    Stored prepared inputs n rank' :=
  ⟨fun hp => h.begun (by omega), fun i hi hp => h.chunks i hi (by omega)⟩

theorem begin (he : executeBlobRequest (.beginUpload prepared.uploadId prepared.capabilities
      prepared.encrypted.manifest ttl) now (blobTables inputs n) =
        .ok (body, blobTables inputs (n + 1))) : Stored prepared inputs (n + 1) 1 := by
  obtain ⟨⟨_, _⟩, hb, he⟩ := Except.bind_eq_ok.mp he
  obtain ⟨_, ht⟩ := Prod.mk.inj (Except.ok.inj he)
  obtain ⟨expiry, hu⟩ := DurableRelay.uploading_of_begin hb
  exact ⟨fun _ => ⟨expiry, ht ▸ hu⟩, fun i _ hi => by omega⟩

theorem put (h : Stored prepared inputs n (index.toNat + 1))
    (he : executeBlobRequest (.putChunk prepared.uploadId cap index ciphertext) now
      (blobTables inputs n) = .ok (body, blobTables inputs (n + 1))) :
    Stored prepared inputs (n + 1) (index.toNat + 2) := by
  refine ⟨fun _ => h.succ.begun (by omega), fun i hl hr => ?_⟩
  by_cases hi : i = index.toNat
  case neg => exact h.succ.chunks i hl (by omega)
  case pos =>
    obtain ⟨⟨_, _⟩, hp, he⟩ := Except.bind_eq_ok.mp he
    obtain ⟨_, ht⟩ := Prod.mk.inj (Except.ok.inj he)
    rw [hi, UInt32.ofNat_toNat, ←ht]
    exact DurableRelay.uploadChunk_of_put hp

-- A request which succeeds completes its stage.
theorem advance (h : Stored prepared inputs n (stage.rank prepared.encrypted.chunks.length))
    (hm : matchesStage prepared ttl stage request)
    (he : executeBlobRequest request now (blobTables inputs n) =
      .ok (body, blobTables inputs (n + 1)))
    (hf : stage.Follows prepared.encrypted.chunks.length stage') :
    Stored prepared inputs (n + 1) (stage'.rank prepared.encrypted.chunks.length) := by
  rw [hf.rank_succ]
  cases hf <;> cases request <;> simp only [matchesStage, decide_eq_true_eq, Bool.false_eq_true] at hm
  case begin.beginUpload =>
    obtain ⟨rfl, rfl, rfl, rfl⟩ := hm
    exact .begin he
  case chunk.putChunk =>
    obtain ⟨rfl, _, rfl, _⟩ := hm
    exact h.put he
  case last.putChunk =>
    obtain ⟨rfl, _, rfl, _⟩ := hm
    exact h.put he
  case commit.commit =>
    refine ⟨fun _ => h.succ.begun (Nat.succ_pos _), fun i hl _ => h.succ.chunks i hl ?_⟩
    exact Nat.succ_lt_succ hl

end Stored

namespace Fair

variable (hf : Fair prepared ttl inputs) (hp : Arrives prepared inputs n bytes now decoded)
include hf hp

theorem leaseExpiry (ht : ttl ≠ 0) (hm : matchesStage prepared ttl .begin decoded.frame.request) :
    ∃ expiry, DurableRelay.leaseExpiry now ttl = .ok expiry := by
  have hl := hf.lease n bytes now decoded hp hm
  have ht : ttl > 0 := UInt64.pos_iff_ne_zero.mpr ht
  refine ⟨now + ttl, DurableRelay.leaseExpiry_eq_ok.mpr ⟨ht, checkedAdd_eq_some.mpr ?_⟩⟩
  rw [UInt64.toNat_add, Nat.mod_eq_of_lt hl]

theorem live (hu : Uploading (blobTables inputs n) prepared.uploadId caps manifest expiry) :
    now < expiry := by
  obtain ⟨row, hm, hr⟩ := hu
  have hl := hf.timely n bytes now decoded hp row hm (congrArg UploadRow.uploadId hr)
  rw [show row.expiresAt = toBeBytes expiry from congrArg UploadRow.expiresAt hr] at hl
  rwa [fromBeBytes_toBeBytes] at hl

end Fair

section Execution

variable [ChaCha20Poly1305] [Hkdf] [LawfulChaCha20Poly1305]
  (hs : Sealed plaintext prepared.encrypted stream)
include hs

omit [Profile] in
theorem fits_chunk {index : UInt32} (hc : prepared.encrypted.chunks[index.toNat]? = some chunk) :
    DurableRelay.Fits prepared.encrypted.manifest index chunk where
  size   := hs.length_chunk (List.mem_of_getElem? hc)
  digest := by rw [BlobManifest.digest, hs.digests, List.getElem?_map, hc]; rfl

variable (hi : Set.InjOn Sha256.digest (ciphertexts prepared inputs))
include hi

-- Chunks which have been staged before are the prepared ones.
theorem staged_eq (hu : Uploading (blobTables inputs n) prepared.uploadId prepared.capabilities
      prepared.encrypted.manifest expiry)
    (hc : prepared.encrypted.chunks[index.toNat]? = some chunk)
    (hr : uploadChunk (blobTables inputs n) prepared.uploadId index = some row) :
    row.ciphertext = chunk := by
  have hv := blobTables_valid inputs n
  obtain ⟨hm, ho, rfl⟩ := DurableRelay.of_uploadChunk_eq_some hr
  obtain ⟨upload, hw, hk, _, hp, hf⟩ := hv.staged row hm
  obtain ⟨upload', hw', he⟩ := hu
  have hk' : upload'.uploadId = prepared.uploadId.asBytes := congrArg UploadRow.uploadId he
  have hm' : upload'.manifest = prepared.encrypted.manifest.asBytes := congrArg UploadRow.manifest he
  obtain rfl := hv.keyed.uploads.eq hw hw' (hk.trans (ho.trans hk'.symm))
  rw [hm'] at hp
  cases hp.symm.trans (BlobManifest.parse_eq_ok.mpr rfl)
  have hd := Option.some.inj (hf.digest.symm.trans (fits_chunk hs hc).digest)
  exact hi (uploadChunks_received hm) (.inl (List.mem_of_getElem? hc)) hd

-- If all stages before are done, a request succeeds. An upload cannot begin twice.
theorem Stored.executes (h : Stored prepared inputs n
      (stage.rank prepared.encrypted.chunks.length)) (hf : Fair prepared ttl inputs)
    (hp : Arrives prepared inputs n bytes now decoded)
    (hm : matchesStage prepared ttl stage decoded.frame.request) (ht : ttl ≠ 0)
    (hn : stage = .begin → DurableRelay.upload (blobTables inputs n) prepared.uploadId = none) :
    ∃ body tables, stage.Body body ∧
      executeBlobRequest decoded.frame.request now (blobTables inputs n) = .ok (body, tables) := by
  have hv := blobTables_valid inputs n
  have hl (hb : stage = .begin) := hf.leaseExpiry hp ht (hb ▸ hm)
  generalize decoded.frame.request = request at hm
  cases stage <;> cases request <;> simp only [matchesStage, decide_eq_true_eq, Bool.false_eq_true] at hm
  case begin.beginUpload =>
    obtain ⟨rfl, rfl, rfl, rfl⟩ := hm
    obtain ⟨expiry, hl⟩ := hl rfl
    obtain ⟨tables, he⟩ := DurableRelay.beginBlobUploadTx_new (hn rfl) hl
    exact ⟨_, tables, .begin, Except.bind_eq_ok.mpr ⟨_, he, rfl⟩⟩
  case chunk.putChunk =>
    obtain ⟨rfl, rfl, rfl, hc⟩ := hm
    obtain ⟨expiry, hu⟩ := h.begun (Nat.succ_pos _)
    obtain ⟨outcome, tables, he⟩ := hu.put hv (hf.live hp hu) (fits_chunk hs hc) fun _ hr =>
      staged_eq hs hi hu hc hr
    exact ⟨_, tables, .chunk, Except.bind_eq_ok.mpr ⟨_, he, rfl⟩⟩
  case commit.commit =>
    obtain ⟨rfl, rfl, rfl⟩ := hm
    obtain ⟨expiry, hu⟩ := h.begun (Nat.succ_pos _)
    have hc (i) (hl : i < prepared.encrypted.manifest.chunkCount) :
        (uploadChunk (blobTables inputs n) prepared.uploadId (.ofNat i)).isSome := by
      rw [BlobManifest.chunkCount, hs.digests, List.length_map] at hl
      exact h.chunks i hl (Nat.succ_lt_succ hl)
    have hb : prepared.encrypted.blobId = DurableRelay.identify prepared.encrypted.manifest := hs.blobId
    rw [hb]
    obtain ⟨expiry, tables, he⟩ := hu.commit hv (hf.live hp hu) hc (hb ▸ hf.distinct n)
    exact ⟨_, tables, .commit, Except.bind_eq_ok.mpr ⟨_, he, rfl⟩⟩

end Execution

-- The `n`-th input is a request which begins an upload.
def Begins (inputs : Nat → Input) (n : Nat) (row : UploadRow) : Prop :=
  ∃ bytes t fault decoded response, inputs n = .exchangeBlob bytes t fault ∧
    AdmissibleBlob bytes decoded ∧ Performs inputs n (blobCall bytes t decoded) response ∧
    ∃ caps manifest ttl, decoded.frame.request = .beginUpload ⟨row.uploadId⟩ caps manifest ttl ∧
      caps.upload.asBytes = row.uploadCap

theorem exists_begins {row : UploadRow} (hr : row ∈ (blobTables inputs n).uploads) :
    ∃ m < n, Begins inputs m row := by
  induction n generalizing row
  case zero => cases hr
  case succ n hi =>
    have hi {row} (hr : row ∈ (blobTables inputs n).uploads) : ∃ m < n + 1, Begins inputs m row := by
      obtain ⟨m, hm, h⟩ := hi hr
      exact ⟨m, Nat.lt_succ_of_lt hm, h⟩
    obtain he | ⟨call, response, hp⟩ := RelayService.database_cases inputs n
    · exact hi (congrArg (·.store.blob.uploads) he ▸ hr)
    cases hc : call.ns
    case queue =>
      obtain ⟨_, _, _, _, _, ⟨_, he⟩ | ⟨_, _, _, _, he⟩⟩ := hp.of_queue hc
      all_goals exact hi (congrArg (·.blob.uploads) he ▸ hr)
    case blob =>
      obtain ⟨bytes, t, fault, decoded, hi', ha, rfl⟩ := hp.of_blobCall hc
      obtain ⟨_, _, _, hi'', ha', ⟨_, he⟩ | ⟨body, tables, hx, _, he⟩⟩ := hp.of_blob hc
      · exact hi (congrArg (·.blob.uploads) he ▸ hr)
      · cases hi'.symm.trans hi''
        cases ha.decode.symm.trans ha'.decode
        have ht : blobTables inputs (n + 1) = tables := congrArg (·.blob) he
        have hk := DurableRelay.executeBlobRequest_change hx
        obtain hr | ⟨_, caps, manifest, ttl, _, hq, rfl⟩ | ⟨row', _, hq, _, rfl, _⟩ :=
          hk.cases_upload (blobTables_valid inputs n) (ht ▸ hr)
        · exact hi hr
        · exact ⟨n, Nat.lt_succ_self n, bytes, t, fault, decoded, response, hi', ha, hp, caps, manifest,
            ttl, hq, rfl⟩
        · have hm : row' ∈ (blobTables inputs n).uploads := hq.mem
          exact show ∃ m < n + 1, Begins inputs m row' from hi hm

end Relay

section Advance

variable [Ed25519] {u : BlobUploader} {events : List interface.Event}

theorem nextStage_of_confirmed (h : pending.Confirmed u.stage response) :
    ∃ result, u.nextStage pending response = .ok result := by
  obtain ⟨body, hb, hd⟩ := h
  have ho : BlobStatus.ok.isOk := rfl
  unfold BlobUploader.nextStage
  simp only [hd, ne_eq, not_true_eq_false, or_self, if_false, ho]
  generalize u.stage = stage at hb
  cases hb
  all_goals exact ⟨_, rfl⟩

variable [Ed25519Seeds]

-- Once there is a response, no further frame is sent.
theorem not_runs_finish {next : interface.Result (.exchange bytes) → _} :
    ¬Program.Runs (u.finish pending response) events (.call (.exchange bytes) next) := by
  intro h
  cases hn : u.nextStage pending response
  case error e =>
    unfold BlobUploader.finish at h
    rw [hn] at h
    cases h
  case ok result =>
    rw [finish_eq hn, BlobUploader.persist] at h
    split at h
    case h_1 => cases h
    case h_2 =>
      cases h
      case step _ r h => rcases r with e | ⟨⟩ <;> cases h

theorem of_runs_send {next : interface.Result (.exchange bytes) → _} (hp : u.pending = some pending)
    (h : Program.Runs u.send events (.call (.exchange bytes) next)) :
    bytes = pending.bytes ∧
      ∀ response, next (.ok response : Except TransportError Bytes) = u.finish pending response := by
  unfold BlobUploader.send BlobUploader.persist at h
  cases he : encodeUploadState u
  case none =>
    rw [he] at h
    cases h
  case some state =>
    simp only [he, hp] at h
    cases h
    case step _ r h =>
      rcases r with e | ⟨⟩
      · cases h
      · cases h
        case refl => exact ⟨rfl, fun _ => rfl⟩
        case step _ r h =>
          rcases r with e | response
          · cases h
          · exact absurd h (not_runs_finish)

variable [Sha256] [ChaCha20Poly1305] [Hkdf]

theorem of_runs_advance {next : interface.Result (.exchange bytes) → _} (hv : u.Valid)
    (h : Program.Runs u.advance events (.call (.exchange bytes) next)) :
    ∃ v : BlobUploader, v.Valid ∧ v.blob = u.blob ∧ v.stage = u.stage ∧ ∃ pending,
      v.pending = some pending ∧ pending.bytes = bytes ∧
      ∀ response, next (.ok response : Except TransportError Bytes) = v.finish pending response := by
  unfold BlobUploader.advance at h
  split at h
  case isTrue => cases h
  case isFalse hs =>
    split at h
    case isTrue hp =>
      obtain ⟨pending, hp⟩ := Option.isSome_iff_exists.mp hp
      obtain ⟨rfl, hf⟩ := of_runs_send hp h
      exact ⟨u, hv, rfl, rfl, pending, hp, rfl, hf⟩
    case isFalse =>
      obtain ⟨request, hr⟩ := hv.exists_request hs
      rw [hr] at h
      cases h
      case step requestId events h =>
        obtain ⟨rfl, hf⟩ := of_runs_send rfl h
        exact ⟨_, hv.prepare hr, rfl, rfl, _, rfl, rfl, hf⟩

end Advance

section Session

variable [Ed25519] [Sha256] [ChaCha20Poly1305] [Hkdf] {prepared : PreparedBlob}

-- A frame which carries the request of a stage.
def IsFrame (prepared : PreparedBlob) (ttl : UInt64) (stage : UploadStage) (bytes : Bytes) : Prop :=
  ∃ requestId request, matchesStage prepared ttl stage request ∧
    bytes = signed prepared.uploadKey requestId request

theorem IsFrame.decode (h : IsFrame prepared ttl stage bytes) (hp : prepared.Valid) (ht : ttl ≠ 0) :
    ∃ decoded, decodeBlobRequest bytes = .ok decoded ∧
      matchesStage prepared ttl stage decoded.frame.request := by
  obtain ⟨requestId, request, hm, rfl⟩ := h
  exact ⟨_, decode_signed (wellFormed_of_matchesStage hp ht hm), hm⟩

theorem IsFrame.unique (h : IsFrame prepared ttl stage bytes) (h' : IsFrame prepared ttl stage' bytes)
    (hp : prepared.Valid) (ht : ttl ≠ 0) : stage = stage' := by
  obtain ⟨decoded, hd, hm⟩ := h.decode hp ht
  obtain ⟨_, hd', hm'⟩ := h'.decode hp ht
  cases hd.symm.trans hd'
  exact matchesStage_unique hm hm'

theorem IsFrame.arrives [Profile] [LawfulEd25519] {inputs : Nat → Input}
    (h : IsFrame prepared ttl stage bytes) (hp : prepared.Valid) (ht : ttl ≠ 0)
    (hi : (inputs n).frame = some (.blob, bytes, now)) :
    ∃ decoded, Arrives prepared inputs n bytes now decoded := by
  obtain ⟨requestId, request, hm, rfl⟩ := h
  have hw := wellFormed_of_matchesStage hp ht hm
  have hc := capability_of_matchesStage hm
  refine ⟨_, ?_, admissible_signed hw hc requestId, hc⟩
  generalize inputs n = input at hi
  cases input <;> cases hi
  exact ⟨_, rfl⟩

namespace Process

-- The process waits for the response to a frame.
def Awaits (p : Process) (stage : UploadStage) (bytes : Bytes) : Prop :=
  ∃ next, p.memory = .running stage (.call (.exchange bytes) next)

variable [Ed25519Seeds] {p : Process} {stage : UploadStage}

theorem Invariant.isFrame (h : p.Invariant prepared ttl trace) (ha : p.Awaits stage bytes) :
    IsFrame prepared ttl stage bytes := by
  obtain ⟨next, hm⟩ := ha
  rw [Invariant, hm] at h
  obtain ⟨⟨disk, hd, _, u, hu, rfl, pending, hp, rfl⟩, _⟩ := h
  cases hu
  generalize p.durable = d at hd
  cases hd
  case snapshot hv hb ht _ =>
    obtain ⟨requestId, request, hr, rfl⟩ := hv.pending pending hp
    exact ⟨requestId, request, hb ▸ ht ▸ matchesStage_iff.mpr hr, hb ▸ rfl⟩

-- The response to the frame may get lost.
theorem Invariant.lose (h : p.Invariant prepared ttl trace) (ha : p.Awaits stage bytes) :
    ∃ disk, Disk prepared ttl p.durable disk ∧
      Consistent prepared (trace ++ [(stage, ⟨.exchange bytes, .error .mk⟩)]) disk := by
  obtain ⟨next, hm⟩ := ha
  rw [Invariant, hm] at h
  have hl : Invariant prepared ttl (trace ++ [(stage, ⟨.exchange bytes, .error .mk⟩)])
      ⟨.running stage (next (.error .mk : Except TransportError Bytes)), p.durable⟩ :=
    h.right (.error .mk : Except TransportError Bytes)
  exact hl.consistent

-- As a crash loses the response to a frame, every step away from an exchange adds an event for it.
theorem Step.completes [LawfulEd25519] [LawfulEd25519Seeds] {p' : Process}
    (hs : Step prepared.uploadIdentity p events p') (h : p.Invariant prepared ttl trace) :
    ∃ events', p'.Invariant prepared ttl (trace ++ events') ∧
      (∀ stage bytes response, (stage, ⟨.exchange bytes, .ok response⟩) ∈ events' →
        (stage, ⟨.exchange bytes, .ok response⟩) ∈ events) ∧
      (∀ stage bytes r, (stage, ⟨.exchange bytes, r⟩) ∈ events' → p.Awaits stage bytes) ∧
      ∀ stage bytes, p.Awaits stage bytes → ∃ r, (stage, ⟨.exchange bytes, r⟩) ∈ events' := by
  by_cases hc : (∃ stage bytes, p.Awaits stage bytes) ∧ p'.memory = .crashed
  case pos =>
    obtain ⟨⟨stage, bytes, ha⟩, hc⟩ := hc
    refine ⟨[(stage, ⟨.exchange bytes, .error .mk⟩)], ?_, fun _ _ _ hm => ?_, fun _ _ _ hm => ?_,
      fun _ _ ha' => ?_⟩
    · rw [Invariant, hc]
      cases hs <;> cases hc
      exact h.lose ha
    · cases List.mem_singleton.mp hm
    · cases List.mem_singleton.mp hm
      exact ha
    · obtain ⟨_, hm⟩ := ha
      obtain ⟨_, hm'⟩ := ha'
      cases hm.symm.trans hm'
      exact ⟨_, .head _⟩
  case neg =>
    refine ⟨events, hs.invariant h, fun _ _ _ hm => hm, fun stage bytes r hm => ?_,
      fun stage bytes ha => ?_⟩
    · cases hs
      case call =>
        cases List.mem_singleton.mp hm
        exact ⟨_, rfl⟩
      all_goals cases hm
    · have hn : p'.memory ≠ .crashed := fun hm => hc ⟨⟨stage, bytes, ha⟩, hm⟩
      obtain ⟨next, hm⟩ := ha
      cases hs <;> cases hm
      case call.refl  => exact ⟨_, .head _⟩
      case crash.refl => exact absurd rfl hn

end Process

namespace Session

variable [Ed25519Seeds] {s : Session} {trace : Trace}

-- All frames which have been sent, where those whose responses are still missing count as lost.
structure Sends (prepared : PreparedBlob) (ttl : UInt64) (s : Session) (trace : Trace) : Prop where
  process : s.process.Invariant prepared ttl trace
  frames  : ∀ stage bytes r, (stage, ⟨.exchange bytes, r⟩) ∈ trace → IsFrame prepared ttl stage bytes
  sent    : ∀ bytes ∈ s.sent, (∃ stage r, (stage, ⟨.exchange bytes, r⟩) ∈ trace) ∨
    ∃ stage, s.process.Awaits stage bytes

namespace Sends

theorem complete (h : Sends prepared ttl s trace) :
    ∃ trace' disk, Disk prepared ttl s.process.durable disk ∧ Consistent prepared trace' disk ∧
      (∀ stage bytes r, (stage, ⟨.exchange bytes, r⟩) ∈ trace' → IsFrame prepared ttl stage bytes) ∧
      ∀ bytes ∈ s.sent, ∃ stage r, (stage, ⟨.exchange bytes, r⟩) ∈ trace' := by
  by_cases ha : ∃ stage bytes, s.process.Awaits stage bytes
  case neg =>
    obtain ⟨disk, hd, hc⟩ := h.process.consistent
    refine ⟨trace, disk, hd, hc, h.frames, fun bytes hb => ?_⟩
    exact (h.sent bytes hb).resolve_right fun ⟨stage, hw⟩ => ha ⟨stage, bytes, hw⟩
  case pos =>
    obtain ⟨stage, bytes, ha⟩ := ha
    obtain ⟨disk, hd, hc⟩ := h.process.lose ha
    refine ⟨_, disk, hd, hc, fun stage' bytes' r hm => ?_, fun bytes' hb => ?_⟩
    · rcases List.mem_append.mp hm with hm | hm
      · exact h.frames _ _ _ hm
      · cases List.mem_singleton.mp hm
        exact h.process.isFrame ha
    · obtain ⟨stage', r, hm⟩ | ⟨stage', next, hm⟩ := h.sent bytes' hb
      · exact ⟨stage', r, List.mem_append_left _ hm⟩
      · obtain ⟨next', hm'⟩ := ha
        cases hm.symm.trans hm'
        exact ⟨stage, _, List.mem_append_right _ (.head _)⟩

variable [LawfulEd25519] [LawfulEd25519Seeds]

-- The frames which have been sent belong to the current stage or to those before.
theorem exists_stage (h : Sends prepared ttl s trace) (hb : bytes ∈ s.sent) :
    ∃ stage, IsFrame prepared ttl stage bytes ∧ stage.rank prepared.encrypted.chunks.length ≤
      (s.process.stage prepared.uploadIdentity).rank prepared.encrypted.chunks.length := by
  obtain ⟨trace', disk, hd, hc, hf, hs⟩ := h.complete
  obtain ⟨stage, r, hm⟩ := hs bytes hb
  refine ⟨stage, hf _ _ _ hm, ?_⟩
  rw [Process.stage_eq hd]
  obtain ⟨u, hu, hr | ⟨rfl, _⟩⟩ := hc.sent _ _ _ hm
  all_goals cases hu
  · exact Nat.le_of_lt hr
  · exact Nat.le_refl _

omit [LawfulEd25519] [LawfulEd25519Seeds] in
-- There is only one frame for each stage.
theorem unique (h : Sends prepared ttl s trace) (hp : prepared.Valid) (ht : ttl ≠ 0)
    (hb : bytes ∈ s.sent) (hb' : bytes' ∈ s.sent) (hf : IsFrame prepared ttl stage bytes)
    (hf' : IsFrame prepared ttl stage bytes') : bytes = bytes' := by
  obtain ⟨trace', disk, _, hc, hl, hs⟩ := h.complete
  obtain ⟨stage₁, r, hm⟩ := hs bytes hb
  obtain ⟨stage₂, r', hm'⟩ := hs bytes' hb'
  obtain rfl := (hl _ _ _ hm).unique hf hp ht
  obtain rfl := (hl _ _ _ hm').unique hf' hp ht
  exact hc.same _ _ _ _ _ hm hm'

end Sends

section Progressing

variable [Profile] {inputs : Nat → Input} {s' : Session}

-- The `n`-th input is a frame of the upload which was sent when all stages before were done.
def InOrder (prepared : PreparedBlob) (ttl : UInt64) (inputs : Nat → Input)
    (sent : List Bytes) (n : Nat) (decoded : DecodedBlobRequest) : Prop :=
  ∃ stage, matchesStage prepared ttl stage decoded.frame.request ∧
    Stored prepared inputs n (stage.rank prepared.encrypted.chunks.length) ∧
    ∃ bytes ∈ sent, IsFrame prepared ttl stage bytes ∧
      ∃ decoded', decodeBlobRequest bytes = .ok decoded' ∧
        decoded'.authenticatedBytes = decoded.authenticatedBytes

structure Progressing (prepared : PreparedBlob) (ttl : UInt64) (inputs : Nat → Input)
    (s : Session) (trace : Trace) : Prop extends Sends prepared ttl s trace where
  answered : ∀ stage bytes response, (stage, ⟨.exchange bytes, .ok response⟩) ∈ trace →
    ∃ n < s.received, ∃ now, Answers inputs n .blob bytes now response
  stored   : Stored prepared inputs s.received
    ((s.process.stage prepared.uploadIdentity).rank prepared.encrypted.chunks.length)
  received : ∀ n < s.received, ∀ bytes now decoded, Arrives prepared inputs n bytes now decoded →
    InOrder prepared ttl inputs s.sent n decoded
  program  : ∀ stage program, s.process.memory = .running stage program →
    ∃ u : BlobUploader, u.Valid ∧ u.blob = prepared ∧ u.stage = stage ∧
      ∃ events, Program.Runs u.advance events program

namespace Progressing

theorem send {next : interface.Result (.exchange bytes) → _}
    (h : Progressing prepared ttl inputs s trace)
    (hm : s.process.memory = .running stage (.call (.exchange bytes) next)) :
    Progressing prepared ttl inputs { s with sent := bytes :: s.sent } trace := by
  refine { h with sent := fun bytes' hb => ?_, received := fun n hn bytes' now decoded hp => ?_ }
  · rcases List.mem_cons.mp hb with rfl | hb
    · exact .inr ⟨stage, next, hm⟩
    · exact h.sent bytes' hb
  · obtain ⟨stage, hx, hs, bytes, hb, hf⟩ := h.received n hn bytes' now decoded hp
    exact ⟨stage, hx, hs, bytes, .tail _ hb, hf⟩

theorem receive [LawfulEd25519] [LawfulEd25519Seeds] (h : Progressing prepared ttl inputs s trace)
    (hp : prepared.Valid) (ht : ttl ≠ 0) (hg : Genuine prepared s.sent (inputs s.received)) :
    Progressing prepared ttl inputs { s with received := s.received + 1 } trace := by
  refine { h with
    answered := fun _ _ _ hm => ?_
    stored   := h.stored.succ
    received := fun n hn _ _ _ hx => ?_
  }
  · obtain ⟨n, hn, ha⟩ := h.answered _ _ _ hm
    exact ⟨n, Nat.lt_succ_of_lt hn, ha⟩
  · rcases Nat.lt_succ_iff_lt_or_eq.mp hn with hn | rfl
    · exact h.received n hn _ _ _ hx
    · obtain ⟨⟨_, hi⟩, ha, hc⟩ := hx
      rw [hi] at hg
      obtain ⟨bytes, hb, decoded', hd, he⟩ := hg _ ha hc
      obtain ⟨stage, hf, hr⟩ := h.exists_stage hb
      obtain ⟨_, hd', hm⟩ := hf.decode hp ht
      cases hd.symm.trans hd'
      rw [request_eq_of_authenticatedBytes_eq hd ha.decode he] at hm
      exact ⟨stage, hm, h.stored.anti hr, bytes, hb, hf, decoded', hd, he⟩

variable [LawfulEd25519] [LawfulEd25519Seeds]

omit [LawfulEd25519Seeds] in
-- A stage which is confirmed has been executed after all stages before.
theorem stored_of_confirmed (h : Progressing prepared ttl inputs s trace) (hp : prepared.Valid)
    (ht : ttl ≠ 0) {pending : Pending}
    (hm : (stage, ⟨.exchange pending.bytes, .ok response⟩) ∈ trace)
    (hc : pending.Confirmed stage response)
    (hn : stage.Follows prepared.encrypted.chunks.length stage') :
    Stored prepared inputs s.received (stage'.rank prepared.encrypted.chunks.length) := by
  obtain ⟨n, hl, now, ha⟩ := h.answered _ _ _ hm
  have hi := h.frames _ _ _ hm
  obtain ⟨decoded, hd, hs⟩ := hi.decode hp ht
  obtain ⟨body, _, hr⟩ := hc
  obtain ⟨m, hle, t, hx, he⟩ := RelayService.blob_released ha hd hr rfl
  obtain ⟨decoded', hpr⟩ := hi.arrives hp ht hx.input
  cases hd.symm.trans hpr.admissible.decode
  obtain ⟨stage₁, hs', hst, _⟩ := h.received m (by omega) _ _ _ hpr
  obtain rfl := matchesStage_unique hs hs'
  exact (hst.advance hs he hn).mono (by omega)

theorem upload (h : Progressing prepared ttl inputs s trace) (hp : prepared.Valid) (ht : ttl ≠ 0)
    (hs : Process.Step prepared.uploadIdentity s.process events p)
    (ha : ∀ stage bytes response, (stage, ⟨.exchange bytes, .ok response⟩) ∈ events →
      ∃ n < s.received, ∃ now, Answers inputs n .blob bytes now response) :
    ∃ trace', Progressing prepared ttl inputs
      { s with process := p, trace := s.trace ++ events } trace' := by
  obtain ⟨events', hi, hok, haw, hex⟩ := hs.completes h.process
  refine ⟨trace ++ events', ⟨hi, ?_, ?_⟩, ?_, ?_, h.received, ?_⟩
  case refine_1 =>
    intro stage bytes r hm
    rcases List.mem_append.mp hm with hm | hm
    · exact h.frames _ _ _ hm
    · exact h.process.isFrame (haw _ _ _ hm)
  case refine_2 =>
    intro bytes hb
    refine .inl ?_
    obtain ⟨stage, r, hm⟩ | ⟨stage, hw⟩ := h.sent bytes hb
    · exact ⟨stage, r, List.mem_append_left _ hm⟩
    · obtain ⟨r, hm⟩ := hex _ _ hw
      exact ⟨stage, r, List.mem_append_right _ hm⟩
  case refine_3 =>
    intro stage bytes response hm
    rcases List.mem_append.mp hm with hm | hm
    · exact h.answered _ _ _ hm
    · exact ha _ _ _ (hok _ _ _ hm)
  case refine_4 =>
    obtain he | ⟨hn, _, _, _, _, _, _, _, _, rfl, hc⟩ := h.process.moves hs
    · exact he ▸ h.stored
    · exact h.stored_of_confirmed hp ht (List.mem_append_right _ (.head _)) hc hn
  case refine_5 =>
    intro stage program hm
    have hq := h.process
    have hr := h.program
    generalize s.process = q at hs hq hr
    cases hs <;> cases hm
    case advance =>
      obtain ⟨_, _, hi⟩ := hq
      exact ⟨_, hi.valid, hi.blob, rfl, [], .refl⟩
    case call =>
      obtain ⟨u, hv, hb, hs, events, hr⟩ := hr _ _ rfl
      exact ⟨u, hv, hb, hs, _, hr.call _⟩

theorem step (h : Progressing prepared ttl inputs s trace) (hp : prepared.Valid) (ht : ttl ≠ 0)
    (hs : Step prepared inputs s s') : ∃ trace', Progressing prepared ttl inputs s' trace' := by
  cases hs
  case send hm      => exact ⟨trace, h.send hm⟩
  case receive hg   => exact ⟨trace, h.receive hp ht hg⟩
  case upload hs ha => exact h.upload hp ht hs ha

theorem runs (h : Progressing prepared ttl inputs s trace) (hp : prepared.Valid) (ht : ttl ≠ 0)
    (hr : Runs prepared inputs s s') : ∃ trace', Progressing prepared ttl inputs s' trace' := by
  induction hr
  case refl => exact ⟨trace, h⟩
  case tail hs hi =>
    obtain ⟨_, hi⟩ := hi
    exact hi.step hp ht hs

omit [LawfulEd25519] [LawfulEd25519Seeds] in
-- The upload begins only once, as the frame for it has only one request identifier.
theorem upload_eq_none (h : Progressing prepared ttl inputs s trace) (hp : prepared.Valid)
    (ht : ttl ≠ 0) (hf : Fair prepared ttl inputs) (hn : n < s.received)
    (hx : Performs inputs n (blobCall bytes now decoded) response)
    (hr : Arrives prepared inputs n bytes now decoded)
    (hm : matchesStage prepared ttl .begin decoded.frame.request) :
    DurableRelay.upload (blobTables inputs n) prepared.uploadId = none := by
  by_contra hu
  obtain ⟨row, hu⟩ := Option.ne_none_iff_exists'.mp hu
  have hw := Table.mem_of_lookup hu
  have hc := hf.reserved n row hw (Table.key_of_lookup hu)
  obtain ⟨k, hk, bytes', t, fault, decoded', response', hi, ha, hx', caps, manifest, ttl', hq, hcap⟩ :=
    exists_begins hw
  have hr' : Arrives prepared inputs k bytes' t decoded' :=
    ⟨⟨fault, hi⟩, ha, by rw [hq]; exact congrArg CapabilityId.fromBytes (hcap.trans hc)⟩
  obtain ⟨stage₁, hm₁, _, b₁, hb₁, hf₁, d₁, hd₁, he₁⟩ := h.received n hn _ _ _ hr
  obtain ⟨stage₂, hm₂, _, b₂, hb₂, hf₂, d₂, hd₂, he₂⟩ := h.received k (by omega) _ _ _ hr'
  obtain rfl := matchesStage_unique hm hm₁
  rw [hq] at hm₂
  cases stage₂ <;> simp only [matchesStage, Bool.false_eq_true] at hm₂
  obtain rfl := h.unique hp ht hb₁ hb₂ hf₁ hf₂
  cases hd₁.symm.trans hd₂
  have hid := requestId_eq_of_authenticatedBytes_eq ha.decode hr.admissible.decode (he₂.symm.trans he₁)
  refine hx.fresh _ (hx'.mem hk) (Prod.ext ?_ (congrArg RequestId.asBytes hid))
  exact congrArg CapabilityId.asBytes (hr'.capability.trans hr.capability.symm)

omit [LawfulEd25519Seeds] in
-- An answer to the pending frame says that its stage is done.
theorem confirms [LawfulChaCha20Poly1305] (h : Progressing prepared ttl inputs s trace)
    (hp : prepared.Valid) (ht : ttl ≠ 0) (hl : Sealed plaintext prepared.encrypted stream)
    (hi : Set.InjOn Sha256.digest (ciphertexts prepared inputs)) (hf : Fair prepared ttl inputs)
    (hs : IsFrame prepared ttl stage bytes) (hn : n < s.received)
    (ha : Answers inputs n .blob bytes now response) :
    ∃ decoded body, decodeBlobRequest bytes = .ok decoded ∧ stage.Body body ∧
      decodeBlobResponse response = .ok ⟨decoded.frame.requestId,
        { command := decoded.frame.request.command, status := .ok, body }⟩ := by
  obtain ⟨decoded, hr⟩ := hs.arrives hp ht ha.input
  have hu : RelayService.Unique inputs n bytes decoded := by
    intro m _ bytes' t fault decoded' hi hd hc hid
    exact hf.unique m n bytes' bytes t now decoded' decoded ⟨⟨fault, hi⟩, hd, hc.trans hr.capability⟩ hr hid
  obtain ⟨m, hm, t, fault, hi', hx⟩ := ha.performs hr.admissible hu
  have hr' : Arrives prepared inputs m bytes t decoded := ⟨⟨fault, hi'⟩, hr.admissible, hr.capability⟩
  obtain ⟨_, hd, hms⟩ := hs.decode hp ht
  cases hd.symm.trans hr.admissible.decode
  obtain ⟨stage', hms', hst, _⟩ := h.received m (by omega) _ _ _ hr'
  obtain rfl := matchesStage_unique hms hms'
  obtain ⟨body, tables, hb, he⟩ := hst.executes hl hi hf hr' hms ht fun hbegin =>
    h.upload_eq_none hp ht hf (by omega) hx hr' (hbegin ▸ hms)
  exact ⟨decoded, body, hd, hb, (hx.succeeds he).right⟩

end Progressing

theorem progressing_session [LawfulEd25519] [LawfulEd25519Seeds] (hp : prepared.Valid) (ht : ttl ≠ 0)
    (hd : ∀ bytes ∈ d, encodeUploadState (prepared.uploader ttl) = some bytes) :
    Progressing prepared ttl inputs (prepared.session ttl d) [] where
  process  := Process.invariant_initial hp ht hd
  frames   := nofun
  sent     := nofun
  answered := nofun
  received := nofun
  program  := nofun
  stored   := by
    have hs := (Process.invariant_initial hp ht hd).stage_of_idle rfl
    rw [PreparedBlob.session, ←hs]
    exact ⟨fun h => absurd h (Nat.lt_irrefl _), fun _ _ h => absurd h (Nat.not_lt_zero _)⟩

-- Whatever happens to the frames of an upload and to the uploader, every answer of the relay to a
-- pending frame completes its stage.
theorem upload_never_refused [LawfulEd25519] [LawfulEd25519Seeds] [LawfulChaCha20Poly1305]
    (plaintext : Bytes) (chunkSize : UInt32) (rng rng' : Rng) (prepared : PreparedBlob)
    (hp : PreparedBlob.new plaintext chunkSize rng = .ok (prepared, rng')) (ttl : UInt64) (ht : ttl ≠ 0)
    (durable : Option Bytes)
    (hd : ∀ bytes ∈ durable, encodeUploadState (prepared.uploader ttl) = some bytes)
    (inputs : Nat → Input) (hi : Set.InjOn Sha256.digest (ciphertexts prepared inputs))
    (hf : Fair prepared ttl inputs) (s : Session)
    (hr : Runs prepared inputs (prepared.session ttl durable) s)
    (stage : UploadStage) (bytes : Bytes) (next : interface.Result (.exchange bytes) → _)
    (hm : s.process.memory = .running stage (.call (.exchange bytes) next))
    (n : Nat) (hn : n < s.received) (now : Timestamp) (response : Bytes)
    (ha : Answers inputs n .blob bytes now response) :
    ∃ state progress u, stage.Follows prepared.encrypted.chunks.length u.stage ∧ u.pending = none ∧
      Program.Runs (next (.ok response : Except TransportError Bytes)) [⟨.commit state, .ok ()⟩]
        (.done (.ok (progress, u))) := by
  have hv := (PreparedBlob.Constructed.new hp).valid
  obtain ⟨_, hl⟩ := of_new_eq_ok hp
  obtain ⟨trace, h⟩ := (progressing_session hv ht hd).runs hv ht hr
  obtain ⟨u, hu, rfl, rfl, events, hx⟩ := h.program _ _ hm
  obtain ⟨v, hv', hb, hs, pending, hpe, rfl, hnext⟩ := of_runs_advance hu hx
  have hw := h.process.isFrame ⟨next, hm⟩
  obtain ⟨decoded, body, hdec, hbody, hres⟩ := h.confirms hv ht hl hi hf hw hn ha
  obtain ⟨requestId, request, hreq, rfl⟩ := hv'.pending pending hpe
  have hc : Pending.Confirmed (frame v.blob requestId request) v.stage response := by
    cases hdec.symm.trans (hv'.decode_frame hreq requestId)
    exact ⟨body, hs ▸ hbody, hres⟩
  obtain ⟨⟨stage, progress⟩, hns⟩ := nextStage_of_confirmed hc
  obtain ⟨_, hfol⟩ := of_nextStage_eq_ok hv'.stage hns
  obtain ⟨state, hruns⟩ := runs_finish hv' hns
  refine ⟨state, progress, _, ?_, rfl, hnext response ▸ hruns⟩
  rw [←hb, ←hs]
  exact hfol

end Progressing

end Session
end Session

namespace Sample

attribute [local instance] Toy.profile Toy.ed25519 Toy.seeds Toy.sha256 Toy.chaCha20Poly1305 Toy.hkdf

theorem of_arrives (h : Arrives prepared inputs n bytes now decoded) :
    n < 8 ∧ bytes = received n ∧ now = 0 ∧ decoded.frame.requestId = requestId (sequence n) := by
  obtain ⟨⟨fault, hi⟩, ha, _⟩ := h
  unfold inputs at hi
  split at hi <;> cases hi
  case isTrue hn =>
    cases ha.decode.symm.trans (decode_signed (request_wellFormed _))
    exact ⟨hn, rfl, rfl, rfl⟩

theorem blobTables_inputs (n : Nat) : blobTables inputs n = blobTables inputs (min n 8) := by
  induction n
  case zero => rfl
  case succ n hi =>
    by_cases hn : n < 8
    case pos => rw [min_eq_left hn]
    case neg =>
      obtain he | ⟨_, _, _, _, hx, _⟩ := blobTables_cases inputs n
      · rw [he, hi, min_eq_right (by omega), min_eq_right (by omega)]
      · rw [inputs, if_neg hn] at hx
        cases hx

theorem fair : Fair prepared 1 inputs where
  lease n bytes now decoded h _ := by
    obtain ⟨_, _, rfl, _⟩ := of_arrives h
    decide
  timely n bytes now decoded h := by
    have hx : ∀ n < 8, ∀ row ∈ (blobTables inputs n).uploads, 0 < fromBeBytes row.expiresAt := by
      decide +kernel
    obtain ⟨hn, _, rfl, _⟩ := of_arrives h
    exact fun row hr _ => hx n hn row hr
  unique n k bytes bytes' now now' decoded decoded' h h' hr := by
    obtain ⟨hn, rfl, _, he⟩ := of_arrives h
    obtain ⟨hk, rfl, _, he'⟩ := of_arrives h'
    rw [received, requestId_inj (sequence_lt hn) (sequence_lt hk) (he.symm.trans (hr.trans he'))]
    rfl
  reserved n := by
    have h : ∀ n ≤ 8, ∀ row ∈ (blobTables inputs n).uploads,
        row.uploadCap = prepared.capabilities.upload.asBytes := by
      decide +kernel
    rw [blobTables_inputs]
    exact fun row hr _ => h _ (min_le_right n 8) row hr
  distinct n := by
    have h : ∀ n ≤ 8, ∀ object ∈ (blobTables inputs n).objects,
        object.manifest = prepared.encrypted.manifest.asBytes := by
      decide +kernel
    rw [blobTables_inputs]
    exact fun object ho _ => h _ (min_le_right n 8) object ho

end Sample

open Sample in
attribute [local instance] Toy.profile Toy.ed25519 Toy.seeds Toy.sha256 Toy.chaCha20Poly1305 Toy.hkdf
  Toy.lawfulCipher Toy.lawfulEd25519 Toy.lawfulSeeds in
-- The last chunk has been received twice, before and after a crash.
theorem Session.resent_chunk_is_confirmed :
    ∃ s next, Runs prepared inputs (prepared.session 1 none) s ∧
      s.process.memory = .running (.chunk 1) (.call (.exchange (pending 2).bytes) next) ∧
      Answers inputs 3 .blob (pending 2).bytes 0 (response 2) ∧
      ∃ state progress u, (UploadStage.chunk 1).Follows 2 u.stage ∧ u.pending = none ∧
        Program.Runs (next (.ok (response 2) : Except TransportError Bytes)) [⟨.commit state, .ok ()⟩]
          (.done (.ok (progress, u))) := by
  obtain ⟨rng', hn⟩ := new_eq_ok
  have ha : Answers inputs 3 .blob (pending 2).bytes 0 (response 2) := answers (by decide)
  obtain ⟨p, h, hw⟩ := reaches_resent
  obtain ⟨next, hm, _⟩ := hw.memory
  obtain ⟨s, hr, rfl, hs⟩ := h.deliver hw ha.input
  refine ⟨s, next, hr, hm, ha, ?_⟩
  exact upload_never_refused plaintext 64 rng rng' prepared hn 1 (by decide) none nofun inputs
    ciphertexts_injOn fair s hr (.chunk 1) (pending 2).bytes next hm 3 (by omega) 0 (response 2) ha

end Cofferwire.Client.Blob
