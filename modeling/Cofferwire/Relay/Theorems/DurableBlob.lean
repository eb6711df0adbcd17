import Cofferwire.Relay.DurableBlob

namespace Cofferwire
namespace DurableRelay

theorem ensure_eq_ok [Decidable p] : ensure p error = .ok u ↔ p := by
  simp [ensure]

theorem okOr_eq_ok : okOr value error = .ok a ↔ value = some a := by
  cases value <;> simp [okOr]

theorem parseManifest_eq_ok :
    parseManifest bytes = .ok manifest ↔ BlobManifest.parse bytes = .ok manifest :=
  Except.mapError_eq_ok

theorem leaseExpiry_eq_ok :
    leaseExpiry now ttl = .ok expiry ↔ ttl > 0 ∧ checkedAdd now ttl = some expiry := by
  simp only [leaseExpiry, okOr_eq_ok, Option.filter_eq_some_iff, decide_eq_true_eq]
  exact and_comm

-- A chunk has the contents which its manifest demands at an index.
structure Fits [Sha256] (manifest : BlobManifest) (index : UInt32) (ciphertext : Bytes) : Prop where
  size   : ciphertext.length = manifest.chunkSize.toNat + 16
  digest : manifest.digest index.toNat = some (Sha256.digest ciphertext)

variable [Sha256] {tables : BlobTables}

-- The conditions under which an upload becomes an object.
structure Publishable (tables : BlobTables) (row : UploadRow) (manifest : BlobManifest) : Prop where
  mem     : row ∈ tables.uploads
  pending : row.committedBlob = none
  parsed  : BlobManifest.parse row.manifest = .ok manifest
  chunks  : ∀ index < manifest.chunkCount,
    ∃ chunk ∈ tables.uploadChunks, chunk.key = (row.uploadId, .ofNat index)
  object  : ∀ row ∈ DurableRelay.object tables (identify manifest), row.manifest = manifest.asBytes

def UploadRow.grant (row : UploadRow) (id : BlobId) : GrantRow where
  grantId     := row.uploadId
  blobId      := id.asBytes
  downloadCap := row.downloadCap
  renewCap    := row.renewCap
  deleteCap   := row.deleteCap
  expiresAt   := row.expiresAt
  deleted     := false

def UploadChunkRow.chunk (row : UploadChunkRow) (id : BlobId) : ChunkRow where
  blobId     := id.asBytes
  chunkIndex := row.chunkIndex
  ciphertext := row.ciphertext

def BlobTables.publish (tables : BlobTables) (row : UploadRow) (manifest : BlobManifest) :
    BlobTables where
  uploads      := Table.update (·.uploadId = row.uploadId)
    ({ · with committedBlob := some (identify manifest).asBytes }) tables.uploads
  uploadChunks := tables.uploadChunks
  objects      := Table.insertOrIgnore ObjectRow.blobId
    ⟨(identify manifest).asBytes, manifest.asBytes⟩ tables.objects
  chunks       := Table.insertAllOrIgnore ChunkRow.key
    ((tables.uploadChunks.filter (·.uploadId = row.uploadId)).map (·.chunk (identify manifest)))
    tables.chunks
  grants       := tables.grants ++ [row.grant (identify manifest)]

-- What a committed transaction can do to the tables.
inductive Step (tables : BlobTables) : BlobTables → Prop
  | read : Step tables tables
  | begin {row : UploadRow} {manifest : BlobManifest}
    (new     : ∀ row' ∈ tables.uploads, row'.uploadId ≠ row.uploadId)
    (pending : row.committedBlob = none)
    (parsed  : BlobManifest.parse row.manifest = .ok manifest) :
    Step tables { tables with uploads := tables.uploads ++ [row] }
  | put {upload : UploadRow} {row : UploadChunkRow} {manifest : BlobManifest}
    (new    : ∀ row' ∈ tables.uploadChunks, row'.key ≠ row.key)
    (mem    : upload ∈ tables.uploads)
    (owner  : upload.uploadId = row.uploadId)
    (parsed : BlobManifest.parse upload.manifest = .ok manifest)
    (fits   : Fits manifest row.chunkIndex row.ciphertext) :
    Step tables { tables with uploadChunks := tables.uploadChunks ++ [row] }
  | publish {row : UploadRow} {manifest : BlobManifest}
    (publishable : Publishable tables row manifest)
    (new         : ∀ grant ∈ tables.grants, grant.grantId ≠ row.uploadId) :
    Step tables (tables.publish row manifest)
  | update {p : GrantRow → Bool} {f : GrantRow → GrantRow}
    (grantId : ∀ grant, (f grant).grantId = grant.grantId)
    (blobId  : ∀ grant, (f grant).blobId = grant.blobId) :
    Step tables { tables with grants := Table.update p f tables.grants }

-- An upload which can be filled and committed under a capability.
structure Opens (tables : BlobTables) (uploadId : UploadId) (cap : CapabilityId) (now : Timestamp)
    (row : UploadRow) : Prop where
  mem      : row ∈ tables.uploads
  uploadId : row.uploadId = uploadId.asBytes
  cap      : row.uploadCap = cap.asBytes
  live     : now < fromBeBytes row.expiresAt

def UploadRow.begin (uploadId : UploadId) (caps : BlobCapabilities) (manifest : BlobManifest)
    (expiry : UInt64) : UploadRow where
  uploadId      := uploadId.asBytes
  uploadCap     := caps.upload.asBytes
  downloadCap   := caps.download.asBytes
  renewCap      := caps.renew.asBytes
  deleteCap     := caps.delete.asBytes
  manifest      := manifest.asBytes
  expiresAt     := toBeBytes expiry
  committedBlob := none

-- What a request can do to the tables if it succeeds, and what permits it to do so.
inductive Change (tables : BlobTables) (now : Timestamp) : BlobRequest → BlobTables → Prop
  | read : Change tables now request tables
  | begin (new : ∀ row ∈ tables.uploads, row.uploadId ≠ uploadId.asBytes)
    (lease : leaseExpiry now ttl = .ok expiry) :
    Change tables now (.beginUpload uploadId caps manifest ttl)
      { tables with uploads := tables.uploads ++ [.begin uploadId caps manifest expiry] }
  | put (opens : Opens tables uploadId cap now row)
    (parsed : BlobManifest.parse row.manifest = .ok manifest)
    (fits   : Fits manifest index ciphertext)
    (new    : ∀ chunk ∈ tables.uploadChunks, chunk.key ≠ (uploadId.asBytes, index)) :
    Change tables now (.putChunk uploadId cap index ciphertext)
      { tables with
        uploadChunks := tables.uploadChunks ++ [⟨uploadId.asBytes, index, ciphertext⟩] }
  | commit (opens : Opens tables uploadId cap now row)
    (publishable : Publishable tables row manifest)
    (new         : ∀ grant ∈ tables.grants, grant.grantId ≠ row.uploadId) :
    Change tables now (.commit uploadId cap (identify manifest)) (tables.publish row manifest)
  | renew {id : BlobId}
    (authorized : authorizeGrant tables id GrantRow.renewCap cap now = .ok current) :
    Change tables now (.renew id cap ttl)
      { tables with
        grants := Table.update (fun grant => grant.matches GrantRow.renewCap id cap ∧ ¬grant.deleted)
          ({ · with expiresAt := toBeBytes expiry }) tables.grants }
  | delete {id : BlobId}
    (authorized : authorizeGrant tables id GrantRow.deleteCap cap now = .ok current) :
    Change tables now (.delete id cap)
      { tables with
        grants := Table.update (GrantRow.matches GrantRow.deleteCap id cap)
          ({ · with deleted := true }) tables.grants }

theorem beginBlobUploadTx_change
    (h : beginBlobUploadTx tables uploadId caps manifest now ttl = .ok (outcome, tables')) :
    Change tables now (.beginUpload uploadId caps manifest ttl) tables' := by
  simp only [beginBlobUploadTx, Except.bind_eq_ok] at h
  obtain ⟨expiry, hx, h⟩ := h
  split at h
  case h_1 =>
    obtain ⟨_, _, h⟩ := Except.bind_eq_ok.mp h
    cases h
    exact .read
  case h_2 hn =>
    obtain ⟨_, hi, h⟩ := Except.bind_eq_ok.mp h
    cases h
    simp only [insertUpload] at hi
    split at hi <;> cases hi
    case h_1 hi =>
      obtain ⟨_, rfl⟩ := Table.insert_eq_some.mp hi
      exact .begin (Table.lookup_eq_none.mp hn) hx

theorem putBlobChunkTx_change
    (h : putBlobChunkTx tables uploadId cap index ciphertext now = .ok (outcome, tables')) :
    Change tables now (.putChunk uploadId cap index ciphertext) tables' := by
  simp only [putBlobChunkTx, Except.bind_eq_ok, okOr_eq_ok, ensure_eq_ok, parseManifest_eq_ok] at h
  obtain ⟨row, hu, -, hc, -, he, manifest, hm, digest, hd, -, ⟨hl, hs⟩, h⟩ := h
  split at h
  case h_1 =>
    obtain ⟨_, _, h⟩ := Except.bind_eq_ok.mp h
    cases h
    exact .read
  case h_2 hn =>
    obtain ⟨_, hi, h⟩ := Except.bind_eq_ok.mp h
    cases h
    simp only [insertUploadChunk, Except.ite_error_eq_ok] at hi
    obtain ⟨-, hi⟩ := hi
    split at hi <;> cases hi
    case h_1 hi =>
      obtain ⟨_, rfl⟩ := Table.insert_eq_some.mp hi
      have hr : row ∈ tables.uploads := Table.mem_of_lookup hu
      exact .put ⟨hr, Table.key_of_lookup hu, hc, he⟩ hm ⟨hl, hs ▸ hd⟩
        (Table.lookup_eq_none.mp hn)

theorem verifyChunks_eq_ok (h : verifyChunks tables uploadId manifest = .ok u) :
    ∀ index < manifest.chunkCount,
      ∃ chunk ∈ tables.uploadChunks, chunk.key = (uploadId.asBytes, .ofNat index) := by
  intro index hi
  have hc := Except.forM_eq_ok.mp h index (List.mem_range.mpr hi)
  simp only [verifyChunk, Except.bind_eq_ok, okOr_eq_ok] at hc
  obtain ⟨_, _, chunk, hl, _⟩ := hc
  exact ⟨chunk, Table.mem_of_lookup hl, Table.key_of_lookup hl⟩

theorem publishTx_eq_ok (hk : row.uploadId = uploadId.asBytes) :
    publishTx tables uploadId row (identify manifest) manifest = .ok tables' ↔
      (∀ grant ∈ tables.grants, grant.grantId ≠ row.uploadId) ∧
      tables' = tables.publish row manifest := by
  obtain ⟨uploadId⟩ := uploadId
  obtain rfl : row.uploadId = uploadId := hk
  have ho : Table.lookup ObjectRow.blobId (identify manifest).asBytes
      (tables.publish row manifest).objects ≠ none :=
    Table.lookup_insertOrIgnore_ne_none rfl
  have hc : insertOrIgnoreChunks (insertOrIgnoreObject tables
      ⟨(identify manifest).asBytes, manifest.asBytes⟩) (identify manifest) ⟨row.uploadId⟩ =
      .ok { tables.publish row manifest with uploads := tables.uploads, grants := tables.grants } :=
    if_neg fun h => ho (Option.isNone_iff_eq_none.mp h.right)
  have hl := Option.isNone_iff_eq_none.not.mpr ho
  rw [←Table.lookup_eq_none]
  cases hi : Table.insert GrantRow.grantId (row.grant (identify manifest)) tables.grants
  all_goals
    rw [UploadRow.grant] at hi
    simp only [publishTx, hc, insertGrant, bind, Except.bind, hl, hi, Bool.false_eq_true, if_false]
  case some =>
    obtain ⟨hn, rfl⟩ := Table.insert_eq_some.mp hi
    exact ⟨fun h => ⟨hn, (Except.ok.inj h).symm⟩, fun h => congrArg _ h.right.symm⟩
  case none =>
    refine iff_of_false (by simp) fun h => ?_
    cases hi.symm.trans (Table.insert_eq_some.mpr ⟨h.left, rfl⟩)

theorem commitBlobTx_change
    (h : commitBlobTx tables uploadId cap requested now = .ok (expiry, tables')) :
    Change tables now (.commit uploadId cap requested) tables' := by
  simp only [commitBlobTx, Except.bind_eq_ok, okOr_eq_ok, ensure_eq_ok] at h
  obtain ⟨row, hu, -, hc, -, he, h⟩ := h
  obtain ⟨uploadId⟩ := uploadId
  obtain rfl : row.uploadId = uploadId := Table.key_of_lookup hu
  split at h
  case h_1 =>
    obtain ⟨_, _, h⟩ := Except.bind_eq_ok.mp h
    cases h
    exact .read
  case h_2 hp =>
    simp only [Except.bind_eq_ok, ensure_eq_ok, parseManifest_eq_ok] at h
    obtain ⟨manifest, hm, -, rfl, -, -, _, hv, -, ho, _, hg, h⟩ := h
    cases h
    obtain ⟨hn, rfl⟩ := (publishTx_eq_ok rfl).mp hg
    have hr := Table.mem_of_lookup hu
    refine .commit ⟨hr, rfl, hc, he⟩ ⟨hr, hp, hm, verifyChunks_eq_ok hv, ?_⟩ hn
    intro object hl
    rw [hl] at ho
    simpa using ho

theorem executeBlobRequest_change
    (h : executeBlobRequest request now tables = .ok (body, tables')) :
    Change tables now request tables' := by
  cases request
  all_goals
    simp only [executeBlobRequest] at h
    obtain ⟨⟨_, _⟩, ht, h⟩ := Except.bind_eq_ok.mp h
    cases h
  case beginUpload => exact beginBlobUploadTx_change ht
  case putChunk    => exact putBlobChunkTx_change ht
  case commit      => exact commitBlobTx_change ht
  case getManifest => exact .read
  case getChunk    => exact .read
  case renew =>
    simp only [renewBlobTx, Except.bind_eq_ok] at ht
    obtain ⟨_, _, _, ha, ht⟩ := ht
    cases ht
    exact .renew ha
  case delete =>
    simp only [deleteBlobTx, Except.bind_eq_ok] at ht
    obtain ⟨_, ha, ht⟩ := ht
    cases ht
    exact .delete ha

theorem applyBlob_snd (body : BlobResponseBody)
    (h : executeBlobRequest request now tables = .ok (body, tables')) :
    (applyBlob (request, now) tables).snd = tables' := by
  simp [applyBlob, transact, h]

theorem applyBlob_change : Change tables now request (applyBlob (request, now) tables).snd := by
  simp only [applyBlob, transact]
  split
  case h_1 h => exact executeBlobRequest_change h
  case h_2   => exact .read

theorem Change.step (h : Change tables now request tables') : Step tables tables' := by
  cases h
  case read => exact .read
  case begin new _ => exact .begin new rfl (BlobManifest.parse_eq_ok.mpr rfl)
  case put opens parsed fits new => exact .put new opens.mem opens.uploadId parsed fits
  case commit publishable new => exact .publish publishable new
  case renew => exact .update (fun _ => rfl) (fun _ => rfl)
  case delete => exact .update (fun _ => rfl) (fun _ => rfl)

namespace BlobTables

structure Keyed (tables : BlobTables) : Prop where
  uploads      : Table.Keyed UploadRow.uploadId tables.uploads
  uploadChunks : Table.Keyed UploadChunkRow.key tables.uploadChunks
  objects      : Table.Keyed ObjectRow.blobId tables.objects
  chunks       : Table.Keyed ChunkRow.key tables.chunks
  grants       : Table.Keyed GrantRow.grantId tables.grants

-- Uploads and their staged chunks are well formed, and everything that is published stems from an
-- upload which was committed, and is complete.
structure Valid (tables : BlobTables) : Prop where
  keyed     : tables.Keyed
  uploads   : ∀ upload ∈ tables.uploads, ∃ manifest,
    BlobManifest.parse upload.manifest = .ok manifest ∧
    ∀ id ∈ upload.committedBlob, identify manifest = ⟨id⟩
  staged    : ∀ chunk ∈ tables.uploadChunks, ∃ upload ∈ tables.uploads,
    upload.uploadId = chunk.uploadId ∧ ∃ manifest,
      BlobManifest.parse upload.manifest = .ok manifest ∧
      Fits manifest chunk.chunkIndex chunk.ciphertext
  published : ∀ upload ∈ tables.uploads, ∀ id ∈ upload.committedBlob,
    ⟨id, upload.manifest⟩ ∈ tables.objects
  objects   : ∀ object ∈ tables.objects, ∃ upload ∈ tables.uploads,
    upload.committedBlob = some object.blobId ∧ upload.manifest = object.manifest
  chunks    : ∀ chunk ∈ tables.chunks, ∃ upload ∈ tables.uploads,
    upload.committedBlob = some chunk.blobId ∧
    ⟨upload.uploadId, chunk.chunkIndex, chunk.ciphertext⟩ ∈ tables.uploadChunks
  complete  : ∀ object ∈ tables.objects, ∀ manifest,
    BlobManifest.parse object.manifest = .ok manifest →
    ∀ index < manifest.chunkCount, ∃ chunk ∈ tables.chunks,
      chunk.key = (object.blobId, .ofNat index)
  grants    : ∀ grant ∈ tables.grants, ∃ upload ∈ tables.uploads,
    upload.uploadId = grant.grantId ∧ upload.committedBlob = some grant.blobId

theorem empty_valid : empty.Valid where
  keyed     := by constructor <;> exact List.nodup_nil
  uploads   := by simp [empty]
  staged    := by simp [empty]
  published := by simp [empty]
  objects   := by simp [empty]
  chunks    := by simp [empty]
  complete  := by simp [empty]
  grants    := by simp [empty]

end BlobTables

theorem Step.keyed (hk : tables.Keyed) (hs : Step tables tables') : tables'.Keyed := by
  cases hs
  case read => exact hk
  case begin new _ _ => exact { hk with uploads := hk.uploads.append new }
  case put new _ _ _ _ => exact { hk with uploadChunks := hk.uploadChunks.append new }
  case update grantId _ => exact { hk with grants := hk.grants.update grantId }
  case publish new =>
    exact {
      uploads      := hk.uploads.update fun _ => rfl
      uploadChunks := hk.uploadChunks
      objects      := hk.objects.insertOrIgnore
      chunks       := hk.chunks.insertAllOrIgnore
      grants       := hk.grants.append new
    }

section Uploads

variable (hv : tables.Valid) (hs : Step tables tables')
include hv hs

-- Uploads are never removed. They only change when they are committed.
theorem Step.exists_row {upload : UploadRow} (hu : upload ∈ tables.uploads) :
    ∃ committedBlob, { upload with committedBlob } ∈ tables'.uploads ∧
      ∀ id, upload.committedBlob = some id → committedBlob = some id := by
  cases hs
  case read   => exact ⟨_, hu, fun _ h => h⟩
  case begin  => exact ⟨_, List.mem_append_left _ hu, fun _ h => h⟩
  case put    => exact ⟨_, hu, fun _ h => h⟩
  case update => exact ⟨_, hu, fun _ h => h⟩
  case publish row manifest publishable _ =>
    by_cases he : upload.uploadId = row.uploadId
    case neg => exact ⟨_, Table.mem_update.mpr ⟨upload, hu, if_neg (by simpa using he)⟩, fun _ h => h⟩
    case pos =>
      obtain rfl := hv.keyed.uploads.eq hu publishable.mem he
      refine ⟨_, Table.mem_update.mpr ⟨upload, hu, if_pos (by simp)⟩, ?_⟩
      simp [publishable.pending]

theorem Step.exists_upload {upload : UploadRow} (hu : upload ∈ tables.uploads) :
    ∃ upload' ∈ tables'.uploads, upload'.uploadId = upload.uploadId ∧
      upload'.manifest = upload.manifest ∧
      ∀ id, upload.committedBlob = some id → upload'.committedBlob = some id := by
  obtain ⟨_, hm, hc⟩ := hs.exists_row hv hu
  exact ⟨_, hm, rfl, rfl, hc⟩

theorem Step.mem_of_committed {upload : UploadRow} (hu : upload ∈ tables.uploads)
    (hc : upload.committedBlob = some blobId) : upload ∈ tables'.uploads := by
  obtain ⟨_, hm, hi⟩ := hs.exists_row hv hu
  rwa [hi _ hc, ←hc] at hm

theorem Step.staged (hc : chunk ∈ tables.uploadChunks) :
    ∃ upload ∈ tables'.uploads, upload.uploadId = chunk.uploadId ∧ ∃ manifest,
      BlobManifest.parse upload.manifest = .ok manifest ∧
      Fits manifest chunk.chunkIndex chunk.ciphertext := by
  have ⟨upload, hu, hi, hm⟩ := hv.staged chunk hc
  have ⟨upload', hu', hi', hm', _⟩ := hs.exists_upload hv hu
  exact ⟨upload', hu', hi'.trans hi, hm' ▸ hm⟩

theorem Step.uploadOfObject {object : ObjectRow} (ho : object ∈ tables.objects) :
    ∃ upload ∈ tables'.uploads,
      upload.committedBlob = some object.blobId ∧ upload.manifest = object.manifest := by
  have ⟨upload, hu, hc, hm⟩ := hv.objects object ho
  have ⟨upload', hu', _, hm', hc'⟩ := hs.exists_upload hv hu
  exact ⟨upload', hu', hc' _ hc, hm'.trans hm⟩

theorem Step.uploadOfChunk {chunk : ChunkRow} (hc : chunk ∈ tables.chunks) :
    ∃ upload ∈ tables'.uploads, upload.committedBlob = some chunk.blobId ∧
      ⟨upload.uploadId, chunk.chunkIndex, chunk.ciphertext⟩ ∈ tables.uploadChunks := by
  have ⟨upload, hu, hc, hm⟩ := hv.chunks chunk hc
  have ⟨upload', hu', hi', _, hc'⟩ := hs.exists_upload hv hu
  exact ⟨upload', hu', hc' _ hc, hi' ▸ hm⟩

theorem Step.uploadOfGrant {grant : GrantRow} (hg : grant ∈ tables.grants) :
    ∃ upload ∈ tables'.uploads,
      upload.uploadId = grant.grantId ∧ upload.committedBlob = some grant.blobId := by
  have ⟨upload, hu, hi, hc⟩ := hv.grants grant hg
  have ⟨upload', hu', hi', _, hc'⟩ := hs.exists_upload hv hu
  exact ⟨upload', hu', hi'.trans hi, hc' _ hc⟩

end Uploads

section Publish

variable {row : UploadRow} {manifest : BlobManifest}

theorem cases_publish_chunks (hc : chunk ∈ (tables.publish row manifest).chunks) :
    chunk ∈ tables.chunks ∨
      ⟨row.uploadId, chunk.chunkIndex, chunk.ciphertext⟩ ∈ tables.uploadChunks ∧
      chunk.blobId = (identify manifest).asBytes := by
  rcases Table.mem_insertAllOrIgnore hc with hc | hc
  · exact .inl hc
  · obtain ⟨staged, hs, rfl⟩ := List.mem_map.mp hc
    have ⟨hs, hi⟩ := List.mem_filter.mp hs
    have hi : staged.uploadId = row.uploadId := by simpa using hi
    exact .inr ⟨hi ▸ hs, rfl⟩

variable (hp : Publishable tables row manifest)
include hp

theorem Publishable.mem_publish_uploads :
    { row with committedBlob := some (identify manifest).asBytes } ∈
      (tables.publish row manifest).uploads :=
  Table.mem_update.mpr ⟨row, hp.mem, by simp⟩

theorem Publishable.mem_publish_objects (hv : tables.Valid) :
    ⟨(identify manifest).asBytes, manifest.asBytes⟩ ∈ (tables.publish row manifest).objects := by
  obtain ⟨he, _⟩ | ⟨he, object, hm, hk⟩ := Table.insertOrIgnore_cases ObjectRow.blobId
    ⟨(identify manifest).asBytes, manifest.asBytes⟩ tables.objects
  · simp [BlobTables.publish, he]
  · have ho := hp.object object <| (Table.lookup_eq_some hv.keyed.objects).mpr ⟨hm, hk⟩
    have he' : object = ⟨(identify manifest).asBytes, manifest.asBytes⟩ := by
      cases object
      exact congrArg₂ _ hk ho
    simpa only [BlobTables.publish, he, he'] using hm

theorem Publishable.cases_publish_uploads {upload : UploadRow} (hv : tables.Valid)
    (hu : upload ∈ (tables.publish row manifest).uploads) :
    upload ∈ tables.uploads ∨
      upload = { row with committedBlob := some (identify manifest).asBytes } := by
  obtain ⟨upload', hu', rfl⟩ := Table.mem_update.mp hu
  split
  case isFalse => exact .inl hu'
  case isTrue he =>
    have := hv.keyed.uploads.eq hu' hp.mem (by simpa using he)
    exact .inr (this ▸ rfl)

theorem Publishable.exists_publish_chunk (hi : index < manifest.chunkCount) :
    ∃ chunk ∈ (tables.publish row manifest).chunks,
      chunk.key = ((identify manifest).asBytes, .ofNat index) := by
  have ⟨staged, hs, hk⟩ := hp.chunks index hi
  have ⟨hu, hi⟩ := Prod.mk.inj hk
  have hm := List.mem_map_of_mem (f := (·.chunk (identify manifest))) <|
    List.mem_filter (p := (·.uploadId = row.uploadId)).mpr ⟨hs, by simpa using hu⟩
  have ⟨chunk, hc, hk⟩ : ∃ chunk ∈ (tables.publish row manifest).chunks, chunk.key = _ :=
    Table.exists_insertAllOrIgnore hm
  exact ⟨chunk, hc, hk.trans (by simp [ChunkRow.key, UploadChunkRow.chunk, hi])⟩

theorem Publishable.valid (hv : tables.Valid)
    (hs : Step tables (tables.publish row manifest)) : (tables.publish row manifest).Valid where
  keyed := hs.keyed hv.keyed
  uploads upload hu := by
    rcases hp.cases_publish_uploads hv hu with hu | rfl
    · exact hv.uploads upload hu
    · exact ⟨manifest, hp.parsed, by simp⟩
  staged _ hc := hs.staged hv hc
  published upload hu id hi := by
    rcases hp.cases_publish_uploads hv hu with hu | rfl
    · exact Table.prefix_insertOrIgnore.mem <| hv.published upload hu id hi
    · cases hi
      have hm := BlobManifest.parse_eq_ok.mp hp.parsed
      exact hm ▸ hp.mem_publish_objects hv
  objects object ho := by
    rcases Table.mem_insertOrIgnore ho with ho | ⟨rfl, _⟩
    · exact hs.uploadOfObject hv ho
    · exact ⟨_, hp.mem_publish_uploads, rfl, BlobManifest.parse_eq_ok.mp hp.parsed⟩
  chunks chunk hc := by
    rcases cases_publish_chunks hc with hc | ⟨hm, hi⟩
    · exact hs.uploadOfChunk hv hc
    · exact ⟨_, hp.mem_publish_uploads, hi ▸ rfl, hm⟩
  complete object ho manifest' hm index hi := by
    rcases Table.mem_insertOrIgnore ho with ho | ⟨rfl, _⟩
    · have ⟨chunk, hc, hk⟩ := hv.complete object ho manifest' hm index hi
      exact ⟨chunk, Table.prefix_insertAllOrIgnore.mem hc, hk⟩
    · have : BlobManifest.parse manifest.asBytes = .ok manifest := BlobManifest.parse_eq_ok.mpr rfl
      cases hm.symm.trans this
      exact hp.exists_publish_chunk hi
  grants grant hg := by
    rcases List.mem_append.mp hg with hg | hg
    · exact hs.uploadOfGrant hv hg
    · cases List.mem_singleton.mp hg
      exact ⟨_, hp.mem_publish_uploads, rfl, rfl⟩

end Publish

theorem Step.valid (hv : tables.Valid) (hs : Step tables tables') : tables'.Valid := by
  have hk := hs.keyed hv.keyed
  cases id hs
  case read => exact hv
  case begin row manifest new pending parsed =>
    exact { hv with
      keyed     := hk
      uploads   := by
        simpa [or_imp, forall_and] using ⟨hv.uploads, manifest, parsed, by simp [pending]⟩
      staged    := fun _ hc => hs.staged hv hc
      published := by
        simpa [or_imp, forall_and, pending] using hv.published
      objects   := fun _ ho => hs.uploadOfObject hv ho
      chunks    := fun _ hc => hs.uploadOfChunk hv hc
      grants    := fun _ hg => hs.uploadOfGrant hv hg
    }
  case put upload row manifest new mem owner parsed fits =>
    exact { hv with
      keyed  := hk
      staged := by
        simpa [or_imp, forall_and] using ⟨hv.staged, upload, mem, owner, manifest, parsed, fits⟩
      chunks := fun chunk hc =>
        have ⟨upload, hu, hi, hm⟩ := hv.chunks chunk hc
        ⟨upload, hu, hi, List.mem_append_left _ hm⟩
    }
  case update grantId blobId =>
    exact { hv with
      keyed  := hk
      grants := by
        intro grant hg
        obtain ⟨grant', hg', rfl⟩ := Table.mem_update.mp hg
        have := hv.grants grant' hg'
        split <;> simpa [grantId, blobId] using this
    }
  case publish publishable new => exact publishable.valid hv (.publish publishable new)

-- A grant keeps its object and its capabilities.
theorem Change.exists_grant {grant : GrantRow} (h : Change tables now request tables')
    (hg : grant ∈ tables.grants) :
    ∃ expiresAt deleted, { grant with expiresAt, deleted } ∈ tables'.grants := by
  cases h
  case read   => exact ⟨_, _, hg⟩
  case begin  => exact ⟨_, _, hg⟩
  case put    => exact ⟨_, _, hg⟩
  case commit => exact ⟨_, _, List.mem_append_left _ hg⟩
  case renew cap current ttl expiry id _ =>
    by_cases hm : grant.matches GrantRow.renewCap id cap ∧ ¬grant.deleted
    case pos => exact ⟨_, _, Table.mem_update.mpr ⟨grant, hg, if_pos (by simpa using hm)⟩⟩
    case neg => exact ⟨_, _, Table.mem_update.mpr ⟨grant, hg, if_neg (by simpa using hm)⟩⟩
  case delete cap current id _ =>
    by_cases hm : grant.matches GrantRow.deleteCap id cap
    case pos => exact ⟨_, _, Table.mem_update.mpr ⟨grant, hg, if_pos hm⟩⟩
    case neg => exact ⟨_, _, Table.mem_update.mpr ⟨grant, hg, if_neg hm⟩⟩

-- An upload has been there before, or it has just begun or been committed.
theorem Change.cases_upload {upload : UploadRow} (h : Change tables now request tables')
    (hv : tables.Valid) (hu : upload ∈ tables'.uploads) :
    upload ∈ tables.uploads ∨
    (∃ uploadId caps manifest ttl expiry, request = .beginUpload uploadId caps manifest ttl ∧
      upload = .begin uploadId caps manifest expiry) ∨
    (∃ row manifest, Publishable tables row manifest ∧
      (∀ grant ∈ tables.grants, grant.grantId ≠ row.uploadId) ∧
      upload = { row with committedBlob := some (identify manifest).asBytes } ∧
      tables' = tables.publish row manifest) := by
  cases h
  case read   => exact .inl hu
  case put    => exact .inl hu
  case renew  => exact .inl hu
  case delete => exact .inl hu
  case begin =>
    rcases List.mem_append.mp hu with hu | hu
    · exact .inl hu
    · exact .inr (.inl ⟨_, _, _, _, _, rfl, List.mem_singleton.mp hu⟩)
  case commit publishable new =>
    rcases publishable.cases_publish_uploads hv hu with hu | hu
    · exact .inl hu
    · exact .inr (.inr ⟨_, _, publishable, new, hu, rfl⟩)

-- A chunk has been staged before, or it has just been put.
theorem Change.cases_uploadChunk {chunk : UploadChunkRow} (h : Change tables now request tables')
    (hc : chunk ∈ tables'.uploadChunks) :
    chunk ∈ tables.uploadChunks ∨
      ∃ uploadId cap index, request = .putChunk uploadId cap index chunk.ciphertext := by
  cases h
  case put =>
    rcases List.mem_append.mp hc with hc | hc
    · exact .inl hc
    · cases List.mem_singleton.mp hc
      exact .inr ⟨_, _, _, rfl⟩
  all_goals exact .inl hc

-- A successful commit leaves a committed upload, whose expiry it returns.
theorem of_commitBlobTx_eq_ok
    (h : commitBlobTx tables uploadId cap requested now = .ok (expiry, tables')) :
    ∃ row ∈ tables'.uploads, row.uploadId = uploadId.asBytes ∧ row.uploadCap = cap.asBytes ∧
      row.committedBlob = some requested.asBytes ∧ expiry = fromBeBytes row.expiresAt := by
  simp only [commitBlobTx, Except.bind_eq_ok, okOr_eq_ok, ensure_eq_ok] at h
  obtain ⟨row, hu, -, hc, -, he, h⟩ := h
  obtain ⟨uploadId⟩ := uploadId
  obtain rfl : row.uploadId = uploadId := Table.key_of_lookup hu
  have hr := Table.mem_of_lookup hu
  split at h
  case h_1 committed hb =>
    obtain ⟨_, hq, h⟩ := Except.bind_eq_ok.mp h
    cases h
    exact ⟨row, hr, rfl, hc, ensure_eq_ok.mp hq ▸ hb, rfl⟩
  case h_2 hp =>
    simp only [Except.bind_eq_ok, ensure_eq_ok] at h
    obtain ⟨manifest, -, -, rfl, -, -, _, -, -, -, _, hg, h⟩ := h
    cases h
    obtain ⟨_, rfl⟩ := (publishTx_eq_ok rfl).mp hg
    exact ⟨_, Table.mem_update.mpr ⟨row, hr, if_pos (by simp)⟩, rfl, hc, rfl, rfl⟩

-- Rows of objects and chunks are only added.
def BlobTables.Extends (tables tables' : BlobTables) : Prop :=
  tables.objects <+: tables'.objects ∧ tables.chunks <+: tables'.chunks

theorem Step.extends (hs : Step tables tables') : tables.Extends tables' := by
  cases hs
  case publish => exact ⟨Table.prefix_insertOrIgnore, Table.prefix_insertAllOrIgnore⟩
  all_goals exact ⟨List.prefix_rfl, List.prefix_rfl⟩

variable {requests : Nat → BlobRequest × Timestamp}

theorem blobMachine_valid : (blobMachine.state requests n).Valid :=
  Machine.invariant BlobTables.empty_valid (fun _ _ hv => applyBlob_change.step.valid hv) n

theorem blobMachine_extends (h : n ≤ k) :
    (blobMachine.state requests n).Extends (blobMachine.state requests k) :=
  Machine.monotone (fun _ => ⟨List.prefix_rfl, List.prefix_rfl⟩)
    (fun _ _ _ h h' => ⟨h.left.trans h'.left, h.right.trans h'.right⟩)
    (fun _ _ => applyBlob_change.step.extends) h

namespace BlobTables.Valid

variable (hv : tables.Valid) {object : ObjectRow} {manifest : BlobManifest}
include hv

theorem object_manifest (ho : object ∈ tables.objects) :
    ∃ manifest, BlobManifest.parse object.manifest = .ok manifest ∧
      identify manifest = ⟨object.blobId⟩ := by
  have ⟨upload, hu, hc, hm⟩ := hv.objects object ho
  have ⟨manifest, hp, hi⟩ := hv.uploads upload hu
  exact ⟨manifest, hm ▸ hp, hi _ hc⟩

-- The chunks of an object are those which were verified for one of its uploads.
theorem chunk_fits (ho : object ∈ tables.objects)
    (hm : BlobManifest.parse object.manifest = .ok manifest) {chunk : ChunkRow}
    (hc : chunk ∈ tables.chunks) (hi : chunk.blobId = object.blobId) :
    Fits manifest chunk.chunkIndex chunk.ciphertext := by
  have ⟨upload, hu, hb, hs⟩ := hv.chunks chunk hc
  have ⟨upload', hu', hi', manifest', hm', hf⟩ := hv.staged _ hs
  cases hv.keyed.uploads.eq hu' hu hi'
  have he := hv.keyed.objects.eq (hv.published upload hu _ hb) ho hi
  subst he
  cases hm.symm.trans hm'
  exact hf

theorem chunkIndices_perm (ho : object ∈ tables.objects)
    (hm : BlobManifest.parse object.manifest = .ok manifest) :
    ((tables.chunks.filter (·.blobId = object.blobId)).map (·.chunkIndex.toNat)).Perm
      (List.range manifest.chunkCount) := by
  refine (List.perm_ext_iff_of_nodup ?_ List.nodup_range).mpr fun index => ?_
  · refine List.Nodup.map_on ?_ (hv.keyed.chunks.of_map.filter _)
    intro chunk hc chunk' hc' he
    have ⟨hc, hi⟩ := List.mem_filter.mp hc
    have ⟨hc', hi'⟩ := List.mem_filter.mp hc'
    refine hv.keyed.chunks.eq hc hc' ?_
    simp_all [ChunkRow.key, UInt32.toNat_inj]
  · simp only [List.mem_map, List.mem_filter, decide_eq_true_eq, List.mem_range]
    constructor
    · rintro ⟨chunk, ⟨hc, hi⟩, rfl⟩
      have ⟨h, _⟩ := List.getElem?_eq_some_iff.mp (hv.chunk_fits ho hm hc hi).digest
      exact h
    · intro hi
      have ⟨chunk, hc, hk⟩ := hv.complete object ho manifest hm index hi
      have ⟨hb, hx⟩ := Prod.mk.inj hk
      refine ⟨chunk, ⟨hc, hb⟩, ?_⟩
      have := manifest.chunkCount_le
      simp only [hx, UInt32.toNat_ofNat', maxChunks] at this ⊢
      omega

end BlobTables.Valid

end DurableRelay
end Cofferwire
