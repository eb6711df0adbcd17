import Cofferwire.Relay.Theorems.BlobUpload

namespace Cofferwire
namespace DurableRelay

-- An upload has begun. It may have been committed since then.
def Uploading (tables : BlobTables) (uploadId : UploadId) (caps : BlobCapabilities)
    (manifest : BlobManifest) (expiry : UInt64) : Prop :=
  ∃ row ∈ tables.uploads,
    { row with committedBlob := none } = UploadRow.begin uploadId caps manifest expiry

section Begin

variable {tables : BlobTables} {uploadId : UploadId} {caps : BlobCapabilities} {manifest : BlobManifest}

theorem beginBlobUploadTx_new (hn : upload tables uploadId = none)
    (hl : leaseExpiry now ttl = .ok expiry) :
    ∃ tables', beginBlobUploadTx tables uploadId caps manifest now ttl = .ok (.stored, tables') := by
  have hi : Table.insert UploadRow.uploadId (.begin uploadId caps manifest expiry) tables.uploads =
      some _ := Table.insert_eq_some.mpr ⟨hn, rfl⟩
  have hi : insertUpload tables (.begin uploadId caps manifest expiry) =
      .ok { tables with uploads := tables.uploads ++ [.begin uploadId caps manifest expiry] } := by
    simp only [insertUpload, hi]
  refine ⟨{ tables with uploads := tables.uploads ++ [.begin uploadId caps manifest expiry] }, ?_⟩
  simp only [beginBlobUploadTx, Except.bind_eq_ok, hn]
  exact ⟨expiry, hl, _, hi, rfl⟩

theorem uploading_of_begin
    (h : beginBlobUploadTx tables uploadId caps manifest now ttl = .ok (outcome, tables')) :
    ∃ expiry, Uploading tables' uploadId caps manifest expiry := by
  simp only [beginBlobUploadTx, Except.bind_eq_ok] at h
  obtain ⟨expiry, hx, h⟩ := h
  refine ⟨expiry, ?_⟩
  split at h
  case h_1 row hr =>
    obtain ⟨_, he, h⟩ := Except.bind_eq_ok.mp h
    cases h
    have hk : row.uploadId = uploadId.asBytes := Table.key_of_lookup hr
    obtain ⟨hu, hd, hn, hx, hm, he⟩ := ensure_eq_ok.mp he
    refine ⟨row, Table.mem_of_lookup hr, ?_⟩
    simp only [UploadRow.begin, hk, hu, hd, hn, hx, hm, he]
  case h_2 hn =>
    obtain ⟨_, hi, h⟩ := Except.bind_eq_ok.mp h
    cases h
    simp only [insertUpload] at hi
    split at hi <;> cases hi
    case h_1 hi =>
      obtain ⟨_, rfl⟩ := Table.insert_eq_some.mp hi
      exact ⟨_, List.mem_append_right _ (.head _), rfl⟩

end Begin

variable [Sha256] {tables : BlobTables} {uploadId : UploadId} {caps : BlobCapabilities}
  {manifest : BlobManifest} {expiry : UInt64}

section Step

theorem Step.uploading (hs : Step tables tables') (hv : tables.Valid)
    (h : Uploading tables uploadId caps manifest expiry) :
    Uploading tables' uploadId caps manifest expiry := by
  obtain ⟨_, hu, hr⟩ := h
  obtain ⟨_, hu, _⟩ := hs.exists_row hv hu
  exact ⟨_, hu, hr⟩

theorem Step.prefix_uploadChunks (hs : Step tables tables') :
    tables.uploadChunks <+: tables'.uploadChunks := by
  cases hs
  case put => exact List.prefix_append ..
  all_goals exact List.prefix_rfl

theorem Step.uploadChunk_isSome (hs : Step tables tables')
    (h : (uploadChunk tables uploadId index).isSome) : (uploadChunk tables' uploadId index).isSome := by
  obtain ⟨row, hr⟩ := Option.isSome_iff_exists.mp h
  have hm := hs.prefix_uploadChunks.subset (Table.mem_of_lookup hr)
  refine Option.isSome_iff_ne_none.mpr fun hn => ?_
  exact Table.lookup_eq_none.mp hn row hm (Table.key_of_lookup hr)

end Step

-- A chunk which has been put is staged.
theorem uploadChunk_of_put
    (h : putBlobChunkTx tables uploadId cap index ciphertext now = .ok (outcome, tables')) :
    (uploadChunk tables' uploadId index).isSome := by
  simp only [putBlobChunkTx, Except.bind_eq_ok] at h
  obtain ⟨_, _, _, _, _, _, _, _, _, _, _, _, h⟩ := h
  split at h
  case h_1 row hr =>
    obtain ⟨_, _, h⟩ := Except.bind_eq_ok.mp h
    cases h
    exact hr ▸ rfl
  case h_2 hn =>
    obtain ⟨_, hi, h⟩ := Except.bind_eq_ok.mp h
    cases h
    simp only [insertUploadChunk, Except.ite_error_eq_ok] at hi
    obtain ⟨-, hi⟩ := hi
    split at hi <;> cases hi
    case h_1 hi =>
      obtain ⟨_, rfl⟩ := Table.insert_eq_some.mp hi
      exact Option.isSome_iff_exists.mpr ⟨_, Table.lookup_append_self hn rfl⟩

section Uploading

variable (hv : tables.Valid) (hu : Uploading tables uploadId caps manifest expiry) (hl : now < expiry)
include hv hu hl

-- The chunks of an upload are accepted until it expires.
theorem Uploading.put (hf : Fits manifest index ciphertext)
    (he : ∀ row, uploadChunk tables uploadId index = some row → row.ciphertext = ciphertext) :
    ∃ outcome tables', putBlobChunkTx tables uploadId caps.upload index ciphertext now =
      .ok (outcome, tables') := by
  obtain ⟨row, hu, hr⟩ := hu
  have hk : row.uploadId = uploadId.asBytes := congrArg UploadRow.uploadId hr
  have hw := (Table.lookup_eq_some hv.keyed.uploads).mpr ⟨hu, hk⟩
  have hc : row.uploadCap = caps.upload.asBytes := congrArg UploadRow.uploadCap hr
  have hm : parseManifest row.manifest = .ok manifest := by
    rw [show row.manifest = manifest.asBytes from congrArg UploadRow.manifest hr]
    exact parseManifest_eq_ok.mpr (BlobManifest.parse_eq_ok.mpr rfl)
  have hx : now < fromBeBytes row.expiresAt := by
    rw [show row.expiresAt = toBeBytes expiry from congrArg UploadRow.expiresAt hr, fromBeBytes_toBeBytes]
    exact hl
  cases hn : uploadChunk tables uploadId index
  case some chunk =>
    refine ⟨.duplicate, tables, ?_⟩
    simp only [putBlobChunkTx, Except.bind_eq_ok, okOr_eq_ok, ensure_eq_ok, hn]
    exact ⟨row, hw, (), hc, (), hx, manifest, hm, _, hf.digest, (), ⟨hf.size, rfl⟩, (), he chunk hn, rfl⟩
  case none =>
    let chunk : UploadChunkRow := ⟨uploadId.asBytes, index, ciphertext⟩
    have hk : Table.lookup UploadRow.uploadId chunk.uploadId tables.uploads = some row := hw
    have hi : Table.insert UploadChunkRow.key chunk tables.uploadChunks = some _ :=
      Table.insert_eq_some.mpr ⟨hn, rfl⟩
    have hi : insertUploadChunk tables chunk =
        .ok { tables with uploadChunks := tables.uploadChunks ++ [chunk] } := by
      simp [insertUploadChunk, hk, hi]
    refine ⟨.stored, { tables with uploadChunks := tables.uploadChunks ++ [chunk] }, ?_⟩
    simp only [putBlobChunkTx, Except.bind_eq_ok, okOr_eq_ok, ensure_eq_ok, hn]
    exact ⟨row, hw, (), hc, (), hx, manifest, hm, _, hf.digest, (), ⟨hf.size, rfl⟩, _, hi, rfl⟩

-- A complete upload can be committed until it expires, any number of times.
theorem Uploading.commit (hc : ∀ index < manifest.chunkCount,
      (uploadChunk tables uploadId (.ofNat index)).isSome)
    (ho : ∀ object ∈ tables.objects, object.blobId = (identify manifest).asBytes →
      object.manifest = manifest.asBytes) :
    ∃ expiry tables', commitBlobTx tables uploadId caps.upload (identify manifest) now =
      .ok (expiry, tables') := by
  obtain ⟨row, hu, hr⟩ := hu
  cases hb : row.committedBlob
  case some committed =>
    obtain ⟨_, hm, hi⟩ := hv.uploads row hu
    rw [show row.manifest = manifest.asBytes from congrArg UploadRow.manifest hr] at hm
    cases hm.symm.trans (BlobManifest.parse_eq_ok.mpr rfl)
    have hi : committed = (identify manifest).asBytes :=
      (congrArg BlobId.asBytes (hi committed hb)).symm
    have hk : row.uploadId = uploadId.asBytes := congrArg UploadRow.uploadId hr
    have hw := (Table.lookup_eq_some hv.keyed.uploads).mpr ⟨hu, hk⟩
    have hx : now < fromBeBytes row.expiresAt := by
      rw [show row.expiresAt = toBeBytes expiry from congrArg UploadRow.expiresAt hr, fromBeBytes_toBeBytes]
      exact hl
    refine ⟨fromBeBytes row.expiresAt, tables, ?_⟩
    simp only [commitBlobTx, Except.bind_eq_ok, okOr_eq_ok, ensure_eq_ok]
    refine ⟨row, hw, (), congrArg UploadRow.uploadCap hr, (), hx, ?_⟩
    rw [hb]
    exact Except.bind_eq_ok.mpr ⟨(), ensure_eq_ok.mpr hi, rfl⟩
  case none =>
    have hr : row = .begin uploadId caps manifest expiry := by
      rw [←hr]
      cases row
      cases hb
      rfl
    have hf : (applyBlob (.commit uploadId caps.upload (identify manifest), now) tables).fst = _ :=
      commit_fst hv (hr ▸ hu) hl ho
    rw [if_neg (not_not.mpr rfl), if_pos hc] at hf
    unfold applyBlob transact at hf
    split at hf
    case h_1 hx =>
      obtain ⟨⟨expiry, tables'⟩, hx, _⟩ := Except.bind_eq_ok.mp hx
      exact ⟨expiry, tables', hx⟩
    case h_2 => cases hf

end Uploading
end DurableRelay
end Cofferwire
