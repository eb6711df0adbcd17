import Cofferwire.Relay.Theorems.DurableBlob

namespace Cofferwire
namespace DurableRelay

variable {tables : BlobTables} {id : BlobId}

-- The grant is neither deleted nor expired.
def GrantRow.Live (grant : GrantRow) (now : Timestamp) : Prop :=
  ¬grant.deleted ∧ now < fromBeBytes grant.expiresAt

theorem authorizeGrant_eq_ok :
    authorizeGrant tables id column cap now = .ok expiry ↔
      ∃ grant, tables.grants.find? (GrantRow.matches column id cap) = some grant ∧
        grant.Live now ∧ fromBeBytes grant.expiresAt = expiry := by
  unfold authorizeGrant
  split
  case h_1 h =>
    simp only [h]
    split <;> simp
  case h_2 grant h =>
    simp [h, Except.bind_eq_ok, ensure_eq_ok, GrantRow.Live, pure, Except.pure, and_assoc]

theorem blobId_of_authorizeGrant (h : authorizeGrant tables id column cap now = .ok expiry) :
    ∃ grant ∈ tables.grants, grant.blobId = id.asBytes := by
  have ⟨grant, hf, _⟩ := authorizeGrant_eq_ok.mp h
  have hm := List.find?_some hf
  simp only [GrantRow.matches, decide_eq_true_eq] at hm
  exact ⟨grant, List.mem_of_find?_eq_some hf, hm.left⟩

-- The tables agree on everything that reads depend on.
structure BlobTables.Agree (tables tables' : BlobTables) : Prop where
  objects : tables'.objects = tables.objects
  chunks  : tables'.chunks = tables.chunks
  grants  : tables'.grants = tables.grants

theorem beginBlobUploadTx_agree
    (h : beginBlobUploadTx tables uploadId caps manifest now ttl = .ok (outcome, tables')) :
    tables.Agree tables' := by
  simp only [beginBlobUploadTx, Except.bind_eq_ok] at h
  obtain ⟨expiry, _, h⟩ := h
  split at h <;> obtain ⟨_, hi, h⟩ := Except.bind_eq_ok.mp h <;> cases h
  · exact ⟨rfl, rfl, rfl⟩
  · simp only [insertUpload] at hi
    split at hi <;> cases hi
    exact ⟨rfl, rfl, rfl⟩

theorem objectManifest_eq_ok (h : objectManifest tables id = .ok manifest) :
    ⟨id.asBytes, manifest.asBytes⟩ ∈ tables.objects := by
  unfold objectManifest at h
  split at h
  case h_1 => cases h
  case h_2 row ho =>
    have hp := BlobManifest.parse_eq_ok.mp <| parseManifest_eq_ok.mp h
    have hi : row.blobId = id.asBytes := Table.key_of_lookup ho
    exact hp ▸ hi ▸ Table.mem_of_lookup ho

-- A capability is accepted under a live grant.
theorem exists_live_of_authorizeGrant (h : authorizeGrant tables id column cap now = .ok expiry) :
    ∃ grant ∈ tables.grants, grant.matches column id cap ∧ grant.Live now := by
  have ⟨grant, hf, hl, _⟩ := authorizeGrant_eq_ok.mp h
  exact ⟨grant, List.mem_of_find?_eq_some hf, List.find?_some hf, hl⟩

variable [Sha256]

theorem getBlobManifestTx_available
    (h : getBlobManifestTx tables id cap now = .ok (manifest, expiry)) :
    (∃ grant ∈ tables.grants, grant.matches GrantRow.downloadCap id cap ∧ grant.Live now) ∧
      ⟨id.asBytes, manifest.asBytes⟩ ∈ tables.objects := by
  simp only [getBlobManifestTx, Except.bind_eq_ok] at h
  obtain ⟨_, ha, _, hm, _, _, h⟩ := h
  cases h
  exact ⟨exists_live_of_authorizeGrant ha, objectManifest_eq_ok hm⟩

theorem getBlobChunkTx_available
    (h : getBlobChunkTx tables id cap index now = .ok (ciphertext, expiry)) :
    (∃ grant ∈ tables.grants, grant.matches GrantRow.downloadCap id cap ∧ grant.Live now) ∧
      ⟨id.asBytes, index, ciphertext⟩ ∈ tables.chunks := by
  simp only [getBlobChunkTx, Except.bind_eq_ok, okOr_eq_ok] at h
  obtain ⟨_, ha, _, _, _, _, chunk, hl, _, _, h⟩ := h
  cases h
  have hk : chunk.key = _ := Table.key_of_lookup hl
  obtain ⟨hb, hi⟩ := Prod.mk.inj hk
  exact ⟨exists_live_of_authorizeGrant ha, hb ▸ hi ▸ Table.mem_of_lookup hl⟩

namespace BlobTables.Valid

variable (hv : tables.Valid)
include hv

theorem object_of_grant (hg : grant ∈ tables.grants) :
    ∃ object ∈ tables.objects, object.blobId = grant.blobId := by
  have ⟨upload, hu, _, hc⟩ := hv.grants grant hg
  exact ⟨_, hv.published upload hu _ hc, rfl⟩

theorem chunk_length_le (hc : chunk ∈ tables.chunks) :
    chunk.ciphertext.length ≤ maxChunkBytes + 16 := by
  have ⟨upload, _, _, hm⟩ := hv.chunks chunk hc
  have ⟨_, _, _, manifest, _, hf⟩ := hv.staged _ hm
  have hs : chunk.ciphertext.length = _ := hf.size
  have := manifest.chunkSize_le
  omega

theorem object_of_authorizeGrant (h : authorizeGrant tables id column cap now = .ok expiry) :
    ∃ object ∈ tables.objects, object.blobId = id.asBytes ∧ ∃ manifest,
      BlobManifest.parse object.manifest = .ok manifest ∧ identify manifest = id ∧
      objectManifest tables id = .ok manifest := by
  have ⟨grant, hg, hi⟩ := blobId_of_authorizeGrant h
  have ⟨object, ho, hi'⟩ := hv.object_of_grant hg
  have ⟨manifest, hm, hd⟩ := hv.object_manifest ho
  have hl := Table.lookup_eq_some hv.keyed.objects |>.mpr ⟨ho, hi'.trans hi⟩
  refine ⟨object, ho, hi'.trans hi, manifest, hm, hd.trans (congrArg _ (hi'.trans hi)), ?_⟩
  simpa [objectManifest, DurableRelay.object, hl] using parseManifest_eq_ok.mpr hm

theorem getBlobManifestTx_eq_ok
    (h : authorizeGrant tables id GrantRow.downloadCap cap now = .ok expiry) :
    ∃ manifest, objectManifest tables id = .ok manifest ∧
      getBlobManifestTx tables id cap now = .ok (manifest, expiry) := by
  have ⟨_, _, _, manifest, _, hi, ho⟩ := hv.object_of_authorizeGrant h
  refine ⟨manifest, ho, ?_⟩
  simp [getBlobManifestTx, Except.bind_eq_ok, h, ho, ensure_eq_ok, hi, pure, Except.pure]

theorem getBlobChunkTx_eq_ok
    (h : authorizeGrant tables id GrantRow.downloadCap cap now = .ok expiry)
    (hm : objectManifest tables id = .ok manifest) (hi : index.toNat < manifest.chunkCount) :
    ∃ chunk ∈ tables.chunks, chunk.key = (id.asBytes, index) ∧
      getBlobChunkTx tables id cap index now = .ok (chunk.ciphertext, expiry) := by
  have ⟨object, ho, hb, manifest', hp, _, hm'⟩ := hv.object_of_authorizeGrant h
  cases hm.symm.trans hm'
  have ⟨chunk, hc, hk⟩ := hv.complete object ho manifest hp index.toNat hi
  rw [UInt32.ofNat_toNat, hb] at hk
  have hl := Table.lookup_eq_some hv.keyed.chunks |>.mpr ⟨hc, hk⟩
  have ⟨hkb, hki⟩ := Prod.mk.inj hk
  have hd := (hv.chunk_fits ho hp hc (hkb.trans hb.symm)).digest
  rw [hki] at hd
  refine ⟨chunk, hc, hk, ?_⟩
  simp [getBlobChunkTx, Except.bind_eq_ok, h, hm, okOr_eq_ok, ensure_eq_ok, hd, hl, pure, Except.pure]

end BlobTables.Valid

theorem BlobTables.Agree.reads (h : tables.Agree tables') :
    getBlobManifestTx tables' = getBlobManifestTx tables ∧
    getBlobChunkTx tables' = getBlobChunkTx tables := by
  constructor
  all_goals
    funext
    simp only [getBlobManifestTx, getBlobChunkTx, authorizeGrant, objectManifest, object, h.objects,
      h.chunks, h.grants]

theorem putBlobChunkTx_agree
    (h : putBlobChunkTx tables uploadId cap index ciphertext now = .ok (outcome, tables')) :
    tables.Agree tables' := by
  simp only [putBlobChunkTx, Except.bind_eq_ok] at h
  obtain ⟨_, _, _, _, _, _, _, _, _, _, _, _, h⟩ := h
  split at h <;> obtain ⟨_, hi, h⟩ := Except.bind_eq_ok.mp h <;> cases h
  · exact ⟨rfl, rfl, rfl⟩
  · simp only [insertUploadChunk, Except.ite_error_eq_ok] at hi
    obtain ⟨_, hi⟩ := hi
    split at hi <;> cases hi
    exact ⟨rfl, rfl, rfl⟩

theorem uploading_agree (h : request matches .beginUpload .. | .putChunk ..) :
    tables.Agree (applyBlob (request, now) tables).snd := by
  simp only [applyBlob, transact]
  split
  case h_2 => exact ⟨rfl, rfl, rfl⟩
  case h_1 he =>
    cases request <;> simp only [executeBlobRequest, Bool.false_eq_true] at he h
    all_goals
      obtain ⟨⟨_, _⟩, ht, he⟩ := Except.bind_eq_ok.mp he
      cases he
    · exact beginBlobUploadTx_agree ht
    · exact putBlobChunkTx_agree ht

theorem committed_blobs_complete_verified_immutable (requests : Nat → BlobRequest × Timestamp)
    (n : Nat) :
    let tables := blobMachine.state requests n
    (∀ object ∈ tables.objects, ∃ manifest,
      BlobManifest.parse object.manifest = .ok manifest ∧
      identify manifest = ⟨object.blobId⟩ ∧
      ((tables.chunks.filter (·.blobId = object.blobId)).map (·.chunkIndex.toNat)).Perm
        (List.range manifest.chunkCount) ∧
      ∀ chunk ∈ tables.chunks, chunk.blobId = object.blobId →
        chunk.ciphertext.length = manifest.chunkSize.toNat + 16 ∧
        manifest.digest chunk.chunkIndex.toNat = some (Sha256.digest chunk.ciphertext)) ∧
    (∀ grant ∈ tables.grants, ∃ object ∈ tables.objects, object.blobId = grant.blobId) ∧
    (∀ k ≥ n, tables.objects <+: (blobMachine.state requests k).objects ∧
      tables.chunks <+: (blobMachine.state requests k).chunks) ∧
    -- Authorized reads succeed.
    (∀ id cap now expiry,
      authorizeGrant tables id GrantRow.downloadCap cap now = .ok expiry →
      ∃ manifest, objectManifest tables id = .ok manifest ∧
        getBlobManifestTx tables id cap now = .ok (manifest, expiry) ∧
        ∀ index : UInt32, index.toNat < manifest.chunkCount → ∃ chunk ∈ tables.chunks,
          chunk.key = (id.asBytes, index) ∧
          getBlobChunkTx tables id cap index now = .ok (chunk.ciphertext, expiry)) ∧
    -- Everything that can be read stems from committed uploads.
    (∀ grant ∈ tables.grants, ∃ upload ∈ tables.uploads,
      upload.uploadId = grant.grantId ∧ upload.committedBlob = some grant.blobId) ∧
    (∀ object ∈ tables.objects, ∃ upload ∈ tables.uploads,
      upload.committedBlob = some object.blobId ∧ upload.manifest = object.manifest) ∧
    (∀ chunk ∈ tables.chunks, ∃ upload ∈ tables.uploads,
      upload.committedBlob = some chunk.blobId ∧
      ⟨upload.uploadId, chunk.chunkIndex, chunk.ciphertext⟩ ∈ tables.uploadChunks) ∧
    (∀ request now, (request matches .beginUpload .. | .putChunk ..) →
      getBlobManifestTx (applyBlob (request, now) tables).snd = getBlobManifestTx tables ∧
      getBlobChunkTx (applyBlob (request, now) tables).snd = getBlobChunkTx tables) := by
  intro tables
  have hv : tables.Valid := blobMachine_valid
  refine ⟨?_, ?_, ?_, ?_, hv.grants, hv.objects, hv.chunks, fun _ _ h => (uploading_agree h).reads⟩
  · intro object ho
    have ⟨manifest, hm, hi⟩ := hv.object_manifest ho
    refine ⟨manifest, hm, hi, hv.chunkIndices_perm ho hm, fun chunk hc hb => ?_⟩
    have hf := hv.chunk_fits ho hm hc hb
    exact ⟨hf.size, hf.digest⟩
  · exact fun grant => hv.object_of_grant
  · exact fun k hk => blobMachine_extends hk
  · intro id cap now expiry h
    have ⟨manifest, hm, hg⟩ := hv.getBlobManifestTx_eq_ok h
    exact ⟨manifest, hm, hg, fun index => hv.getBlobChunkTx_eq_ok h hm⟩

end DurableRelay
end Cofferwire
