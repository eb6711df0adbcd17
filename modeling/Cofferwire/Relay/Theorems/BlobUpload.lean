import Cofferwire.Relay.Theorems.BlobLeases
import Cofferwire.Relay.Theorems.Constraints
import Cofferwire.Toy
import Mathlib.Data.List.Perm.Subperm

namespace Cofferwire
namespace DurableRelay

-- The arguments of a call of `put_blob_chunk` on a given upload.
structure Put where
  cap        : CapabilityId
  index      : UInt32
  ciphertext : Bytes
  now        : Timestamp
deriving DecidableEq, Repr

def Put.request (uploadId : UploadId) (put : Put) : BlobRequest × Timestamp :=
  (.putChunk uploadId put.cap put.index put.ciphertext, put.now)

def Put.row (uploadId : UploadId) (put : Put) : UploadChunkRow where
  uploadId   := uploadId.asBytes
  chunkIndex := put.index
  ciphertext := put.ciphertext

-- Different numbers below `n` are all of them if there are `n`.
theorem length_eq_iff {l : List Nat} (hn : l.Nodup) (hs : l ⊆ List.range n) :
    l.length = n ↔ ∀ i < n, i ∈ l where
  mp he i hi := by
    have hp := (hn.subperm hs).perm_of_length_le (by simp [he])
    exact hp.mem_iff.mpr (List.mem_range.mpr hi)
  mpr ha := by
    have hr : List.range n ⊆ l := fun i hi => ha i (List.mem_range.mp hi)
    have hp := ((hn.subperm hs).antisymm (List.nodup_range.subperm hr)).length_eq
    rwa [List.length_range] at hp

theorem of_uploadChunk_eq_some {tables : BlobTables} {uploadId : UploadId} {i : UInt32}
    (h : uploadChunk tables uploadId i = some chunk) :
    chunk ∈ tables.uploadChunks ∧ chunk.uploadId = uploadId.asBytes ∧ chunk.chunkIndex = i := by
  have hk : chunk.key = (uploadId.asBytes, i) := Table.key_of_lookup h
  exact ⟨Table.mem_of_lookup h, congrArg Prod.fst hk, congrArg Prod.snd hk⟩

theorem capabilityId_eq {cap cap' : CapabilityId} (h : cap.asBytes = cap'.asBytes) : cap = cap' := by
  cases cap
  cases cap'
  exact congrArg _ h

section Upload

variable [Sha256]

def putAll (uploadId : UploadId) (tables : BlobTables) (puts : List Put) : BlobTables :=
  puts.foldl (fun tables put => (applyBlob (put.request uploadId) tables).snd) tables

-- An upload which has begun but for which no chunk is staged yet.
structure Begun (tables : BlobTables) (uploadId : UploadId) (caps : BlobCapabilities)
    (manifest : BlobManifest) (expiry : UInt64) : Prop where
  mem      : .begin uploadId caps manifest expiry ∈ tables.uploads
  unstaged : ∀ chunk ∈ tables.uploadChunks, chunk.uploadId ≠ uploadId.asBytes

-- A call presents the chunk with a given index.
structure Put.Presents (caps : BlobCapabilities) (manifest : BlobManifest) (i : UInt32) (put : Put) :
    Prop where
  cap    : put.cap = caps.upload
  index  : put.index = i
  range  : i.toNat < manifest.chunkCount
  size   : put.ciphertext.length = manifest.chunkSize.toNat + 16
  digest : manifest.digest i.toNat = some (Sha256.digest put.ciphertext)

instance {caps : BlobCapabilities} : DecidablePred (Put.Presents caps manifest i) :=
  fun put => decidable_of_iff (put.cap = caps.upload ∧ put.index = i ∧
    i.toNat < manifest.chunkCount ∧ put.ciphertext.length = manifest.chunkSize.toNat + 16 ∧
    manifest.digest i.toNat = some (Sha256.digest put.ciphertext))
    ⟨fun ⟨hc, hi, hr, hs, hd⟩ => ⟨hc, hi, hr, hs, hd⟩, fun ⟨hc, hi, hr, hs, hd⟩ => ⟨hc, hi, hr, hs, hd⟩⟩

variable {tables : BlobTables} {caps : BlobCapabilities}

theorem Fits.lt (h : Fits manifest index ciphertext) : index.toNat < manifest.chunkCount := by
  obtain ⟨hi, _⟩ := List.getElem?_eq_some_iff.mp h.digest
  exact hi

theorem Put.presents_iff {put : Put} :
    put.Presents caps manifest put.index ↔
      put.cap = caps.upload ∧ Fits manifest put.index put.ciphertext where
  mp h  := ⟨h.cap, h.size, h.digest⟩
  mpr h := ⟨h.left, rfl, h.right.lt, h.right.size, h.right.digest⟩

-- A new upload is one for which nothing is staged.
theorem begun_of_stored (hv : tables.Valid)
    (h : beginBlobUploadTx tables uploadId caps manifest now ttl = .ok (.stored, tables')) :
    ∃ expiry, checkedAdd now ttl = some expiry ∧ Begun tables' uploadId caps manifest expiry := by
  simp only [beginBlobUploadTx, Except.bind_eq_ok] at h
  obtain ⟨expiry, hx, h⟩ := h
  split at h
  case h_1 =>
    obtain ⟨_, _, h⟩ := Except.bind_eq_ok.mp h
    cases h
  case h_2 hn =>
    obtain ⟨_, hi, h⟩ := Except.bind_eq_ok.mp h
    cases h
    simp only [insertUpload] at hi
    split at hi <;> cases hi
    case h_1 hi =>
      obtain ⟨_, rfl⟩ := Table.insert_eq_some.mp hi
      refine ⟨expiry, (leaseExpiry_eq_ok.mp hx).right, List.mem_append_right _ (.head _), ?_⟩
      intro chunk hc he
      obtain ⟨upload, hu, ho, _⟩ := hv.staged chunk hc
      exact Table.lookup_eq_none.mp hn upload hu (ho.trans he)

-- A call only affects the staged chunks.
theorem put_snd (tables : BlobTables) (uploadId : UploadId) (put : Put) : ∃ uploadChunks,
    (applyBlob (put.request uploadId) tables).snd = { tables with uploadChunks } := by
  have hc : Change tables put.now (put.request uploadId).fst
      (applyBlob (put.request uploadId) tables).snd := applyBlob_change
  generalize (applyBlob (put.request uploadId) tables).snd = tables' at hc
  cases hc
  case read => exact ⟨_, rfl⟩
  case put  => exact ⟨_, rfl⟩

section Put

variable {put : Put} {manifest : BlobManifest} {uploadId : UploadId} {expiry : UInt64} (hv : tables.Valid)
  (hu : .begin uploadId caps manifest expiry ∈ tables.uploads)
include hv hu

theorem upload_eq : upload tables uploadId = some (.begin uploadId caps manifest expiry) :=
  (Table.lookup_eq_some hv.keyed.uploads).mpr ⟨hu, rfl⟩

theorem put_presented (hl : put.now < expiry) (hp : put.Presents caps manifest put.index)
    (hn : uploadChunk tables uploadId put.index = none) :
    (applyBlob (put.request uploadId) tables).snd =
      { tables with uploadChunks := tables.uploadChunks ++ [put.row uploadId] } := by
  have hu := upload_eq hv hu
  have hk : Table.lookup UploadRow.uploadId (put.row uploadId).uploadId tables.uploads = _ := hu
  have hi : Table.insert UploadChunkRow.key (put.row uploadId) tables.uploadChunks = some _ :=
    Table.insert_eq_some.mpr ⟨hn, rfl⟩
  have hi : insertUploadChunk tables (put.row uploadId) =
      .ok { tables with uploadChunks := tables.uploadChunks ++ [put.row uploadId] } := by
    simp [insertUploadChunk, hk, hi]
  have hx : put.now < fromBeBytes (UploadRow.begin uploadId caps manifest expiry).expiresAt := by
    simpa [UploadRow.begin] using hl
  have hm : parseManifest (UploadRow.begin uploadId caps manifest expiry).manifest = .ok manifest :=
    parseManifest_eq_ok.mpr (BlobManifest.parse_eq_ok.mpr rfl)
  apply applyBlob_snd (.putChunk .stored)
  simp only [executeBlobRequest, putBlobChunkTx, Except.bind_eq_ok, okOr_eq_ok, ensure_eq_ok, hu, hn]
  have hc := congrArg CapabilityId.asBytes hp.cap.symm
  exact ⟨(.stored, _), ⟨_, rfl, (), hc, (), hx, manifest, hm, _, hp.digest, (), ⟨hp.size, rfl⟩, _, hi, rfl⟩,
    rfl⟩

-- All other calls are rejected or repeat an earlier one.
theorem put_ignored
    (h : ¬(put.Presents caps manifest put.index ∧ uploadChunk tables uploadId put.index = none)) :
    (applyBlob (put.request uploadId) tables).snd = tables := by
  have hc : Change tables put.now (put.request uploadId).fst (applyBlob (put.request uploadId) tables).snd :=
    applyBlob_change
  generalize (applyBlob (put.request uploadId) tables).snd = tables' at hc
  cases hc
  case read => rfl
  case put row manifest' parsed opens new fits =>
    obtain rfl := hv.keyed.uploads.eq opens.mem hu opens.uploadId
    cases parsed.symm.trans (BlobManifest.parse_eq_ok.mpr rfl)
    have hc : put.cap = caps.upload := capabilityId_eq opens.cap.symm
    exact absurd ⟨Put.presents_iff.mpr ⟨hc, fits⟩, Table.lookup_eq_none.mpr new⟩ h

-- A chunk is staged if it has been before or is presented now.
theorem put_uploadChunk (hl : put.now < expiry) (i : UInt32) :
    uploadChunk (applyBlob (put.request uploadId) tables).snd uploadId i =
      (uploadChunk tables uploadId i).or
        (if put.Presents caps manifest i then some (put.row uploadId) else none) := by
  by_cases h : put.Presents caps manifest put.index ∧ uploadChunk tables uploadId put.index = none
  case pos =>
    rw [put_presented hv hu hl h.left h.right]
    by_cases hi : put.index = i
    case pos =>
      subst hi
      rw [if_pos h.left, h.right]
      exact Table.lookup_append_self h.right rfl
    case neg =>
      rw [if_neg fun hp => hi hp.index, Option.or_none]
      exact Table.lookup_append_of_ne fun he => hi (congrArg Prod.snd he)
  case neg =>
    rw [put_ignored hv hu h]
    split
    case isFalse => exact Option.or_none.symm
    case isTrue hp =>
      obtain rfl := hp.index
      obtain ⟨row, hr⟩ := Option.ne_none_iff_exists'.mp fun hn => h ⟨hp, hn⟩
      rw [hr, Option.some_or]

end Put

section PutAll

variable {puts : List Put} {manifest : BlobManifest} {uploadId : UploadId} {expiry : UInt64}

theorem putAll_eq : ∃ uploadChunks, putAll uploadId tables puts = { tables with uploadChunks } := by
  induction puts generalizing tables
  case nil => exact ⟨_, rfl⟩
  case cons put puts hi =>
    obtain ⟨_, hp⟩ := put_snd tables uploadId put
    obtain ⟨uploadChunks, hc⟩ := @hi (applyBlob (put.request uploadId) tables).snd
    refine ⟨uploadChunks, hc.trans ?_⟩
    rw [hp]

theorem putAll_valid (hv : tables.Valid) : (putAll uploadId tables puts).Valid := by
  induction puts generalizing tables
  case nil          => exact hv
  case cons puts hi => exact hi (applyBlob_change.step.valid hv)

-- The first of the calls which present a chunk decides what is staged.
theorem putAll_uploadChunk (hv : tables.Valid)
    (hu : .begin uploadId caps manifest expiry ∈ tables.uploads)
    (hl : ∀ put ∈ puts, put.now < expiry) (i : UInt32) :
    uploadChunk (putAll uploadId tables puts) uploadId i = (uploadChunk tables uploadId i).or
      ((puts.find? (·.Presents caps manifest i)).map (·.row uploadId)) := by
  induction puts generalizing tables
  case nil => exact Option.or_none.symm
  case cons put puts hi =>
    have hv' : (applyBlob (put.request uploadId) tables).snd.Valid := applyBlob_change.step.valid hv
    have hu' : .begin uploadId caps manifest expiry ∈
        (applyBlob (put.request uploadId) tables).snd.uploads := by
      obtain ⟨_, hp⟩ := put_snd tables uploadId put
      rwa [hp]
    have hs := put_uploadChunk hv hu (hl put (.head _)) i
    have hi := hi hv' hu' fun put hp => hl put (.tail _ hp)
    rw [hs, Option.or_assoc] at hi
    refine hi.trans ?_
    rw [List.find?_cons]
    by_cases hp : put.Presents caps manifest i
    case pos => simp [hp]
    case neg => simp [hp]

end PutAll

-- What a commit amounts to once a pending upload has been found and authorized.
theorem commitBlobTx_pending {row : UploadRow} (hf : upload tables uploadId = some row)
    (hc : row.uploadCap = cap.asBytes) (hx : fromBeBytes row.expiresAt = expiry) (hl : now < expiry)
    (hp : row.committedBlob = none) (hm : parseManifest row.manifest = .ok manifest) :
    commitBlobTx tables uploadId cap requested now = (do
      ensure (identify manifest = requested) .identityMismatch
      ensure (tables.uploadChunks.countP (·.uploadId = uploadId.asBytes) = manifest.chunkCount)
        .incomplete
      verifyChunks tables uploadId manifest
      ensure ((object tables requested).all (·.manifest = manifest.asBytes)) .idConflict
      let tables ← publishTx tables uploadId row requested manifest
      return (expiry, tables)) := by
  have hc : ensure (row.uploadCap = cap.asBytes) .unauthorized = .ok () := ensure_eq_ok.mpr hc
  have hl : ensure (now < expiry) .expired = .ok () := ensure_eq_ok.mpr hl
  simp only [commitBlobTx, okOr_eq_ok.mpr hf, hc, hx, hl, hp, hm, bind, Except.bind]

section Commit

variable {manifest : BlobManifest} {uploadId : UploadId} {expiry : UInt64} (hv : tables.Valid)
  (hu : .begin uploadId caps manifest expiry ∈ tables.uploads)
include hv hu

theorem staged_fits (hc : chunk ∈ tables.uploadChunks) (hi : chunk.uploadId = uploadId.asBytes) :
    Fits manifest chunk.chunkIndex chunk.ciphertext := by
  obtain ⟨upload, hm, ho, _, hp, hf⟩ := hv.staged chunk hc
  obtain rfl := hv.keyed.uploads.eq hm hu (ho.trans hi)
  cases hp.symm.trans (BlobManifest.parse_eq_ok.mpr rfl)
  exact hf

-- As all staged chunks are distinct ones of the manifest, it suffices to count them.
theorem count_eq_iff :
    tables.uploadChunks.countP (·.uploadId = uploadId.asBytes) = manifest.chunkCount ↔
      ∀ index < manifest.chunkCount, (uploadChunk tables uploadId (.ofNat index)).isSome := by
  let indices := (tables.uploadChunks.filter (·.uploadId = uploadId.asBytes)).map (·.chunkIndex.toNat)
  have hn : indices.Nodup := by
    refine List.Nodup.map_on ?_ (hv.keyed.uploadChunks.of_map.filter _)
    intro chunk hc chunk' hc' he
    obtain ⟨hc, hi⟩ := List.mem_filter.mp hc
    obtain ⟨hc', hi'⟩ := List.mem_filter.mp hc'
    refine hv.keyed.uploadChunks.eq hc hc' ?_
    simp_all [UploadChunkRow.key, UInt32.toNat_inj]
  have hs : indices ⊆ List.range manifest.chunkCount := by
    intro index hm
    obtain ⟨chunk, hc, rfl⟩ := List.mem_map.mp hm
    obtain ⟨hc, hi⟩ := List.mem_filter.mp hc
    exact List.mem_range.mpr (staged_fits hv hu hc (by simpa using hi)).lt
  have hm {index} (hi : index < manifest.chunkCount) :
      index ∈ indices ↔ (uploadChunk tables uploadId (.ofNat index)).isSome := by
    have hl : (UInt32.ofNat index).toNat = index := by
      have := manifest.chunkCount_le
      simp only [UInt32.toNat_ofNat', maxChunks] at this ⊢
      omega
    constructor
    case mp =>
      intro hm
      obtain ⟨chunk, hc, rfl⟩ := List.mem_map.mp hm
      obtain ⟨hc, ho⟩ := List.mem_filter.mp hc
      have hk : chunk.key = (uploadId.asBytes, chunk.chunkIndex) := by
        simpa [UploadChunkRow.key] using ho
      rw [UInt32.ofNat_toNat]
      exact Option.isSome_iff_exists.mpr
        ⟨chunk, (Table.lookup_eq_some hv.keyed.uploadChunks).mpr ⟨hc, hk⟩⟩
    case mpr =>
      intro hs
      obtain ⟨chunk, hc⟩ := Option.isSome_iff_exists.mp hs
      obtain ⟨hc, ho, hx⟩ := of_uploadChunk_eq_some hc
      exact List.mem_map.mpr ⟨chunk, List.mem_filter.mpr ⟨hc, by simpa using ho⟩, hx ▸ hl⟩
  have hc : tables.uploadChunks.countP (·.uploadId = uploadId.asBytes) = indices.length := by
    rw [List.countP_eq_length_filter, List.length_map]
  rw [hc, length_eq_iff hn hs]
  exact forall₂_congr fun _ => hm

theorem verifyChunks_staged
    (h : ∀ index < manifest.chunkCount, (uploadChunk tables uploadId (.ofNat index)).isSome) :
    verifyChunks tables uploadId manifest = .ok () := by
  refine Except.forM_eq_ok.mpr fun index hi => ?_
  have hi := List.mem_range.mp hi
  have hl : index < 2 ^ 32 := by
    have := manifest.chunkCount_le
    simp only [maxChunks] at this
    omega
  obtain ⟨chunk, hc⟩ := Option.isSome_iff_exists.mp (h index hi)
  obtain ⟨hm, ho, hx⟩ := of_uploadChunk_eq_some hc
  have hd := (staged_fits hv hu hm ho).digest
  rw [hx, UInt32.toNat_ofNat', Nat.mod_eq_of_lt hl] at hd
  simp only [verifyChunk, Except.bind_eq_ok, okOr_eq_ok, ensure_eq_ok]
  exact ⟨(), hl, chunk, hc, hd⟩

theorem commit_fst (hl : now < expiry) (ho : ∀ object ∈ tables.objects,
      object.blobId = (identify manifest).asBytes → object.manifest = manifest.asBytes) :
    (applyBlob (.commit uploadId caps.upload requested, now) tables).fst =
      if requested ≠ identify manifest then
        .error (.protocol .identityMismatch)
      else if ∀ index < manifest.chunkCount, (uploadChunk tables uploadId (.ofNat index)).isSome then
        .ok (.commit expiry)
      else
        .error (.protocol .incomplete) := by
  have hm : parseManifest manifest.asBytes = .ok manifest :=
    parseManifest_eq_ok.mpr (BlobManifest.parse_eq_ok.mpr rfl)
  simp only [applyBlob, transact, executeBlobRequest,
    commitBlobTx_pending (upload_eq hv hu) rfl (fromBeBytes_toBeBytes _) hl rfl hm]
  by_cases hi : requested = identify manifest
  case neg =>
    rw [if_pos hi, ensure, if_neg (Ne.symm hi)]
    rfl
  case pos =>
    subst hi
    rw [if_neg (not_not.mpr rfl)]
    by_cases hc : ∀ index < manifest.chunkCount, (uploadChunk tables uploadId (.ofNat index)).isSome
    case neg =>
      have hn := mt (count_eq_iff hv hu).mp hc
      rw [if_neg hc]
      simp [ensure, hn, bind, Except.bind]
    case pos =>
      have hn := (count_eq_iff hv hu).mpr hc
      have ho : (object tables (identify manifest)).all (·.manifest = manifest.asBytes) := by
        cases hl : object tables (identify manifest)
        case none => rfl
        case some row => simpa using ho row (Table.mem_of_lookup hl) (Table.key_of_lookup hl)
      have hg := hv.grantId_ne hu rfl
      have ht : publishTx tables uploadId (.begin uploadId caps manifest expiry) (identify manifest)
          manifest = .ok _ := (publishTx_eq_ok rfl).mpr ⟨hg, rfl⟩
      rw [if_pos hc]
      simp [ensure, hn, ho, verifyChunks_staged hv hu hc, ht, bind, Except.bind, pure, Except.pure]

end Commit

section Order

variable {puts : List Put} {manifest : BlobManifest} {uploadId : UploadId} {expiry : UInt64}
  (hv : tables.Valid) (hb : Begun tables uploadId caps manifest expiry)
include hv hb

theorem Begun.staged (hl : ∀ put ∈ puts, put.now < expiry) (i : UInt32) :
    uploadChunk (putAll uploadId tables puts) uploadId i =
      (puts.find? (·.Presents caps manifest i)).map (·.row uploadId) := by
  have hn : uploadChunk tables uploadId i = none :=
    Table.lookup_eq_none.mpr fun chunk hc he => hb.unstaged chunk hc (congrArg Prod.fst he)
  rw [putAll_uploadChunk hv hb.mem hl, hn, Option.none_or]

theorem Begun.staged_iff (hl : ∀ put ∈ puts, put.now < expiry) (i : UInt32) :
    (uploadChunk (putAll uploadId tables puts) uploadId i).isSome ↔
      ∃ put ∈ puts, put.Presents caps manifest i := by
  rw [hb.staged hv hl, Option.isSome_map, List.find?_isSome]
  simp only [decide_eq_true_eq]

theorem Begun.commit (hl : now < expiry) (ho : ∀ object ∈ tables.objects,
      object.blobId = (identify manifest).asBytes → object.manifest = manifest.asBytes) :
    (applyBlob (.commit uploadId caps.upload requested, now) (putAll uploadId tables puts)).fst =
      if requested ≠ identify manifest then
        .error (.protocol .identityMismatch)
      else if ∀ index < manifest.chunkCount,
        (uploadChunk (putAll uploadId tables puts) uploadId (.ofNat index)).isSome then
        .ok (.commit expiry)
      else
        .error (.protocol .incomplete) := by
  obtain ⟨_, hp⟩ := @putAll_eq _ tables puts uploadId
  refine commit_fst (putAll_valid hv) ?_ hl ?_
  · rw [hp]
    exact hb.mem
  · rwa [hp]

end Order

-- Any calls on an upload in any order stage exactly the chunks which they present, and a commit succeeds
-- exactly if these are all chunks of the manifest.
theorem chunk_upload_exact (requests : Nat → BlobRequest × Timestamp) (n : Nat) (uploadId : UploadId)
    (caps : BlobCapabilities) (manifest : BlobManifest) (expiry : UInt64)
    (hb : Begun (blobMachine.state requests n) uploadId caps manifest expiry) (puts : List Put)
    (hl : ∀ put ∈ puts, put.now < expiry) :
    let tables := putAll uploadId (blobMachine.state requests n) puts
    (∀ i, (uploadChunk tables uploadId i).isSome ↔ ∃ put ∈ puts, put.Presents caps manifest i) ∧
    (∀ i, uploadChunk tables uploadId i =
      (puts.find? (·.Presents caps manifest i)).map (·.row uploadId)) ∧
    ((∀ object ∈ (blobMachine.state requests n).objects,
        object.blobId = (identify manifest).asBytes → object.manifest = manifest.asBytes) →
      ∀ requested now, now < expiry →
        (applyBlob (.commit uploadId caps.upload requested, now) tables).fst =
          if requested ≠ identify manifest then
            .error (.protocol .identityMismatch)
          else if ∀ index < manifest.chunkCount,
            (uploadChunk tables uploadId (.ofNat index)).isSome then
            .ok (.commit expiry)
          else
            .error (.protocol .incomplete)) ∧
    -- The order and the number of the calls do not matter.
    (∀ puts', (∀ put, put ∈ puts' ↔ put ∈ puts) →
      let tables' := putAll uploadId (blobMachine.state requests n) puts'
      (∀ i, (uploadChunk tables' uploadId i).isSome = (uploadChunk tables uploadId i).isSome) ∧
      ((∀ object ∈ (blobMachine.state requests n).objects,
          object.blobId = (identify manifest).asBytes → object.manifest = manifest.asBytes) →
        ∀ requested now, now < expiry →
          (applyBlob (.commit uploadId caps.upload requested, now) tables').fst =
            (applyBlob (.commit uploadId caps.upload requested, now) tables).fst)) := by
  have hv : (blobMachine.state requests n).Valid := blobMachine_valid
  refine ⟨hb.staged_iff hv hl, hb.staged hv hl, fun ho requested now hl => hb.commit hv hl ho, ?_⟩
  intro puts' hp
  have hs (i) : (uploadChunk (putAll uploadId (blobMachine.state requests n) puts') uploadId i).isSome =
      (uploadChunk (putAll uploadId (blobMachine.state requests n) puts) uploadId i).isSome := by
    have hl' : ∀ put ∈ puts', put.now < expiry := fun put hm => hl put ((hp put).mp hm)
    rw [Bool.eq_iff_iff, hb.staged_iff hv hl', hb.staged_iff hv hl]
    simp only [hp]
  refine ⟨hs, fun ho requested now hl => ?_⟩
  rw [hb.commit hv hl ho, hb.commit hv hl ho]
  simp only [hs]

end Upload

-- The chunks of an upload are put in the wrong order, more than once and along with others.
namespace Shuffled

attribute [local instance] Toy.sha256

def chunk (byte : UInt8) : Bytes := .replicate 48 byte

def raw : BlobManifest.Raw where
  bytes      := []
  objectSalt := .replicate 16 3
  paddedSize := 64
  chunkSize  := 32
  digests    := [Sha256.digest (chunk 0), Sha256.digest (chunk 1)]

def manifest : BlobManifest :=
  .ofRaw raw ⟨by decide, by decide⟩

def uploadId : UploadId := ⟨.replicate 32 0⟩

def cap (byte : UInt8) : CapabilityId := ⟨.replicate 32 byte⟩

def caps : BlobCapabilities := ⟨cap 1, cap 2, cap 3, cap 4⟩

def requests (_ : Nat) : BlobRequest × Timestamp :=
  (.beginUpload uploadId caps manifest 100, 0)

def put (byte : UInt8) (index : UInt32) (ciphertext : UInt8) : Put where
  cap        := cap byte
  index      := index
  ciphertext := chunk ciphertext
  now        := 10

def puts : List Put :=
  [put 2 0 0, put 1 1 1, put 1 1 1, put 1 0 1, put 1 0 0, put 1 2 0]

theorem begun : Begun (blobMachine.state requests 1) uploadId caps manifest 100 where
  mem      := by decide +kernel
  unstaged := by decide +kernel

theorem presented : ∀ index < manifest.chunkCount,
    ∃ put ∈ puts, put.Presents caps manifest (.ofNat index) := by
  decide +kernel

-- The upload can also be committed if the calls are made the other way around.
theorem shuffled_upload_commits :
    (∀ i, uploadChunk (putAll uploadId (blobMachine.state requests 1) puts) uploadId i =
      (puts.find? (·.Presents caps manifest i)).map (·.row uploadId)) ∧
    (applyBlob (.commit uploadId (cap 1) (identify manifest), 50)
      (putAll uploadId (blobMachine.state requests 1) puts)).fst = .ok (.commit 100) ∧
    (applyBlob (.commit uploadId (cap 1) (identify manifest), 50)
      (putAll uploadId (blobMachine.state requests 1) puts.reverse)).fst = .ok (.commit 100) := by
  obtain ⟨hs, hf, hc, hp⟩ :=
    chunk_upload_exact requests 1 uploadId caps manifest 100 begun puts (by decide)
  have ho : ∀ object ∈ (blobMachine.state requests 1).objects,
      object.blobId = (identify manifest).asBytes → object.manifest = manifest.asBytes := by
    decide +kernel
  have hc := hc ho (identify manifest) 50 (by decide)
  rw [if_neg (not_not.mpr rfl), if_pos fun index hi => (hs _).mpr (presented index hi)] at hc
  refine ⟨hf, hc, ?_⟩
  exact ((hp puts.reverse fun _ => List.mem_reverse).right ho _ 50 (by decide)).trans hc

end Shuffled

end DurableRelay
end Cofferwire
