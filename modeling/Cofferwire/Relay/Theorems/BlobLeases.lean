import Cofferwire.Relay.Theorems.BlobAccess

namespace Cofferwire
namespace DurableRelay

variable {tables : BlobTables} {id : BlobId}

section Reads

-- A read succeeds exactly under a live grant, whose expiry it returns.
structure SucceedsUnderLiveGrant (tables : BlobTables) (id : BlobId) (cap : CapabilityId)
    (now : Timestamp) (result : Except BlobDurableError (α × UInt64)) : Prop where
  success : (∃ content, result = .ok content) ↔
    ∃ grant ∈ tables.grants, grant.matches GrantRow.downloadCap id cap ∧ grant.Live now
  expiry  : ∀ content expiry, result = .ok (content, expiry) →
    ∃ grant ∈ tables.grants, grant.matches GrantRow.downloadCap id cap ∧ grant.Live now ∧
      fromBeBytes grant.expiresAt = expiry
  failure : ∀ e, result = .error e →
    e = .protocol .notFound ∨ e = .protocol .unauthorized ∨ e = .protocol .expired

-- A read only fails if it is not authorized.
inductive Follows : Except BlobDurableError UInt64 → Except BlobDurableError (α × UInt64) → Prop
  | ok : Follows (.ok expiry) (.ok (content, expiry))
  | error : Follows (.error e) (.error e)

theorem authorizeGrant_error (h : authorizeGrant tables id column cap now = .error e) :
    e = .protocol .notFound ∨ e = .protocol .unauthorized ∨ e = .protocol .expired := by
  unfold authorizeGrant at h
  split at h
  case h_1 => split at h <;> simp_all
  case h_2 grant _ =>
    by_cases hd : grant.deleted <;> by_cases he : now < fromBeBytes grant.expiresAt <;>
      simp_all [ensure, bind, Except.bind, pure, Except.pure]

theorem succeedsUnderLiveGrant_iff {result : Except BlobDurableError (α × UInt64)}
    (h : Follows (authorizeGrant tables id GrantRow.downloadCap cap now) result) :
    SucceedsUnderLiveGrant tables id cap now result ↔
      ((∃ grant ∈ tables.grants, grant.matches GrantRow.downloadCap id cap ∧ grant.Live now) →
        ∃ grant, tables.grants.find? (GrantRow.matches GrantRow.downloadCap id cap) = some grant ∧
          grant.Live now) := by
  generalize ha : authorizeGrant tables id GrantRow.downloadCap cap now = auth at h
  cases h
  case ok expiry content =>
    have ⟨grant, hf, hl, he⟩ := authorizeGrant_eq_ok.mp ha
    have hg : ∃ grant ∈ tables.grants, grant.matches GrantRow.downloadCap id cap ∧ grant.Live now ∧
        fromBeBytes grant.expiresAt = expiry :=
      ⟨grant, List.mem_of_find?_eq_some hf, List.find?_some hf, hl, he⟩
    constructor
    · exact fun _ _ => ⟨grant, hf, hl⟩
    · intro _
      refine ⟨⟨fun _ => ?_, fun _ => ⟨_, rfl⟩⟩, ?_, by simp⟩
      · have ⟨grant, hm, hg, hl, _⟩ := hg
        exact ⟨grant, hm, hg, hl⟩
      · intro _ _ h
        cases h
        exact hg
  case error e =>
    have hn : ¬∃ grant, tables.grants.find? (GrantRow.matches GrantRow.downloadCap id cap) =
        some grant ∧ grant.Live now := by
      rintro ⟨grant, hf, hl⟩
      have := authorizeGrant_eq_ok.mpr ⟨grant, hf, hl, rfl⟩
      simp [ha] at this
    rw [imp_iff_not hn]
    constructor
    · intro hs hg
      have ⟨_, h⟩ := hs.success.mpr hg
      cases h
    · intro hg
      refine ⟨⟨?_, fun h => absurd h hg⟩, ?_, ?_⟩
      · rintro ⟨_, h⟩
        cases h
      · rintro _ _ h
        cases h
      · rintro _ h
        cases h
        exact authorizeGrant_error ha

variable [Sha256]

def ReadsExactlyUnderLiveGrant (tables : BlobTables) (id : BlobId) (cap : CapabilityId)
    (now : Timestamp) : Prop :=
  SucceedsUnderLiveGrant tables id cap now (getBlobManifestTx tables id cap now) ∧
  ∀ index : UInt32,
    (∀ manifest, objectManifest tables id = .ok manifest → index.toNat < manifest.chunkCount) →
    SucceedsUnderLiveGrant tables id cap now (getBlobChunkTx tables id cap index now)

theorem BlobTables.Valid.getBlobManifestTx_follows (hv : tables.Valid) :
    Follows (authorizeGrant tables id GrantRow.downloadCap cap now)
      (getBlobManifestTx tables id cap now) := by
  cases ha : authorizeGrant tables id GrantRow.downloadCap cap now
  case ok =>
    have ⟨_, _, hg⟩ := hv.getBlobManifestTx_eq_ok ha
    exact hg ▸ .ok
  case error =>
    simp only [getBlobManifestTx, ha]
    exact .error

theorem BlobTables.Valid.getBlobChunkTx_follows (hv : tables.Valid)
    (hi : ∀ manifest, objectManifest tables id = .ok manifest → index.toNat < manifest.chunkCount) :
    Follows (authorizeGrant tables id GrantRow.downloadCap cap now)
      (getBlobChunkTx tables id cap index now) := by
  cases ha : authorizeGrant tables id GrantRow.downloadCap cap now
  case ok =>
    have ⟨manifest, hm, _⟩ := hv.getBlobManifestTx_eq_ok ha
    have ⟨_, _, _, hg⟩ := hv.getBlobChunkTx_eq_ok ha hm (hi manifest hm)
    exact hg ▸ .ok
  case error =>
    simp only [getBlobChunkTx, ha]
    exact .error

-- Reads depend on the first matching grant only, which may hide a live one.
theorem reads_exactly_under_live_grant_iff (requests : Nat → BlobRequest × Timestamp) (n : Nat)
    (id : BlobId) (cap : CapabilityId) (now : Timestamp) :
    ReadsExactlyUnderLiveGrant (blobMachine.state requests n) id cap now ↔
      ((∃ grant ∈ (blobMachine.state requests n).grants,
        grant.matches GrantRow.downloadCap id cap ∧ grant.Live now) →
      ∃ grant, (blobMachine.state requests n).grants.find?
        (GrantRow.matches GrantRow.downloadCap id cap) = some grant ∧ grant.Live now) := by
  have hv : (blobMachine.state requests n).Valid := blobMachine_valid
  constructor
  · exact fun h => (succeedsUnderLiveGrant_iff hv.getBlobManifestTx_follows).mp h.left
  · intro h
    exact ⟨(succeedsUnderLiveGrant_iff hv.getBlobManifestTx_follows).mpr h, fun index hi =>
      (succeedsUnderLiveGrant_iff (hv.getBlobChunkTx_follows hi)).mpr h⟩

end Reads

section Renewal

-- A successful renewal from grants `before` to grants `after`.
structure Renewed (before after : List GrantRow) (id : BlobId) (cap : CapabilityId)
    (now : Timestamp) (ttl expiry : UInt64) : Prop where
  keeps     : ∀ grant ∈ before, ∃ grant' ∈ after, grant'.grantId = grant.grantId ∧
    fromBeBytes grant.expiresAt ≤ fromBeBytes grant'.expiresAt ∧
    (¬grant.Live now ∨ ¬grant.matches GrantRow.renewCap id cap → grant' = grant)
  lengthens : ∃ grant ∈ before, grant.matches GrantRow.renewCap id cap ∧ grant.Live now ∧
    ∃ grant' ∈ after, grant'.grantId = grant.grantId ∧ fromBeBytes grant'.expiresAt = expiry ∧
      expiry.toNat = max (fromBeBytes grant.expiresAt).toNat (now.toNat + ttl.toNat)

structure RenewalKeepsLeases [Sha256] (tables : BlobTables) (id : BlobId) (cap : CapabilityId)
    (now : Timestamp) (ttl : UInt64) : Prop where
  ok    : ∀ expiry tables', applyBlob (.renew id cap ttl, now) tables = (.ok (.renew expiry), tables') →
    Renewed tables.grants tables'.grants id cap now ttl expiry
  error : ∀ e tables', applyBlob (.renew id cap ttl, now) tables = (.error e, tables') →
    tables'.grants = tables.grants

-- A renewal is permitted by the first matching grant.
structure Permitted (tables : BlobTables) (id : BlobId) (cap : CapabilityId) (now : Timestamp)
    (ttl : UInt64) (first : GrantRow) : Prop where
  found : tables.grants.find? (GrantRow.matches GrantRow.renewCap id cap) = some first
  live  : first.Live now
  pos   : 0 < ttl
  bound : now.toNat + ttl.toNat < 2 ^ 64

-- The grants which a renewal overwrites.
def renewed (tables : BlobTables) (id : BlobId) (cap : CapabilityId) (expiry : UInt64) :
    List GrantRow :=
  Table.update (fun grant => grant.matches GrantRow.renewCap id cap ∧ ¬grant.deleted)
    ({ · with expiresAt := toBeBytes expiry }) tables.grants

theorem renewBlobTx_eq_ok :
    renewBlobTx tables id cap now ttl = .ok (expiry, tables') ↔
      ∃ first, Permitted tables id cap now ttl first ∧
        expiry.toNat = max (fromBeBytes first.expiresAt).toNat (now.toNat + ttl.toNat) ∧
        tables' = { tables with grants := renewed tables id cap expiry } := by
  simp only [renewBlobTx, Except.bind_eq_ok, leaseExpiry_eq_ok, authorizeGrant_eq_ok, pure,
    Except.pure, Except.ok.injEq, Prod.mk.injEq]
  constructor
  · rintro ⟨requested, ⟨hp, ha⟩, _, ⟨first, hf, hl, rfl⟩, rfl, rfl⟩
    have ha := checkedAdd_eq_some.mp ha
    have := requested.toNat_lt
    exact ⟨first, ⟨hf, hl, hp, by omega⟩, by rw [toNat_max, ha], rfl⟩
  · rintro ⟨first, ⟨hf, hl, hp, hb⟩, he, rfl⟩
    have ha : checkedAdd now ttl = some (now + ttl) := if_pos hb
    have hm : max (fromBeBytes first.expiresAt) (now + ttl) = expiry := by
      rw [←UInt64.toNat_inj, toNat_max, he, checkedAdd_eq_some.mp ha]
    exact ⟨_, ⟨hp, ha⟩, _, ⟨first, hf, hl, rfl⟩, hm, by rw [hm]; rfl⟩

theorem renewed_iff (hv : Table.Keyed GrantRow.grantId tables.grants)
    (hp : Permitted tables id cap now ttl first)
    (he : expiry.toNat = max (fromBeBytes first.expiresAt).toNat (now.toNat + ttl.toNat)) :
    Renewed tables.grants (renewed tables id cap expiry) id cap now ttl expiry ↔
      ∀ grant ∈ tables.grants, grant.matches GrantRow.renewCap id cap → ¬grant.deleted →
        now < fromBeBytes grant.expiresAt ∧ (fromBeBytes grant.expiresAt).toNat ≤ expiry.toNat := by
  have hk : Table.Keyed GrantRow.grantId (renewed tables id cap expiry) := hv.update fun _ => rfl
  have hr {grant} (hg : grant ∈ tables.grants) (hm : grant.matches GrantRow.renewCap id cap)
      (hd : ¬grant.deleted) :
      { grant with expiresAt := toBeBytes expiry } ∈ renewed tables id cap expiry :=
    Table.mem_update.mpr ⟨grant, hg, by simp [hm, hd]⟩
  constructor
  · intro h grant hg hm hd
    have ⟨grant', hg', hi, hle, hn⟩ := h.keeps grant hg
    cases hk.eq hg' (hr hg hm hd) hi
    simp only [fromBeBytes_toBeBytes, UInt64.le_iff_toNat_le] at hle
    refine ⟨?_, hle⟩
    -- An expired grant would have been revived.
    by_contra hx
    have hr : toBeBytes expiry = grant.expiresAt :=
      congrArg GrantRow.expiresAt <| hn (.inl fun hl => hx hl.right)
    have hp := hp.pos
    rw [←hr, fromBeBytes_toBeBytes] at hx
    simp only [UInt64.lt_iff_toNat_lt, UInt64.toNat_zero] at hx hp
    omega
  · intro h
    refine ⟨fun grant hg => ?_, first, List.mem_of_find?_eq_some hp.found, List.find?_some hp.found,
      hp.live, _, hr (List.mem_of_find?_eq_some hp.found) (List.find?_some hp.found) hp.live.left,
      rfl, fromBeBytes_toBeBytes _, he⟩
    by_cases hu : grant.matches GrantRow.renewCap id cap ∧ ¬grant.deleted
    case pos =>
      have ⟨hl, hle⟩ := h grant hg hu.left hu.right
      refine ⟨_, hr hg hu.left hu.right, rfl, ?_, ?_⟩
      · simpa [UInt64.le_iff_toNat_le] using hle
      · rintro (hn | hn)
        · exact absurd ⟨hu.right, hl⟩ hn
        · exact absurd hu.left hn
    case neg =>
      have hg : grant ∈ renewed tables id cap expiry :=
        Table.mem_update.mpr ⟨grant, hg, if_neg (by simpa using hu)⟩
      exact ⟨grant, hg, rfl, UInt64.le_refl _, fun _ => rfl⟩

theorem renewalKeepsLeases_iff [Sha256] (hv : tables.Valid) :
    RenewalKeepsLeases tables id cap now ttl ↔
      ∀ first, Permitted tables id cap now ttl first →
        ∀ grant ∈ tables.grants, grant.matches GrantRow.renewCap id cap → ¬grant.deleted →
          now < fromBeBytes grant.expiresAt ∧
          (fromBeBytes grant.expiresAt).toNat ≤
            max (fromBeBytes first.expiresAt).toNat (now.toNat + ttl.toNat) := by
  cases hr : renewBlobTx tables id cap now ttl
  case error e =>
    have ha : applyBlob (.renew id cap ttl, now) tables = (.error e, tables) := by
      simp only [applyBlob, transact, executeBlobRequest, hr]
      rfl
    refine iff_of_true ⟨?_, ?_⟩ fun first hp => ?_
    · intro _ _ h
      cases ha.symm.trans h
    · intro _ _ h
      cases ha.symm.trans h
      rfl
    have hm : max (fromBeBytes first.expiresAt).toNat (now.toNat + ttl.toNat) < 2 ^ 64 :=
      Nat.max_lt.mpr ⟨UInt64.toNat_lt _, hp.bound⟩
    have := renewBlobTx_eq_ok.mpr ⟨first, hp, UInt64.toNat_ofNat_of_lt hm, rfl⟩
    simp [hr] at this
  case ok result =>
    obtain ⟨expiry, tables'⟩ := result
    have ha : applyBlob (.renew id cap ttl, now) tables = (.ok (.renew expiry), tables') := by
      simp only [applyBlob, transact, executeBlobRequest, hr]
      rfl
    obtain ⟨first, hp, he, rfl⟩ := renewBlobTx_eq_ok.mp hr
    have hr := renewed_iff hv.keyed.grants hp he
    rw [he] at hr
    constructor
    · intro h first' hp'
      cases hp.found.symm.trans hp'.found
      exact hr.mp <| h.ok _ _ ha
    · intro h
      refine ⟨?_, ?_⟩
      · intro _ _ h'
        cases ha.symm.trans h'
        exact hr.mpr <| h first hp
      · intro _ _ h'
        cases ha.symm.trans h'

-- A renewal overwrites the expiry of all matching grants which are not deleted.
theorem renewal_keeps_leases_iff [Sha256] (requests : Nat → BlobRequest × Timestamp) (n : Nat)
    (id : BlobId) (cap : CapabilityId) (now : Timestamp) (ttl : UInt64) :
    RenewalKeepsLeases (blobMachine.state requests n) id cap now ttl ↔
      ∀ first, Permitted (blobMachine.state requests n) id cap now ttl first →
        ∀ grant ∈ (blobMachine.state requests n).grants,
          grant.matches GrantRow.renewCap id cap → ¬grant.deleted →
          now < fromBeBytes grant.expiresAt ∧
          (fromBeBytes grant.expiresAt).toNat ≤
            max (fromBeBytes first.expiresAt).toNat (now.toNat + ttl.toNat) :=
  renewalKeepsLeases_iff blobMachine_valid

end Renewal

-- Two uploads of the same object with the same capabilities but different lifetimes.
namespace Twins

def cap : CapabilityId := ⟨.replicate 32 0⟩

def upload (b : UInt8) : UploadId := ⟨.replicate 32 b⟩

theorem upload_inj : (upload a).asBytes = (upload b).asBytes ↔ a = b := by
  simp [upload, ByteVec.replicate]

def chunk : Bytes := .replicate 80 0

def raw [Sha256] : BlobManifest.Raw where
  bytes      := []
  objectSalt := .replicate 16 0
  paddedSize := 64
  chunkSize  := 64
  digests    := [Sha256.digest chunk]

def manifest [Sha256] : BlobManifest :=
  .ofRaw raw ⟨by simp [raw, maxChunks], by simp [raw]; decide⟩

def requests [Sha256] : Nat → BlobRequest × Timestamp
  | 0 => (.beginUpload (upload 0) ⟨cap, cap, cap, cap⟩ manifest 100, 0)
  | 1 => (.beginUpload (upload 1) ⟨cap, cap, cap, cap⟩ manifest 1000, 0)
  | 2 => (.putChunk (upload 0) cap 0 chunk, 0)
  | 3 => (.putChunk (upload 1) cap 0 chunk, 0)
  | 4 => (.commit (upload 0) cap (identify manifest), 0)
  | _ => (.commit (upload 1) cap (identify manifest), 0)

def row [Sha256] (b : UInt8) (expiry : UInt64) (committed : Option BlobId) : UploadRow where
  uploadId      := (upload b).asBytes
  uploadCap     := cap.asBytes
  downloadCap   := cap.asBytes
  renewCap      := cap.asBytes
  deleteCap     := cap.asBytes
  manifest      := manifest.asBytes
  expiresAt     := toBeBytes expiry
  committedBlob := committed.map BlobId.asBytes

variable [Sha256]

def staged (b : UInt8) : UploadChunkRow :=
  ⟨(upload b).asBytes, 0, chunk⟩

theorem parseManifest_manifest : parseManifest manifest.asBytes = .ok manifest :=
  parseManifest_eq_ok.mpr <| BlobManifest.parse_eq_ok.mpr rfl

theorem begin_snd (hu : DurableRelay.upload tables (upload b) = none)
    (he : leaseExpiry 0 ttl = .ok ttl) :
    (applyBlob (.beginUpload (upload b) ⟨cap, cap, cap, cap⟩ manifest ttl, 0) tables).snd =
      { tables with uploads := tables.uploads ++ [row b ttl none] } := by
  have hi : Table.insert UploadRow.uploadId (row b ttl none) tables.uploads = some _ :=
    Table.insert_eq_some.mpr ⟨hu, rfl⟩
  have hi : insertUpload tables (row b ttl none) =
      .ok { tables with uploads := tables.uploads ++ [row b ttl none] } := by
    simp [insertUpload, hi]
  apply applyBlob_snd (.beginUpload .stored)
  simp only [executeBlobRequest, beginBlobUploadTx, Except.bind_eq_ok, hu]
  exact ⟨(.stored, _), ⟨ttl, he, _, hi, rfl⟩, rfl⟩

theorem put_snd (hu : DurableRelay.upload tables (upload b) = some (row b expiry none))
    (he : 0 < expiry) (hc : uploadChunk tables (upload b) 0 = none) :
    (applyBlob (.putChunk (upload b) cap 0 chunk, 0) tables).snd =
      { tables with uploadChunks := tables.uploadChunks ++ [staged b] } := by
  have hk : Table.lookup UploadRow.uploadId (staged b).uploadId tables.uploads = _ := hu
  have hi : Table.insert UploadChunkRow.key (staged b) tables.uploadChunks = some _ :=
    Table.insert_eq_some.mpr ⟨hc, rfl⟩
  have hi : insertUploadChunk tables (staged b) =
      .ok { tables with uploadChunks := tables.uploadChunks ++ [staged b] } := by
    simp [insertUploadChunk, hk, hi]
  apply applyBlob_snd (.putChunk .stored)
  simp only [executeBlobRequest, putBlobChunkTx, Except.bind_eq_ok, okOr_eq_ok, ensure_eq_ok, hu, hc]
  refine ⟨(.stored, _), ⟨row b expiry none, rfl, (), rfl, (), ?_, manifest, parseManifest_manifest,
    Sha256.digest chunk, rfl, (), ⟨rfl, rfl⟩, _, hi, rfl⟩, rfl⟩
  simpa [row] using he

theorem verifyChunks_staged (hc : uploadChunk tables (upload b) 0 = some (staged b)) :
    verifyChunks tables (upload b) manifest = .ok () := by
  refine Except.forM_eq_ok.mpr fun index hi => ?_
  have hn : manifest.chunkCount = 1 := rfl
  obtain rfl : index = 0 := by simpa [hn] using hi
  simp only [verifyChunk, Except.bind_eq_ok, okOr_eq_ok, ensure_eq_ok]
  exact ⟨(), by decide, staged b, hc, rfl⟩

theorem commit_snd (hu : DurableRelay.upload tables (upload b) = some (row b expiry none))
    (he : 0 < expiry) (hc : uploadChunk tables (upload b) 0 = some (staged b))
    (hn : tables.uploadChunks.countP (·.uploadId = (upload b).asBytes) = 1)
    (ho : (object tables (identify manifest)).all (·.manifest = manifest.asBytes))
    (hg : ∀ grant ∈ tables.grants, grant.grantId ≠ (upload b).asBytes) :
    (applyBlob (.commit (upload b) cap (identify manifest), 0) tables).snd =
      tables.publish (row b expiry none) manifest := by
  have hx : fromBeBytes (row b expiry none).expiresAt = expiry := fromBeBytes_toBeBytes _
  have hp : (row b expiry none).committedBlob = none := rfl
  have ht : publishTx tables (upload b) (row b expiry none) (identify manifest) manifest = .ok _ :=
    (publishTx_eq_ok rfl).mpr ⟨hg, rfl⟩
  apply applyBlob_snd (.commit expiry)
  simp only [executeBlobRequest, commitBlobTx, Except.bind_eq_ok, okOr_eq_ok, ensure_eq_ok]
  refine ⟨(expiry, _), ⟨row b expiry none, hu, (), rfl, (), by rwa [hx], ?_⟩, rfl⟩
  simp only [hp, hx, Except.bind_eq_ok, ensure_eq_ok]
  exact ⟨manifest, parseManifest_manifest, (), rfl, (), hn, (), verifyChunks_staged hc, (), ho, _, ht,
    rfl⟩

section Lookup

variable {t : BlobTables}

theorem upload_zero (h : t.uploads = [row 0 e c, row 1 e' c']) :
    DurableRelay.upload t (upload 0) = some (row 0 e c) := by
  simp [DurableRelay.upload, Table.lookup, h, row]

theorem upload_one (h : t.uploads = [row 0 e c, row 1 e' c']) :
    DurableRelay.upload t (upload 1) = some (row 1 e' c') := by
  simp [DurableRelay.upload, Table.lookup, h, row, upload_inj]

end Lookup

theorem state₂ : blobMachine.state requests 2 =
    ⟨[row 0 100 none, row 1 1000 none], [], [], [], []⟩ := by
  simp only [Machine.state, blobMachine, requests]
  rw [begin_snd rfl (by decide), begin_snd (by decide) (by decide)]
  rfl

theorem state₄ : blobMachine.state requests 4 =
    ⟨[row 0 100 none, row 1 1000 none], [staged 0, staged 1], [], [], []⟩ := by
  rw [Machine.state, Machine.state, state₂]
  simp only [blobMachine, requests]
  rw [put_snd (upload_zero rfl) (by decide) rfl, put_snd (upload_one rfl) (by decide)]
  · rfl
  · simp [uploadChunk, Table.lookup, UploadChunkRow.key, staged, upload_inj]

theorem state₅ : blobMachine.state requests 5 = ⟨[row 0 100 (identify manifest), row 1 1000 none],
    [staged 0, staged 1], [⟨(identify manifest).asBytes, manifest.asBytes⟩],
    [(staged 0).chunk (identify manifest)], [(row 0 100 none).grant (identify manifest)]⟩ := by
  rw [Machine.state, state₄]
  simp only [blobMachine, requests]
  rw [commit_snd (upload_zero rfl) (by decide)]
  · simp [BlobTables.publish, Table.update, row, upload_inj, staged, Table.insertOrIgnore,
      Table.insert, Table.lookup, Table.insertAllOrIgnore]
  · simp [uploadChunk, Table.lookup, UploadChunkRow.key, staged]
  · simp [staged, upload_inj]
  · rfl
  · simp

theorem grants₆ : (blobMachine.state requests 6).grants =
    [(row 0 100 none).grant (identify manifest), (row 1 1000 none).grant (identify manifest)] := by
  rw [Machine.state, state₅]
  simp only [blobMachine, requests]
  rw [commit_snd (upload_one rfl) (by decide)]
  · rfl
  · simp [uploadChunk, Table.lookup, UploadChunkRow.key, staged, upload_inj]
  · simp [staged, upload_inj]
  · simp [object, Table.lookup]
  · simp [UploadRow.grant, row, upload_inj]

def grant (b : UInt8) (expiry : UInt64) : GrantRow :=
  (row b expiry none).grant (identify manifest)

theorem grant_expiry : fromBeBytes (grant b expiry).expiresAt = expiry :=
  fromBeBytes_toBeBytes _

theorem grant_live : (grant b expiry).Live now ↔ now < expiry := by
  rw [GrantRow.Live, grant_expiry]
  exact and_iff_right Bool.false_ne_true

theorem grant_matches_download :
    (grant b expiry).matches GrantRow.downloadCap (identify manifest) cap := by
  simp [GrantRow.matches, grant, UploadRow.grant, row]

theorem grant_matches_renew : (grant b expiry).matches GrantRow.renewCap (identify manifest) cap := by
  simp [GrantRow.matches, grant, UploadRow.grant, row]

end Twins

-- At time 500, the grant of the first upload has expired but the one of the second has not.
theorem expired_grant_hides_live_grant :
    ¬∃ _ : Sha256, ReadsExactlyUnderLiveGrant (blobMachine.state Twins.requests 6)
      (identify Twins.manifest) Twins.cap 500 := by
  rintro ⟨_, h⟩
  have hg : _ = [Twins.grant 0 100, Twins.grant 1 1000] := Twins.grants₆
  have hf := (succeedsUnderLiveGrant_iff blobMachine_valid.getBlobManifestTx_follows).mp h.left
  simp [hg, Twins.grant_matches_download, Twins.grant_live] at hf

-- At time 50, a renewal for 10 seconds ends the second lease at time 100 instead of 1000.
theorem renewal_shortens_lease :
    ¬∃ _ : Sha256, RenewalKeepsLeases (blobMachine.state Twins.requests 6)
      (identify Twins.manifest) Twins.cap 50 10 := by
  rintro ⟨_, h⟩
  have hg : _ = [Twins.grant 0 100, Twins.grant 1 1000] := Twins.grants₆
  have hp : Permitted (blobMachine.state Twins.requests 6) (identify Twins.manifest) Twins.cap 50 10
      (Twins.grant 0 100) := by
    refine ⟨?_, Twins.grant_live.mpr (by decide), by decide, by decide⟩
    simp [hg, Twins.grant_matches_renew]
  have hr := (renewalKeepsLeases_iff blobMachine_valid).mp h _ hp (Twins.grant 1 1000) (by simp [hg])
    Twins.grant_matches_renew Bool.false_ne_true
  rw [Twins.grant_expiry, Twins.grant_expiry] at hr
  exact absurd hr.right (by decide)

end DurableRelay
end Cofferwire
