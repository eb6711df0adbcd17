import Cofferwire.Relay.Durable
import Cofferwire.Types.Blob

namespace Cofferwire

inductive BlobRelayError
  | notFound
  | unauthorized
  | idConflict
  | limitOutOfRange
  | chunkConflict
  | incomplete
  | identityMismatch
  | expired
deriving DecidableEq, Repr

inductive BlobDurableError
  | protocol (error : BlobRelayError)
  | storage (error : DurableRelayError)
deriving DecidableEq, Repr

namespace DurableRelay

-- A query for exactly one row fails if there is none.
def noRows : DurableRelayError := .storage .other

structure UploadRow where
  uploadId      : ByteVec 32
  uploadCap     : ByteVec 32
  downloadCap   : ByteVec 32
  renewCap      : ByteVec 32
  deleteCap     : ByteVec 32
  manifest      : Bytes
  expiresAt     : ByteVec 8
  committedBlob : Option (ByteVec 32)
deriving DecidableEq, Repr

structure UploadChunkRow where
  uploadId   : ByteVec 32
  chunkIndex : UInt32
  ciphertext : Bytes
deriving DecidableEq, Repr

structure ObjectRow where
  blobId   : ByteVec 32
  manifest : Bytes
deriving DecidableEq, Repr

structure ChunkRow where
  blobId     : ByteVec 32
  chunkIndex : UInt32
  ciphertext : Bytes
deriving DecidableEq, Repr

structure GrantRow where
  grantId     : ByteVec 32
  blobId      : ByteVec 32
  downloadCap : ByteVec 32
  renewCap    : ByteVec 32
  deleteCap   : ByteVec 32
  expiresAt   : ByteVec 8
  deleted     : Bool
deriving DecidableEq, Repr

def UploadChunkRow.key (row : UploadChunkRow) : ByteVec 32 × UInt32 :=
  (row.uploadId, row.chunkIndex)

def ChunkRow.key (row : ChunkRow) : ByteVec 32 × UInt32 :=
  (row.blobId, row.chunkIndex)

structure BlobTables where
  uploads      : List UploadRow
  uploadChunks : List UploadChunkRow
  objects      : List ObjectRow
  chunks       : List ChunkRow
  grants       : List GrantRow
deriving DecidableEq, Repr

def BlobTables.empty : BlobTables where
  uploads      := []
  uploadChunks := []
  objects      := []
  chunks       := []
  grants       := []

-- Continues only if a condition holds or a value exists.
def ensure (p : Prop) [Decidable p] (error : BlobRelayError) : Except BlobDurableError Unit :=
  if p then .ok () else .error (.protocol error)

def okOr (value : Option α) (error : BlobRelayError) : Except BlobDurableError α :=
  match value with
  | some a => .ok a
  | none   => .error (.protocol error)

def parseManifest (bytes : Bytes) : Except BlobDurableError BlobManifest :=
  (BlobManifest.parse bytes).mapError fun _ => .protocol .idConflict

-- The end of a lease which starts now.
def leaseExpiry (now : Timestamp) (ttl : UInt64) : Except BlobDurableError UInt64 :=
  okOr ((checkedAdd now ttl).filter fun _ => ttl > 0) .limitOutOfRange

-- The text `cofferwire blob identity v1` and a zero byte.
def identityDomain : Bytes :=
  [99, 111, 102, 102, 101, 114, 119, 105, 114, 101, 32, 98, 108, 111, 98, 32,
   105, 100, 101, 110, 116, 105, 116, 121, 32, 118, 49, 0]

def identify [Sha256] (manifest : BlobManifest) : BlobId where
  asBytes := Sha256.digest (identityDomain ++ manifest.asBytes)

def upload (tables : BlobTables) (id : UploadId) : Option UploadRow :=
  Table.lookup UploadRow.uploadId id.asBytes tables.uploads

def insertUpload (tables : BlobTables) (row : UploadRow) : Except BlobDurableError BlobTables :=
  match Table.insert UploadRow.uploadId row tables.uploads with
  | some uploads => .ok { tables with uploads }
  | none         => .error (.storage constraintViolation)

def beginBlobUploadTx (tables : BlobTables) (uploadId : UploadId) (caps : BlobCapabilities)
    (manifest : BlobManifest) (now : Timestamp) (ttl : UInt64) :
    Except BlobDurableError (BlobWriteOutcome × BlobTables) := do
  let expiry ← leaseExpiry now ttl
  match upload tables uploadId with
  | some existing =>
    ensure (existing.uploadCap = caps.upload.asBytes ∧ existing.downloadCap = caps.download.asBytes ∧
      existing.renewCap = caps.renew.asBytes ∧ existing.deleteCap = caps.delete.asBytes ∧
      existing.manifest = manifest.asBytes ∧ existing.expiresAt = toBeBytes expiry) .idConflict
    return (.duplicate, tables)
  | none =>
    let tables ← insertUpload tables {
      uploadId      := uploadId.asBytes
      uploadCap     := caps.upload.asBytes
      downloadCap   := caps.download.asBytes
      renewCap      := caps.renew.asBytes
      deleteCap     := caps.delete.asBytes
      manifest      := manifest.asBytes
      expiresAt     := toBeBytes expiry
      committedBlob := none
    }
    return (.stored, tables)

def uploadChunk (tables : BlobTables) (id : UploadId) (index : UInt32) : Option UploadChunkRow :=
  Table.lookup UploadChunkRow.key (id.asBytes, index) tables.uploadChunks

-- A chunk must belong to an upload and its index must be unique in that upload.
def insertUploadChunk (tables : BlobTables) (row : UploadChunkRow) :
    Except BlobDurableError BlobTables :=
  if (Table.lookup UploadRow.uploadId row.uploadId tables.uploads).isNone then
    .error (.storage constraintViolation)
  else
    match Table.insert UploadChunkRow.key row tables.uploadChunks with
    | some uploadChunks => .ok { tables with uploadChunks }
    | none              => .error (.storage constraintViolation)

def putBlobChunkTx [Sha256] (tables : BlobTables) (uploadId : UploadId) (cap : CapabilityId)
    (index : UInt32) (ciphertext : Bytes) (now : Timestamp) :
    Except BlobDurableError (BlobWriteOutcome × BlobTables) := do
  let row ← okOr (upload tables uploadId) .notFound
  ensure (row.uploadCap = cap.asBytes) .unauthorized
  ensure (now < fromBeBytes row.expiresAt) .expired
  let manifest ← parseManifest row.manifest
  let digest ← okOr (manifest.digest index.toNat) .limitOutOfRange
  ensure (ciphertext.length = manifest.chunkSize.toNat + 16 ∧ Sha256.digest ciphertext = digest)
    .chunkConflict
  match uploadChunk tables uploadId index with
  | some existing =>
    ensure (existing.ciphertext = ciphertext) .chunkConflict
    return (.duplicate, tables)
  | none =>
    let tables ← insertUploadChunk tables ⟨uploadId.asBytes, index, ciphertext⟩
    return (.stored, tables)

-- Checks that the staged chunk at an index exists and has the digest from the manifest.
def verifyChunk [Sha256] (tables : BlobTables) (uploadId : UploadId) (manifest : BlobManifest)
    (index : Nat) : Except BlobDurableError Unit := do
  ensure (index < 2 ^ 32) .limitOutOfRange
  let chunk ← okOr (uploadChunk tables uploadId (.ofNat index)) .incomplete
  ensure (manifest.digest index = some (Sha256.digest chunk.ciphertext)) .chunkConflict

def verifyChunks [Sha256] (tables : BlobTables) (uploadId : UploadId) (manifest : BlobManifest) :
    Except BlobDurableError Unit :=
  (List.range manifest.chunkCount).forM (verifyChunk tables uploadId manifest)

def object (tables : BlobTables) (id : BlobId) : Option ObjectRow :=
  Table.lookup ObjectRow.blobId id.asBytes tables.objects

def insertOrIgnoreObject (tables : BlobTables) (row : ObjectRow) : BlobTables :=
  { tables with objects := Table.insertOrIgnore ObjectRow.blobId row tables.objects }

-- Copies the staged chunks of an upload to those of an object, except for the existing ones. The database
-- may also read them in another order, which does not show as rows are only looked up by their keys.
def insertOrIgnoreChunks (tables : BlobTables) (blobId : BlobId) (uploadId : UploadId) :
    Except BlobDurableError BlobTables :=
  let staged := tables.uploadChunks.filter (·.uploadId = uploadId.asBytes)
  if staged ≠ [] ∧ (object tables blobId).isNone then
    .error (.storage constraintViolation)
  else
    let rows := staged.map fun row => ⟨blobId.asBytes, row.chunkIndex, row.ciphertext⟩
    .ok { tables with chunks := Table.insertAllOrIgnore ChunkRow.key rows tables.chunks }

-- A grant must refer to an object.
def insertGrant (tables : BlobTables) (row : GrantRow) : Except BlobDurableError BlobTables :=
  if (Table.lookup ObjectRow.blobId row.blobId tables.objects).isNone then
    .error (.storage constraintViolation)
  else
    match Table.insert GrantRow.grantId row tables.grants with
    | some grants => .ok { tables with grants }
    | none        => .error (.storage constraintViolation)

def setCommitted (tables : BlobTables) (uploadId : UploadId) (blobId : BlobId) : BlobTables :=
  { tables with
    uploads := Table.update (·.uploadId = uploadId.asBytes)
      ({ · with committedBlob := some blobId.asBytes }) tables.uploads
  }

-- The rest of `commitBlobTx` on a verified upload.
def publishTx (tables : BlobTables) (uploadId : UploadId) (row : UploadRow) (requested : BlobId)
    (manifest : BlobManifest) : Except BlobDurableError BlobTables := do
  let tables := insertOrIgnoreObject tables ⟨requested.asBytes, manifest.asBytes⟩
  let tables ← insertOrIgnoreChunks tables requested uploadId
  let tables ← insertGrant tables {
    grantId     := uploadId.asBytes
    blobId      := requested.asBytes
    downloadCap := row.downloadCap
    renewCap    := row.renewCap
    deleteCap   := row.deleteCap
    expiresAt   := row.expiresAt
    deleted     := false
  }
  return setCommitted tables uploadId requested

def commitBlobTx [Sha256] (tables : BlobTables) (uploadId : UploadId) (cap : CapabilityId)
    (requested : BlobId) (now : Timestamp) : Except BlobDurableError (UInt64 × BlobTables) := do
  let row ← okOr (upload tables uploadId) .notFound
  ensure (row.uploadCap = cap.asBytes) .unauthorized
  let expiry := fromBeBytes row.expiresAt
  ensure (now < expiry) .expired
  match row.committedBlob with
  | some committed =>
    ensure (committed = requested.asBytes) .idConflict
    return (expiry, tables)
  | none =>
    let manifest ← parseManifest row.manifest
    ensure (identify manifest = requested) .identityMismatch
    let count := tables.uploadChunks.countP (·.uploadId = uploadId.asBytes)
    ensure (count = manifest.chunkCount) .incomplete
    verifyChunks tables uploadId manifest
    ensure ((object tables requested).all (·.manifest = manifest.asBytes)) .idConflict
    let tables ← publishTx tables uploadId row requested manifest
    return (expiry, tables)

-- The grants on an object which have a given capability in a given column.
def GrantRow.matches (column : GrantRow → ByteVec 32) (id : BlobId) (cap : CapabilityId)
    (grant : GrantRow) : Bool :=
  grant.blobId = id.asBytes ∧ column grant = cap.asBytes

-- Only the first matching grant counts.
def authorizeGrant (tables : BlobTables) (id : BlobId) (column : GrantRow → ByteVec 32)
    (cap : CapabilityId) (now : Timestamp) : Except BlobDurableError UInt64 :=
  match tables.grants.find? (GrantRow.matches column id cap) with
  | none =>
    if tables.grants.any (·.blobId = id.asBytes) then
      .error (.protocol .unauthorized)
    else
      .error (.protocol .notFound)
  | some grant => do
    ensure (¬grant.deleted) .notFound
    let expiry := fromBeBytes grant.expiresAt
    ensure (now < expiry) .expired
    return expiry

def objectManifest (tables : BlobTables) (id : BlobId) : Except BlobDurableError BlobManifest :=
  match object tables id with
  | none     => .error (.storage noRows)
  | some row => parseManifest row.manifest

def getBlobManifestTx [Sha256] (tables : BlobTables) (id : BlobId) (cap : CapabilityId)
    (now : Timestamp) : Except BlobDurableError (BlobManifest × UInt64) := do
  let expiry ← authorizeGrant tables id GrantRow.downloadCap cap now
  let manifest ← objectManifest tables id
  ensure (identify manifest = id) .identityMismatch
  return (manifest, expiry)

def getBlobChunkTx [Sha256] (tables : BlobTables) (id : BlobId) (cap : CapabilityId) (index : UInt32)
    (now : Timestamp) : Except BlobDurableError (Bytes × UInt64) := do
  let expiry ← authorizeGrant tables id GrantRow.downloadCap cap now
  let manifest ← objectManifest tables id
  let expected ← okOr (manifest.digest index.toNat) .limitOutOfRange
  let chunk ← okOr (Table.lookup ChunkRow.key (id.asBytes, index) tables.chunks) .notFound
  ensure (Sha256.digest chunk.ciphertext = expected) .chunkConflict
  return (chunk.ciphertext, expiry)

-- All matching grants which are not deleted get the same expiry.
def renewBlobTx (tables : BlobTables) (id : BlobId) (cap : CapabilityId) (now : Timestamp)
    (ttl : UInt64) : Except BlobDurableError (UInt64 × BlobTables) := do
  let requested ← leaseExpiry now ttl
  let current ← authorizeGrant tables id GrantRow.renewCap cap now
  let expiry := max current requested
  let grants := Table.update (fun grant => grant.matches GrantRow.renewCap id cap ∧ ¬grant.deleted)
    ({ · with expiresAt := toBeBytes expiry }) tables.grants
  return (expiry, { tables with grants })

def deleteBlobTx (tables : BlobTables) (id : BlobId) (cap : CapabilityId) (now : Timestamp) :
    Except BlobDurableError (Unit × BlobTables) := do
  let _ ← authorizeGrant tables id GrantRow.deleteCap cap now
  let grants := Table.update (GrantRow.matches GrantRow.deleteCap id cap) ({ · with deleted := true })
    tables.grants
  return ((), { tables with grants })

def executeBlobRequest [Sha256] (request : BlobRequest) (now : Timestamp) (tables : BlobTables) :
    Except BlobDurableError (BlobResponseBody × BlobTables) :=
  match request with
  | .beginUpload uploadId capabilities manifest ttl => do
    let (outcome, tables) ← beginBlobUploadTx tables uploadId capabilities manifest now ttl
    return (.beginUpload outcome, tables)
  | .putChunk uploadId uploadCap index ciphertext => do
    let (outcome, tables) ← putBlobChunkTx tables uploadId uploadCap index ciphertext now
    return (.putChunk outcome, tables)
  | .commit uploadId uploadCap blobId => do
    let (expiry, tables) ← commitBlobTx tables uploadId uploadCap blobId now
    return (.commit expiry, tables)
  | .getManifest blobId downloadCap => do
    let (manifest, expiry) ← getBlobManifestTx tables blobId downloadCap now
    return (.getManifest manifest expiry, tables)
  | .getChunk blobId downloadCap index => do
    let (chunk, expiry) ← getBlobChunkTx tables blobId downloadCap index now
    return (.getChunk chunk expiry, tables)
  | .renew blobId renewCap ttl => do
    let (expiry, tables) ← renewBlobTx tables blobId renewCap now ttl
    return (.renew expiry, tables)
  | .delete blobId deleteCap => do
    let ((), tables) ← deleteBlobTx tables blobId deleteCap now
    return (.delete, tables)

-- The direct operations execute a request in a transaction of its own.
def applyBlob [Sha256] (request : BlobRequest × Timestamp) :
    BlobTables → Except BlobDurableError BlobResponseBody × BlobTables :=
  transact id (executeBlobRequest request.fst request.snd)

def blobMachine [Sha256] :
    Machine BlobTables (BlobRequest × Timestamp) (Except BlobDurableError BlobResponseBody) where
  init := .empty
  step := applyBlob

end DurableRelay
end Cofferwire
