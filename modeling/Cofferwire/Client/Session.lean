import Cofferwire.Client.Upload
import Cofferwire.Service.Theorems.Exchange

namespace Cofferwire.Client.Blob

open Codec.Blob (decodeBlobRequest)
open DurableRelay (BlobTables GrantRow)
open RelayService (AdmissibleBlob Answers Input blobTables)

variable [Profile] [Ed25519]

-- An upload to a relay which also serves other clients.
structure Session where
  process  : Process
  trace    : Trace
  -- The frames which the uploader has handed to the transport.
  sent     : List Bytes
  -- The number of inputs which the relay has processed.
  received : Nat

def PreparedBlob.session (prepared : PreparedBlob) (ttl : UInt64) (durable : Option Bytes) : Session where
  process  := ⟨.idle (prepared.uploader ttl), durable⟩
  trace    := []
  sent     := []
  received := 0

-- Whatever is signed with the key for the upload has been signed by the uploader.
def Genuine (prepared : PreparedBlob) (sent : List Bytes) : Input → Prop
  | .exchangeBlob bytes _ _ => ∀ decoded, AdmissibleBlob bytes decoded →
    decoded.frame.request.capability = prepared.capabilities.upload →
    ∃ bytes' ∈ sent, ∃ decoded', decodeBlobRequest bytes' = .ok decoded' ∧
      decoded'.authenticatedBytes = decoded.authenticatedBytes
  | .exchange .. | .restart => True

variable [Ed25519Seeds] [Sha256] [ChaCha20Poly1305] [Hkdf]

-- The relay may receive frames at any time after they have been sent, any number of times or never. The
-- uploader gets an error or what the relay has answered to the same frame.
inductive Session.Step (prepared : PreparedBlob) (inputs : Nat → Input) : Session → Session → Prop
  | send {next : interface.Result (.exchange bytes) → _}
    (h : s.process.memory = .running stage (.call (.exchange bytes) next)) :
    Step prepared inputs s { s with sent := bytes :: s.sent }
  | receive (h : Genuine prepared s.sent (inputs s.received)) :
    Step prepared inputs s { s with received := s.received + 1 }
  | upload (h : Process.Step prepared.uploadIdentity s.process events p)
    (ha : ∀ stage bytes response, (stage, ⟨.exchange bytes, .ok response⟩) ∈ events →
      ∃ n < s.received, ∃ now, Answers inputs n .blob bytes now response) :
    Step prepared inputs s { s with process := p, trace := s.trace ++ events }

abbrev Session.Runs (prepared : PreparedBlob) (inputs : Nat → Input) : Session → Session → Prop :=
  Relation.ReflTransGen (Step prepared inputs)

-- All ciphertexts which are hashed during a run.
def ciphertexts (prepared : PreparedBlob) (inputs : Nat → Input) : Set Bytes :=
  {bytes | bytes ∈ prepared.encrypted.chunks ∨
    ∃ n frame now fault decoded uploadId cap index, inputs n = .exchangeBlob frame now fault ∧
      decodeBlobRequest frame = .ok decoded ∧
      decoded.frame.request = .putChunk uploadId cap index bytes}

-- The grant which is created by the commit.
def PreparedBlob.grant (prepared : PreparedBlob) (expiresAt : UInt64) : GrantRow where
  grantId     := prepared.uploadId.asBytes
  blobId      := prepared.encrypted.blobId.asBytes
  downloadCap := prepared.capabilities.download.asBytes
  renewCap    := prepared.capabilities.renew.asBytes
  deleteCap   := prepared.capabilities.delete.asBytes
  expiresAt   := toBeBytes expiresAt
  deleted     := false

-- The grant has been created before the `n`-th input. It may have been renewed or deleted since then.
structure Granted (prepared : PreparedBlob) (inputs : Nat → Input) (n : Nat) (expiresAt : UInt64) :
    Prop where
  created : ∃ m < n,
    Table.lookup GrantRow.grantId prepared.uploadId.asBytes (blobTables inputs m).grants = none ∧
    Table.lookup GrantRow.grantId prepared.uploadId.asBytes (blobTables inputs (m + 1)).grants =
      some (prepared.grant expiresAt)
  grant   : ∃ expiresAt' deleted,
    Table.lookup GrantRow.grantId prepared.uploadId.asBytes (blobTables inputs n).grants =
      some { prepared.grant expiresAt with expiresAt := expiresAt', deleted }

-- What the relay holds before the `n`-th input if the prepared blob has been committed.
structure Holds (prepared : PreparedBlob) (inputs : Nat → Input) (n : Nat) (expiresAt : UInt64) :
    Prop extends Granted prepared inputs n expiresAt where
  object : DurableRelay.object (blobTables inputs n) prepared.encrypted.blobId =
    some ⟨prepared.encrypted.blobId.asBytes, prepared.encrypted.manifest.asBytes⟩
  chunks : ∀ index : UInt32,
    (Table.lookup DurableRelay.ChunkRow.key (prepared.encrypted.blobId.asBytes, index)
      (blobTables inputs n).chunks).map DurableRelay.ChunkRow.ciphertext =
    prepared.encrypted.chunks[index.toNat]?
  upload : ∃ row, DurableRelay.upload (blobTables inputs n) prepared.uploadId = some row ∧
    row.uploadCap = prepared.capabilities.upload.asBytes

end Cofferwire.Client.Blob
