import Cofferwire.Client.Theorems.Snapshot
import Cofferwire.Toy

namespace Cofferwire.Client.Blob

open Codec.Blob (decodeBlobResponse decodeBlobResponse_eq_ok encodeBlobResponse RequestWellFormed
  ResponseWellFormed)
open Crypto
open Program (Runs runs_bind runs_call runs_done)

-- A response with a certain body has been received.
def Received (trace : List interface.Event) (body : BlobResponseBody) : Prop :=
  ∃ request bytes frame, ⟨.exchange request, .ok bytes⟩ ∈ trace ∧
    decodeBlobResponse bytes = .ok frame ∧ frame.response.body = some body

theorem Received.mono (h : Received trace body) (hs : trace ⊆ trace') : Received trace' body :=
  have ⟨request, bytes, frame, hm, hd, hb⟩ := h
  ⟨request, bytes, frame, hs hm, hd, hb⟩

theorem received_append :
    Received (trace ++ trace') body ↔ Received trace body ∨ Received trace' body := by
  simp only [Received, List.mem_append, or_and_right, exists_or]

def success (request : BlobRequest) (body : BlobResponseBody) : BlobResponse where
  command := request.command
  status  := .ok
  body    := body

theorem decodeBlobResponse_success (h : ResponseWellFormed (success request body)) :
    decodeBlobResponse (encodeBlobResponse ⟨requestId, success request body⟩) =
      .ok ⟨requestId, success request body⟩ :=
  decodeBlobResponse_eq_ok.mpr ⟨h, rfl⟩

section Runs

variable [Ed25519]

theorem received_of_exchange (h : Runs (exchange key request) trace (.done (.ok body))) :
    Received trace body := by
  obtain ⟨requestId, _, hc, rfl⟩ := runs_call.mp h
  obtain ⟨response, _, hd, rfl⟩ := runs_call.mp hc
  rcases response with _ | bytes
  case error => cases hd
  case ok =>
    dsimp only at hd
    split at hd
    case h_1 => cases hd
    case h_2 frame hf =>
      split at hd
      case isTrue => cases hd
      case isFalse =>
        split at hd
        case isTrue => cases hd
        case isFalse =>
          split at hd <;> cases hd
          case h_2 hb => exact ⟨_, bytes, frame, .tail _ (.head _), hf, hb⟩

theorem received_of_downloadChunk
    (h : Runs (downloadChunk prepared index) trace (.done (.ok chunk))) :
    ∃ expiresAt, Received trace (.getChunk chunk expiresAt) := by
  unfold downloadChunk at h
  split at h
  case h_1 => cases h
  case h_2 =>
    obtain ⟨trace₁, body, trace₂, he, hb, rfl⟩ := runs_bind.mp h
    split at hb <;> cases hb
    case h_1 expiresAt => exact ⟨expiresAt, (received_of_exchange he).mono (by simp)⟩

theorem received_of_downloadChunks
    (h : Runs (downloadChunks prepared index count) trace (.done (.ok chunks)))
    (hc : chunk ∈ chunks) : ∃ expiresAt, Received trace (.getChunk chunk expiresAt) := by
  induction count generalizing index trace chunks
  case zero =>
    cases h
    cases hc
  case succ count hi =>
    obtain ⟨trace₁, c, trace₂, he, hs, rfl⟩ := runs_bind.mp h
    obtain ⟨trace₃, cs, trace₄, hr, hp, rfl⟩ := runs_bind.mp hs
    cases hp
    rcases List.mem_cons.mp hc with rfl | hc
    · obtain ⟨expiresAt, hr⟩ := received_of_downloadChunk he
      exact ⟨expiresAt, hr.mono (by simp)⟩
    · obtain ⟨expiresAt, hr⟩ := hi hr hc
      exact ⟨expiresAt, hr.mono (by simp)⟩

-- The events if the relay answers a request.
def answered (key : Ed25519.SigningKey) (request : BlobRequest) (requestId : RequestId)
    (body : BlobResponseBody) : List interface.Event :=
  [⟨.nextRequestId, requestId⟩, ⟨.exchange (signed key requestId request),
    .ok (encodeBlobResponse ⟨requestId, success request body⟩)⟩]

theorem exchange_runs (h : ResponseWellFormed (success request body)) :
    Runs (exchange key request) (answered key request requestId body) (.done (.ok body)) := by
  refine .step (.step ?_)
  dsimp only
  rw [decodeBlobResponse_success h]
  simpa [success, BlobStatus.isOk] using .refl

theorem of_received_answered (hr : Received (answered key request requestId body) body')
    (h : ResponseWellFormed (success request body)) : body' = body := by
  obtain ⟨_, bytes, frame, hm, hd, hb⟩ := hr
  rcases List.mem_cons.mp hm with hm | hm
  · cases hm
  · cases List.mem_singleton.mp hm
    cases hd.symm.trans (decodeBlobResponse_success h)
    exact (Option.some.inj hb).symm

variable [Sha256] [ChaCha20Poly1305] [Hkdf]

theorem of_downloadBlob (h : Runs (downloadBlob prepared) trace (.done (.ok plaintext))) :
    ∃ manifest chunks,
      openBlob prepared.encrypted.key prepared.encrypted.blobId manifest chunks = .ok plaintext ∧
      (∃ expiresAt, Received trace (.getManifest manifest expiresAt)) ∧
      ∀ chunk ∈ chunks, ∃ expiresAt, Received trace (.getChunk chunk expiresAt) := by
  obtain ⟨trace₁, body, trace₂, he, hb, rfl⟩ := runs_bind.mp h
  split at hb
  case h_1 manifest expiresAt =>
    obtain ⟨trace₃, chunks, trace₄, hr, hd, rfl⟩ := runs_bind.mp hb
    obtain ⟨rfl, ho⟩ := runs_done.mp hd
    refine ⟨manifest, chunks, ?_, ⟨expiresAt, (received_of_exchange he).mono (by simp)⟩, ?_⟩
    · injection ho with ho
      exact Except.mapError_eq_ok.mp ho.symm
    · intro chunk hc
      obtain ⟨expiresAt, hr⟩ := received_of_downloadChunks hr hc
      exact ⟨expiresAt, hr.mono (by simp)⟩
  case h_2 => cases hb

-- The inputs of the hash function for an object and for all that is received instead of it.
def hashed (blob : EncryptedBlob) (trace : List interface.Event) : Set Bytes :=
  {bytes | bytes = identityDomain ++ blob.manifest.asBytes ∨ bytes ∈ blob.chunks ∨
    (∃ manifest expiresAt, Received trace (.getManifest manifest expiresAt) ∧
      bytes = identityDomain ++ manifest.asBytes) ∨
    ∃ expiresAt, Received trace (.getChunk bytes expiresAt)}

-- No relay can make a client accept anything else than what has been uploaded.
theorem download_integrity [Ed25519Seeds] [LawfulChaCha20Poly1305] (plaintext : Bytes)
    (chunkSize : UInt32) (rng rng' : Rng) (prepared : PreparedBlob)
    (hp : PreparedBlob.new plaintext chunkSize rng = .ok (prepared, rng'))
    (trace : List interface.Event) (hi : Set.InjOn Sha256.digest (hashed prepared.encrypted trace))
    (x : Bytes) (hr : Runs (downloadBlob prepared) trace (.done (.ok x))) : x = plaintext := by
  obtain ⟨stream, hs⟩ := of_new_eq_ok hp
  obtain ⟨manifest, chunks, ho, ⟨expiresAt, hm⟩, hc⟩ := of_downloadBlob hr
  have hh : {identityDomain ++ prepared.encrypted.manifest.asBytes,
      identityDomain ++ manifest.asBytes} ∪
      {chunk | chunk ∈ prepared.encrypted.chunks ∨ chunk ∈ chunks} ⊆
      hashed prepared.encrypted trace := by
    rintro _ ((rfl | rfl) | h | h)
    · exact .inl rfl
    · exact .inr (.inr (.inl ⟨manifest, expiresAt, hm, rfl⟩))
    · exact .inr (.inl h)
    · exact .inr (.inr (.inr (hc _ h)))
  obtain ⟨rfl, rfl⟩ := hs.eq_of_openBlob_eq_ok ho (hi.mono hh)
  exact Except.ok.inj (ho.symm.trans hs.openBlob_eq)

end Runs

-- An object of 60 bytes, which takes two chunks of 64 bytes, is uploaded and downloaded again.
namespace Sample

attribute [local instance] Toy.ed25519 Toy.seeds Toy.sha256 Toy.chaCha20Poly1305 Toy.hkdf

def rng : Rng where
  bytes n := .ofNat n

def random (start n : Nat) : ByteVec n :=
  (Rng.fillBytes ⟨fun i => rng.bytes (start + i)⟩ n).fst

def plaintext : Bytes := .replicate 60 7

def stream : Bytes :=
  BigEndian.encode 8 60 ++ plaintext ++ (random 48 60).toBytes

def chunk (index : Nat) : Bytes :=
  slice stream (64 * index) (64 * index + 64) ++ Toy.tag

def raw : BlobManifest.Raw where
  bytes      := []
  objectSalt := random 32 16
  paddedSize := 128
  chunkSize  := 64
  digests    := [Sha256.digest (chunk 0), Sha256.digest (chunk 1)]

def manifest : BlobManifest :=
  .ofRaw raw ⟨by decide, by decide⟩

def encrypted : EncryptedBlob where
  key      := ⟨random 0 32⟩
  manifest := manifest
  blobId   := identify manifest
  chunks   := [chunk 0, chunk 1]

def prepared : PreparedBlob where
  uploadId    := ⟨random 108 32⟩
  encrypted   := encrypted
  uploadKey   := random 140 32
  downloadKey := random 172 32
  renewKey    := random 204 32
  deleteKey   := random 236 32

def fields (blob : PreparedBlob) : UploadId × EncryptedBlob × List (ByteVec 32) :=
  (blob.uploadId, blob.encrypted, [blob.uploadKey, blob.downloadKey, blob.renewKey, blob.deleteKey])

theorem new_eq_ok : ∃ rng', PreparedBlob.new plaintext 64 rng = .ok (prepared, rng') := by
  have h : (PreparedBlob.new plaintext 64 rng).toOption.map (fields ·.fst) = some (fields prepared) := by
    decide +kernel
  obtain ⟨⟨p, rng'⟩, hp, he⟩ := Option.map_eq_some_iff.mp h
  cases hn : PreparedBlob.new plaintext 64 rng
  case error => rw [hn] at hp; cases hp
  case ok =>
    rw [hn] at hp
    cases hp
    simp only [fields, Prod.mk.injEq, List.cons.injEq] at he
    obtain ⟨hi, he, hu, hd, hr, hx, _⟩ := he
    cases p
    subst hi he hu hd hr hx
    exact ⟨rng', rfl⟩

-- The first four requests upload the object.
def key (n : Nat) : ByteVec 32 :=
  if n < 4 then prepared.uploadKey else prepared.downloadKey

def requestId (n : Nat) : RequestId := ⟨.replicate 16 (.ofNat n)⟩

def request : Nat → BlobRequest
  | 0 => .beginUpload prepared.uploadId prepared.capabilities manifest 1
  | 1 => .putChunk prepared.uploadId prepared.capabilities.upload 0 (chunk 0)
  | 2 => .putChunk prepared.uploadId prepared.capabilities.upload 1 (chunk 1)
  | 3 => .commit prepared.uploadId prepared.capabilities.upload encrypted.blobId
  | 4 => .getManifest encrypted.blobId prepared.capabilities.download
  | 5 => .getChunk encrypted.blobId prepared.capabilities.download 0
  | _ => .getChunk encrypted.blobId prepared.capabilities.download 1

def body : Nat → BlobResponseBody
  | 0 => .beginUpload .stored
  | 1 => .putChunk .stored
  | 2 => .putChunk .stored
  | 3 => .commit 1
  | 4 => .getManifest manifest 1
  | 5 => .getChunk (chunk 0) 1
  | _ => .getChunk (chunk 1) 1

def answer (n : Nat) : List interface.Event :=
  answered (key n) (request n) (requestId n) (body n)

def download : List interface.Event :=
  answer 4 ++ (answer 5 ++ answer 6)

theorem chunk_length (h : index < 2) : (chunk index).length ≤ maxChunkBytes + 16 := by
  have hl : ∀ index < 2, (chunk index).length ≤ maxChunkBytes + 16 := by decide +kernel
  exact hl index h

theorem request_wellFormed (n : Nat) : RequestWellFormed (request n) := by
  unfold request
  split
  case h_1 => exact (by decide : (1 : UInt64) ≠ 0)
  case h_2 => exact chunk_length (by decide)
  case h_3 => exact chunk_length (by decide)
  all_goals trivial

theorem body_wellFormed (n : Nat) : Codec.Blob.BodyWellFormed (body n) := by
  unfold body
  split
  case h_6 => exact chunk_length (by decide)
  case h_7 => exact chunk_length (by decide)
  all_goals trivial

theorem response_wellFormed (n : Nat) : ResponseWellFormed (success (request n) (body n)) where
  isSome_iff     := iff_of_true rfl rfl
  command_eq b h := by
    cases h
    unfold request body
    split <;> rfl
  body b h       := by
    cases h
    exact body_wellFormed n

theorem received_download (h : Received download b) : b = body 4 ∨ b = body 5 ∨ b = body 6 := by
  rcases received_append.mp h with h | h
  · exact .inl (of_received_answered h (response_wellFormed 4))
  · rcases received_append.mp h with h | h
    · exact .inr (.inl (of_received_answered h (response_wellFormed 5)))
    · exact .inr (.inr (of_received_answered h (response_wellFormed 6)))

theorem hashed_injOn : Set.InjOn Sha256.digest (hashed prepared.encrypted download) := by
  let inputs := [identityDomain ++ manifest.asBytes, chunk 0, chunk 1]
  have hs : hashed prepared.encrypted download ⊆ {bytes | bytes ∈ inputs} := by
    rintro bytes (rfl | h | ⟨m, e, h, rfl⟩ | ⟨e, h⟩)
    · exact .head _
    · exact .tail _ h
    · obtain h | h | h := received_download h <;> cases h
      exact .head _
    · obtain h | h | h := received_download h <;> cases h
      · exact .tail _ (.head _)
      · exact .tail _ (.tail _ (.head _))
  have hd : (inputs.map Sha256.digest).Nodup := by decide +kernel
  exact Set.InjOn.mono hs fun _ h _ h' => List.inj_on_of_nodup_map hd h h'

theorem download_runs : Runs (downloadBlob prepared) download (.done (.ok plaintext)) := by
  have ho : openBlob prepared.encrypted.key prepared.encrypted.blobId manifest [chunk 0, chunk 1] =
      .ok plaintext := by
    decide +kernel
  have hr (n : Nat) : Runs (exchange (key n) (request n)) (answer n) (.done (.ok (body n))) :=
    exchange_runs (response_wellFormed n)
  refine runs_bind.mpr ⟨_, _, _, hr 4, ?_, rfl⟩
  refine runs_bind.mpr ⟨_, [chunk 0, chunk 1], [], ?_, ?_, (List.append_nil _).symm⟩
  · refine runs_bind.mpr ⟨answer 5, chunk 0, answer 6, ?_, ?_, rfl⟩
    · exact runs_bind.mpr ⟨_, _, [], hr 5, .refl, (List.append_nil _).symm⟩
    · refine runs_bind.mpr ⟨answer 6, [chunk 1], [], ?_, .refl, (List.append_nil _).symm⟩
      refine runs_bind.mpr ⟨answer 6, chunk 1, [], ?_, .refl, (List.append_nil _).symm⟩
      exact runs_bind.mpr ⟨_, _, [], hr 6, .refl, (List.append_nil _).symm⟩
  · rw [ho]
    exact .refl

end Sample

open Sample in
attribute [local instance] Toy.ed25519 Toy.seeds Toy.sha256 Toy.chaCha20Poly1305 Toy.hkdf
  Toy.lawfulCipher in
theorem sealed_object_downloaded :
    ∃ rng' x, PreparedBlob.new plaintext 64 rng = .ok (prepared, rng') ∧
      Runs (downloadBlob prepared) download (.done (.ok x)) ∧ x = plaintext := by
  obtain ⟨rng', h⟩ := new_eq_ok
  have hx := download_integrity plaintext 64 rng rng' prepared h download hashed_injOn plaintext
    download_runs
  exact ⟨rng', plaintext, h, download_runs, hx⟩

end Cofferwire.Client.Blob
