import Cofferwire.Client.Theorems.Session
import Cofferwire.Service.Theorems.BlobExecution

namespace Cofferwire.Client.Blob

open Codec.Blob (bodyCommand decodeBlobRequest decodeBlobResponse encodeBlobAuthenticatedRequest
  encodeBlobResponse RequestWellFormed ResponseWellFormed)
open Crypto
open DurableRelay (BlobTables GrantRow ObjectRow authorizeGrant authorizeGrant_eq_ok
  executeBlobRequest objectManifest_eq_ok)
open Program (Runs runs_bind runs_call runs_done)
open RelayService (AdmissibleBlob Answers Input blobTables blobTables_valid mem_objects_of_le)

-- Some frame or its response got lost.
def Lost (trace : List interface.Event) : Prop :=
  ∃ bytes e, ⟨.exchange bytes, (.error e : Except TransportError Bytes)⟩ ∈ trace

theorem Lost.mono (h : Lost trace) (hs : trace ⊆ trace') : Lost trace' := by
  obtain ⟨bytes, e, hm⟩ := h
  exact ⟨bytes, e, hs hm⟩

-- A program fails only if an exchange does.
def Succeeds (trace : List interface.Event) (result : Except BlobClientError α) (P : α → Prop) : Prop :=
  (∃ a, result = .ok a ∧ P a) ∨ result = .error .transport ∧ Lost trace

theorem Succeeds.bind {p : Program interface BlobClientError α} {f : α → Program interface _ β}
    (h : Runs (p >>= f) trace (.done result))
    (hp : ∀ trace' result', trace' ⊆ trace → Runs p trace' (.done result') → Succeeds trace' result' P)
    (hf : ∀ a trace', P a → trace' ⊆ trace → Runs (f a) trace' (.done result) →
      Succeeds trace' result Q) : Succeeds trace result Q := by
  obtain ⟨e, hr, rfl⟩ | ⟨trace₁, a, trace₂, hr, hr', rfl⟩ := h.of_bind
  · obtain ⟨_, he, _⟩ | ⟨he, hl⟩ := hp _ _ (List.Subset.refl _) hr
    · cases he
    · cases he
      exact .inr ⟨rfl, hl⟩
  · obtain ⟨_, he, ha⟩ | ⟨he, _⟩ := hp _ _ (List.subset_append_left ..) hr
    · cases he
      refine (hf a _ ha (List.subset_append_right ..) hr').imp_right fun ⟨he, hl⟩ => ⟨he, ?_⟩
      exact hl.mono (List.subset_append_right ..)
    · cases he

section Client

variable [Ed25519]

-- All responses to a request which are received say that it has succeeded.
def Confirms (trace : List interface.Event) (key : Ed25519.SigningKey) (request : BlobRequest)
    (P : BlobResponseBody → Prop) : Prop :=
  ∀ requestId response,
    ⟨.exchange (signed key requestId request), (.ok response : Except TransportError Bytes)⟩ ∈ trace →
    ∃ body, P body ∧ decodeBlobResponse response = .ok ⟨requestId, success request body⟩

theorem Confirms.mono (h : Confirms trace key request P) (hs : trace' ⊆ trace) :
    Confirms trace' key request P :=
  fun requestId response hm => h requestId response (hs hm)

theorem exchange_succeeds (h : Runs (exchange key request) trace (.done result))
    (ha : Confirms trace key request P) : Succeeds trace result P := by
  obtain ⟨requestId, _, hc, rfl⟩ := runs_call.mp h
  obtain ⟨response, trace, hd, rfl⟩ := runs_call.mp hc
  rcases response with e | response
  case error =>
    obtain ⟨rfl, he⟩ := runs_done.mp hd
    cases he
    exact .inr ⟨rfl, _, e, .tail _ (.head _)⟩
  case ok =>
    obtain ⟨body, hb, hr⟩ := ha requestId response (.tail _ (.head _))
    simp only [hr, success, BlobStatus.isOk, not_true_eq_false, if_false] at hd
    split at hd
    case isTrue hn => exact (hn.elim (· rfl) (· rfl)).elim
    case isFalse =>
      obtain ⟨rfl, he⟩ := runs_done.mp hd
      cases he
      exact .inl ⟨body, rfl, hb⟩

variable {prepared : PreparedBlob}

-- The responses to requests for chunks contain the chunks.
def ConfirmsChunks (prepared : PreparedBlob) (trace : List interface.Event) : Prop :=
  ∀ (index : UInt32) chunk, prepared.encrypted.chunks[index.toNat]? = some chunk →
    Confirms trace prepared.downloadKey
      (.getChunk prepared.encrypted.blobId (capability prepared.downloadKey) index)
      fun body => ∃ expiresAt, body = .getChunk chunk expiresAt

theorem downloadChunk_succeeds (h : Runs (downloadChunk prepared index) trace (.done result))
    (hi : index < 2 ^ 32) (hc : prepared.encrypted.chunks[index]? = some chunk)
    (ha : ConfirmsChunks prepared trace) : Succeeds trace result (· = chunk) := by
  have hu : u32TryFrom index = some (.ofNat index) := if_pos hi
  have hn : (UInt32.ofNat index).toNat = index := UInt32.toNat_ofNat_of_lt hi
  simp only [downloadChunk, hu] at h
  refine .bind h (fun _ _ hs hr => exchange_succeeds hr ((ha _ chunk (hn.symm ▸ hc)).mono hs)) ?_
  rintro _ trace' ⟨expiresAt, rfl⟩ _ hr
  obtain ⟨rfl, he⟩ := runs_done.mp hr
  cases he
  exact .inl ⟨chunk, rfl, rfl⟩

theorem downloadChunks_succeeds (h : Runs (downloadChunks prepared index count) trace (.done result))
    (hl : index + count = prepared.encrypted.chunks.length)
    (hi : prepared.encrypted.chunks.length ≤ maxChunks) (ha : ConfirmsChunks prepared trace) :
    Succeeds trace result (· = prepared.encrypted.chunks.drop index) := by
  induction count generalizing index trace result
  case zero =>
    obtain ⟨rfl, he⟩ := runs_done.mp h
    cases he
    refine .inl ⟨[], rfl, (List.drop_eq_nil_of_le ?_).symm⟩
    omega
  case succ count hi' =>
    have hx : index < prepared.encrypted.chunks.length := by omega
    rw [maxChunks] at hi
    refine .bind h (fun _ _ hs hr => downloadChunk_succeeds hr (by omega)
      (List.getElem?_eq_getElem hx) fun i c hc => (ha i c hc).mono hs) ?_
    rintro chunk trace' rfl hs hr
    refine .bind hr (fun _ _ hs' hr => hi' hr (by omega) fun i c hc => (ha i c hc).mono
      (List.Subset.trans hs' hs)) ?_
    rintro chunks trace'' rfl _ hr
    obtain ⟨rfl, he⟩ := runs_done.mp hr
    cases he
    exact .inl ⟨_, rfl, List.getElem_cons_drop ..⟩

variable [Sha256] [ChaCha20Poly1305] [Hkdf]

theorem downloadBlob_succeeds (hp : prepared.Valid)
    (ho : openBlob prepared.encrypted.key prepared.encrypted.blobId prepared.encrypted.manifest
      prepared.encrypted.chunks = .ok plaintext)
    (h : Runs (downloadBlob prepared) trace (.done result))
    (hm : Confirms trace prepared.downloadKey
      (.getManifest prepared.encrypted.blobId (capability prepared.downloadKey))
      fun body => ∃ expiresAt, body = .getManifest prepared.encrypted.manifest expiresAt)
    (ha : ConfirmsChunks prepared trace) : Succeeds trace result (· = plaintext) := by
  refine .bind h (fun _ _ hs hr => exchange_succeeds hr (hm.mono hs)) ?_
  rintro _ trace' ⟨expiresAt, rfl⟩ hs hr
  refine .bind hr (fun _ _ hs' hr => downloadChunks_succeeds hr ?_ hp.chunks_le fun i c hc =>
    (ha i c hc).mono (List.Subset.trans hs' hs)) ?_
  · rw [Nat.zero_add, hp.length_chunks]
  · rintro chunks trace'' rfl _ hr
    rw [List.drop_zero, ho] at hr
    obtain ⟨rfl, he⟩ := runs_done.mp hr
    cases he
    exact .inl ⟨plaintext, rfl, rfl⟩

end Client

section Relay

variable [Profile] [Ed25519] [Sha256] {prepared : PreparedBlob} {inputs : Nat → Input}

-- What a download which begins before the `n`-th input rests on.
structure Fetches (prepared : PreparedBlob) (inputs : Nat → Input) (n : Nat)
    (trace : List interface.Event) : Prop where
  -- All responses are those of the relay.
  answered : ∀ bytes response,
    ⟨.exchange bytes, (.ok response : Except TransportError Bytes)⟩ ∈ trace →
    ∃ k now, Answers inputs k .blob bytes now response
  -- Nobody has used the request identifiers before, or uses them for other frames.
  fresh    : ∀ bytes response decoded, ⟨.exchange bytes, response⟩ ∈ trace →
    decodeBlobRequest bytes = .ok decoded →
    ∀ k bytes' now fault decoded', inputs k = .exchangeBlob bytes' now fault →
      AdmissibleBlob bytes' decoded' →
      decoded'.frame.request.capability = prepared.capabilities.download →
      decoded'.frame.requestId = decoded.frame.requestId → n ≤ k ∧ bytes' = bytes
  -- The grants for the download are neither deleted nor expired.
  live     : ∀ bytes response, ⟨.exchange bytes, response⟩ ∈ trace →
    ∀ k now fault, inputs k = .exchangeBlob bytes now fault →
      ∀ grant ∈ (blobTables inputs k).grants, grant.matches GrantRow.downloadCap
        prepared.encrypted.blobId prepared.capabilities.download → grant.Live now

theorem Granted.mono (h : Granted prepared inputs n expiresAt) (hn : n ≤ k) :
    Granted prepared inputs k expiresAt := by
  induction hn
  case refl    => exact h
  case step hi => exact hi.succ

theorem Granted.exists_matches (h : Granted prepared inputs n expiresAt) :
    ∃ grant ∈ (blobTables inputs n).grants, grant.matches GrantRow.downloadCap
      prepared.encrypted.blobId prepared.capabilities.download := by
  obtain ⟨_, _, hg⟩ := h.grant
  exact ⟨_, Table.mem_of_lookup hg, by simp [GrantRow.matches, PreparedBlob.grant]⟩

-- A capability is accepted if all of its grants are live.
omit [Profile] [Ed25519] [Sha256] in
theorem exists_authorizeGrant {tables : BlobTables} {blobId : BlobId}
    (he : ∃ grant ∈ tables.grants, grant.matches column blobId cap)
    (hl : ∀ grant ∈ tables.grants, grant.matches column blobId cap → grant.Live now) :
    ∃ expiry, authorizeGrant tables blobId column cap now = .ok expiry := by
  obtain ⟨grant, hg, hm⟩ := he
  cases hf : tables.grants.find? (GrantRow.matches column blobId cap)
  case none => exact absurd hm (List.find?_eq_none.mp hf grant hg)
  case some grant =>
    have hl := hl grant (List.mem_of_find?_eq_some hf) (List.find?_some hf)
    exact ⟨_, authorizeGrant_eq_ok.mpr ⟨grant, hf, hl, rfl⟩⟩

omit [Profile] [Sha256] in
theorem admissible_signed [LawfulEd25519] {request : BlobRequest} (hw : RequestWellFormed request)
    (hc : request.capability = capability key) (requestId : RequestId) :
    AdmissibleBlob (signed key requestId request)
      ⟨⟨requestId, request, signBlobRequest key (encodeBlobAuthenticatedRequest requestId request)⟩,
        encodeBlobAuthenticatedRequest requestId request⟩ where
  decode := decode_signed hw
  verify := by
    rw [hc]
    exact if_pos (verifyProof_signProof _)

section Holds

variable [LawfulEd25519] (h : Fetches prepared inputs n trace) (hg : Granted prepared inputs n expiresAt)
include h hg

-- A request which succeeds under a live grant is confirmed.
theorem Fetches.confirms (hc : request.capability = prepared.capabilities.download)
    (hw : RequestWellFormed request)
    (hx : ∀ k ≥ n, ∀ now expiry, authorizeGrant (blobTables inputs k) prepared.encrypted.blobId
        GrantRow.downloadCap prepared.capabilities.download now = .ok expiry →
      ∃ body, P body ∧ executeBlobRequest request now (blobTables inputs k) =
        .ok (body, blobTables inputs k)) :
    Confirms trace prepared.downloadKey request P := by
  intro requestId response hm
  have hd := admissible_signed hw hc requestId
  generalize signed prepared.downloadKey requestId request = bytes at hm hd
  have hf := h.fresh _ _ _ hm hd.decode
  have hx (m t fault) (hi : inputs m = .exchangeBlob bytes t fault) :
      ∃ body, P body ∧ executeBlobRequest request t (blobTables inputs m) =
        .ok (body, blobTables inputs m) := by
    obtain ⟨hn, _⟩ := hf m _ t fault _ hi hd hc rfl
    obtain ⟨expiry, hl⟩ := exists_authorizeGrant (hg.mono hn).exists_matches
      (h.live _ _ hm m t fault hi)
    exact hx m hn t expiry hl
  obtain ⟨k, now, ha⟩ := h.answered _ _ hm
  have hu : RelayService.Unique inputs k bytes _ :=
    fun m _ bytes' t fault decoded' hi hd' hc' hr =>
      (hf m bytes' t fault decoded' hi hd' (hc'.trans hc) hr).right
  obtain ⟨m, _, t, fault, body, hi, he, hr⟩ := ha.succeeds hd hu fun m _ t fault hi => by
    obtain ⟨body, _, he⟩ := hx m t fault hi
    exact ⟨body, _, he⟩
  obtain ⟨body', hb, he'⟩ := hx m t fault hi
  obtain ⟨rfl, _⟩ := Prod.mk.inj (Except.ok.inj (he.symm.trans he'))
  exact ⟨body, hb, hr⟩

theorem Fetches.confirms_manifest (ho : ⟨prepared.encrypted.blobId.asBytes,
      prepared.encrypted.manifest.asBytes⟩ ∈ (blobTables inputs n).objects) :
    Confirms trace prepared.downloadKey
      (.getManifest prepared.encrypted.blobId (capability prepared.downloadKey))
      fun body => ∃ expiresAt, body = .getManifest prepared.encrypted.manifest expiresAt := by
  refine h.confirms hg rfl trivial fun k hk now expiry hl => ?_
  have hv := blobTables_valid inputs k
  obtain ⟨manifest, hm, he⟩ := hv.getBlobManifestTx_eq_ok hl
  have hq := hv.keyed.objects.eq (objectManifest_eq_ok hm) (mem_objects_of_le hk ho) rfl
  obtain rfl := BlobManifest.asBytes_inj (congrArg ObjectRow.manifest hq)
  refine ⟨_, ⟨expiry, rfl⟩, ?_⟩
  simp only [executeBlobRequest, Except.bind_eq_ok]
  exact ⟨_, he, rfl⟩

theorem Fetches.confirms_chunks [ChaCha20Poly1305] [Hkdf] (hp : prepared.Valid)
    (hi : Set.InjOn Sha256.digest (ciphertexts prepared inputs))
    (ho : ⟨prepared.encrypted.blobId.asBytes, prepared.encrypted.manifest.asBytes⟩ ∈
      (blobTables inputs n).objects) :
    ConfirmsChunks prepared trace := by
  intro index chunk hc
  refine h.confirms hg rfl trivial fun k hk now expiry hl => ?_
  have hv := blobTables_valid inputs k
  obtain ⟨manifest, hm, _⟩ := hv.getBlobManifestTx_eq_ok hl
  have ho := mem_objects_of_le hk ho
  have hq := hv.keyed.objects.eq (objectManifest_eq_ok hm) ho rfl
  obtain rfl := BlobManifest.asBytes_inj (congrArg ObjectRow.manifest hq)
  have hx : index.toNat < prepared.encrypted.manifest.chunkCount := by
    rw [←hp.length_chunks]
    exact (List.getElem?_eq_some_iff.mp hc).fst
  obtain ⟨row, hr, hk, he⟩ := hv.getBlobChunkTx_eq_ok hl hm hx
  have hy := lookup_chunk hp hi ho index
  rw [(Table.lookup_eq_some hv.keyed.chunks).mpr ⟨hr, hk⟩, hc] at hy
  obtain rfl : row.ciphertext = chunk := Option.some.inj hy
  refine ⟨_, ⟨expiry, rfl⟩, ?_⟩
  simp only [executeBlobRequest, Except.bind_eq_ok]
  exact ⟨_, he, rfl⟩

end Holds

-- Once an upload is complete, its blob can be downloaded as long as the grant is live. Whatever other
-- clients do, a download only fails if one of its exchanges does.
theorem committed_blob_downloads [Ed25519Seeds] [ChaCha20Poly1305] [Hkdf] [LawfulEd25519]
    [LawfulEd25519Seeds] [LawfulChaCha20Poly1305] (plaintext : Bytes) (chunkSize : UInt32)
    (rng rng' : Rng) (prepared : PreparedBlob)
    (hp : PreparedBlob.new plaintext chunkSize rng = .ok (prepared, rng')) (ttl : UInt64) (ht : ttl ≠ 0)
    (durable : Option Bytes)
    (hd : ∀ bytes ∈ durable, encodeUploadState (prepared.uploader ttl) = some bytes)
    (inputs : Nat → Input) (hi : Set.InjOn Sha256.digest (ciphertexts prepared inputs))
    (s : Session) (hr : Session.Runs prepared inputs (prepared.session ttl durable) s)
    (hs : s.process.stage prepared.uploadIdentity = .complete)
    (trace : List interface.Event) (hf : Fetches prepared inputs s.received trace)
    (result : Except BlobClientError Bytes) (hx : Runs (downloadBlob prepared) trace (.done result)) :
    result = .ok plaintext ∨ result = .error .transport ∧ Lost trace := by
  have hv := (PreparedBlob.Constructed.new hp).valid
  obtain ⟨_, hl⟩ := of_new_eq_ok hp
  have h := hr.invariant hv (Session.invariant_session hv ht hd)
  obtain ⟨expiresAt, hc⟩ := h.process.complete hs
  have hh := h.committed hv hi hc
  have ho := Table.mem_of_lookup hh.object
  have hw := downloadBlob_succeeds hv hl.openBlob_eq hx (hf.confirms_manifest hh.toGranted ho)
    (hf.confirms_chunks hh.toGranted hv hi ho)
  exact hw.imp_left fun ⟨_, he, hp⟩ => hp ▸ he

end Relay

namespace Sample

attribute [local instance] Toy.profile Toy.ed25519 Toy.seeds Toy.sha256 Toy.chaCha20Poly1305 Toy.hkdf

theorem mem_download (h : ⟨.exchange bytes, r⟩ ∈ download) :
    ∃ n, 5 ≤ n ∧ n < 8 ∧ bytes = received n ∧ ∀ b, r = .ok b → b = response (sequence n) := by
  simp only [download, answer, answered, List.cons_append, List.nil_append, List.mem_cons,
    List.not_mem_nil, or_false] at h
  obtain h | h | h | h | h | h := h <;> cases h
  · exact ⟨5, by decide, by decide, rfl, fun _ h => (Except.ok.inj h).symm⟩
  · exact ⟨6, by decide, by decide, rfl, fun _ h => (Except.ok.inj h).symm⟩
  · exact ⟨7, by decide, by decide, rfl, fun _ h => (Except.ok.inj h).symm⟩

theorem requestId_inj (hn : n < 7) (hk : k < 7) (h : requestId n = requestId k) : n = k := by
  have hi : ∀ n < 7, ∀ k < 7, requestId n = requestId k → n = k := by decide
  exact hi n hn k hk h

theorem sequence_lt (h : n < 8) : sequence n < 7 := by
  unfold sequence
  split <;> omega

theorem fetches : Fetches prepared inputs 5 download where
  answered bytes response hm := by
    obtain ⟨n, _, hn, rfl, hr⟩ := mem_download hm
    obtain rfl := hr response rfl
    exact ⟨n, 0, answers hn⟩
  fresh bytes r decoded hm hd k bytes' now fault decoded' hi ha _ hr := by
    obtain ⟨n, hl, hn, rfl, _⟩ := mem_download hm
    unfold inputs at hi
    split at hi <;> cases hi
    case isTrue hk =>
      cases hd.symm.trans (decode_signed (request_wellFormed _))
      cases ha.decode.symm.trans (decode_signed (request_wellFormed _))
      have he := requestId_inj (sequence_lt hk) (sequence_lt hn) hr
      have hs : ∀ n < 8, ∀ k < 8, 5 ≤ n → sequence k = sequence n → k = n := by decide
      obtain rfl := hs n hn k hk hl he
      exact ⟨hl, rfl⟩
  live bytes r hm k now fault hi grant hg _ := by
    have hl : ∀ k < 8, (blobTables inputs k).grants.all
        (fun grant => ¬grant.deleted ∧ 0 < fromBeBytes grant.expiresAt) := by
      decide +kernel
    unfold inputs at hi
    split at hi <;> cases hi
    case isTrue hk =>
      have hl := List.all_eq_true.mp (hl k hk) grant hg
      exact (of_decide_eq_true hl : ¬grant.deleted ∧ 0 < fromBeBytes grant.expiresAt)

end Sample

open Sample in
attribute [local instance] Toy.profile Toy.ed25519 Toy.seeds Toy.sha256 Toy.chaCha20Poly1305 Toy.hkdf
  Toy.lawfulCipher Toy.lawfulEd25519 Toy.lawfulSeeds in
theorem uploaded_object_downloads :
    ∃ s, Session.Runs prepared inputs (prepared.session 1 none) s ∧
      s.process.stage prepared.uploadIdentity = .complete ∧
      ∃ result, Runs (downloadBlob prepared) download (.done result) ∧
        (result = .ok plaintext ∨ result = .error .transport ∧ Lost download) := by
  obtain ⟨rng', hn⟩ := new_eq_ok
  obtain ⟨_, h⟩ := reaches_committed
  obtain ⟨s, hr, hp, hs⟩ := h.upload .ok nofun
  have hv := (PreparedBlob.Constructed.new hn).valid
  have hi := hr.invariant hv (Session.invariant_session (d := none) hv (by decide) nofun)
  have hc := (hi.process.stage_of_idle (congrArg Process.memory hp)).symm
  refine ⟨s, hr, hc, .ok plaintext, download_runs, ?_⟩
  exact committed_blob_downloads plaintext 64 rng rng' prepared hn 1 (by decide) none nofun inputs
    ciphertexts_injOn s hr hc download (hs ▸ fetches) (.ok plaintext) download_runs

end Cofferwire.Client.Blob
