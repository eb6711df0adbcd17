import Cofferwire.Client.Session
import Cofferwire.Client.Theorems.Upload
import Cofferwire.Service.Theorems.Release

namespace Cofferwire.Client.Blob

open Codec.Blob (decodeBlobRequest encodeBlobResponse request_eq_of_authenticatedBytes_eq
  RequestWellFormed)
open Crypto
open DurableRelay (UploadRow)
open RelayService (AdmissibleBlob Answers Input blobTables blobTables_cases blobTables_valid)

namespace Session

variable [Profile] [Ed25519] [Ed25519Seeds] [Sha256] [ChaCha20Poly1305] [Hkdf]

-- A process can get into some state while the relay processes a number of inputs.
def Reaches (prepared : PreparedBlob) (inputs : Nat → Input) (s : Session) (p : Process) (n : Nat) :
    Prop :=
  ∃ s', Runs prepared inputs s s' ∧ s'.process = p ∧ s'.received = n

namespace Reaches

variable {prepared : PreparedBlob} {inputs : Nat → Input} {s : Session} {p p' : Process}
  {stage : UploadStage} {events : Trace}

theorem upload (h : Reaches prepared inputs s p n)
    (hs : Process.Step prepared.uploadIdentity p events p')
    (ha : ∀ stage bytes response, (stage, ⟨.exchange bytes, .ok response⟩) ∈ events →
      ∃ k < n, ∃ now, Answers inputs k .blob bytes now response) :
    Reaches prepared inputs s p' n := by
  obtain ⟨s', hr, rfl, rfl⟩ := h
  exact ⟨_, hr.tail (.upload hs ha), rfl, rfl⟩

-- The uploader goes on if the relay has given the responses which it gets.
theorem runs (h : Reaches prepared inputs s p n) (hr : Process.Runs prepared.uploadIdentity p events p')
    (ha : ∀ stage bytes response, (stage, ⟨.exchange bytes, .ok response⟩) ∈ events →
      ∃ k < n, ∃ now, Answers inputs k .blob bytes now response) :
    Reaches prepared inputs s p' n := by
  induction hr
  case refl => exact h
  case step hs hi =>
    refine (hi fun _ _ _ hm => ?_).upload hs fun _ _ _ hm => ?_
    · exact ha _ _ _ (List.mem_append_left _ hm)
    · exact ha _ _ _ (List.mem_append_right _ hm)

variable {u : BlobUploader} {pending : Pending} {r : BlobRequest}

theorem prepare (h : Reaches prepared inputs s ⟨.idle u, d⟩ n) (hb : u.blob = prepared) (hv : u.Valid)
    (hs : u.stage ≠ .complete) (hn : u.pending = none) (hr : u.request = .ok r) (requestId : RequestId) :
    ∃ p, Reaches prepared inputs s p n ∧
      p.Sent { u with pending := some (frame u.blob requestId r) } (frame u.blob requestId r) := by
  obtain ⟨_, p, hx, hw⟩ := Process.runs_prepare hv hs hn hr requestId
  refine ⟨p, h.runs (hb ▸ hx) fun _ _ _ hm => ?_, hw⟩
  simp only [List.mem_cons, List.not_mem_nil, or_false] at hm
  obtain hm | hm := hm <;> cases hm

variable (h : Reaches prepared inputs s p n) (hw : p.Sent u pending)
include h hw

-- The frame gets through to the relay.
theorem deliver (hi : (inputs n).frame = some (.blob, pending.bytes, now)) :
    Reaches prepared inputs s p (n + 1) := by
  obtain ⟨s', hr, rfl, rfl⟩ := h
  obtain ⟨next, hm, _⟩ := hw.memory
  refine ⟨_, (hr.tail (.send hm)).tail (.receive ?_), rfl, rfl⟩
  show Genuine prepared (pending.bytes :: s'.sent) (inputs s'.received)
  generalize inputs s'.received = input at hi
  cases input <;> cases hi
  exact fun decoded hd _ => ⟨pending.bytes, .head _, decoded, hd.decode, rfl⟩

theorem resend [LawfulEd25519] [LawfulEd25519Seeds] (hb : u.blob = prepared) :
    ∃ p', Reaches prepared inputs s p' n ∧ p'.Sent u pending := by
  obtain ⟨_, p', hr, hw⟩ := hw.resend p.memory
  refine ⟨p', h.runs (hb ▸ hr) fun _ _ _ hm => ?_, hw⟩
  cases List.mem_singleton.mp hm

-- The response gets back.
theorem answer (hb : u.blob = prepared) (hk : k < n)
    (ha : Answers inputs k .blob pending.bytes now response)
    (hx : u.nextStage pending response = .ok (stage, progress)) :
    ∃ d, Reaches prepared inputs s
      ⟨.running u.stage (.done (.ok (progress, { u with stage, pending := none }))), d⟩ n := by
  subst hb
  obtain ⟨_, d, hr⟩ := hw.answer hx
  refine ⟨d, h.runs hr fun _ _ _ hm => ?_⟩
  simp only [List.mem_cons, List.not_mem_nil, or_false] at hm
  obtain hm | hm := hm <;> cases hm
  exact ⟨k, hk, now, ha⟩

end Reaches
end Session

section Invariant

variable [Profile] [Ed25519] [Sha256] {prepared : PreparedBlob} {inputs : Nat → Input}

-- All chunks which the relay stores have been received in a frame.
theorem uploadChunks_received (hc : chunk ∈ (blobTables inputs n).uploadChunks) :
    chunk.ciphertext ∈ ciphertexts prepared inputs := by
  induction n
  case zero => cases hc
  case succ n hi =>
    obtain he | ⟨bytes, now, fault, decoded, hn, ha, hs⟩ := blobTables_cases inputs n
    · exact hi (he ▸ hc)
    · obtain hc | ⟨uploadId, cap, index, hr⟩ := hs.cases_uploadChunk hc
      · exact hi hc
      · exact .inr ⟨n, bytes, now, fault, decoded, uploadId, cap, index, hn, ha.decode, hr⟩

-- An object has exactly the chunks of the prepared blob if it has the same manifest.
theorem lookup_chunk [ChaCha20Poly1305] [Hkdf] (hp : prepared.Valid)
    (hi : Set.InjOn Sha256.digest (ciphertexts prepared inputs))
    (ho : ⟨prepared.encrypted.blobId.asBytes, prepared.encrypted.manifest.asBytes⟩ ∈
      (blobTables inputs n).objects) (index : UInt32) :
    (Table.lookup DurableRelay.ChunkRow.key (prepared.encrypted.blobId.asBytes, index)
      (blobTables inputs n).chunks).map DurableRelay.ChunkRow.ciphertext =
    prepared.encrypted.chunks[index.toNat]? := by
  have hv := blobTables_valid inputs n
  have hm : BlobManifest.parse prepared.encrypted.manifest.asBytes = .ok prepared.encrypted.manifest :=
    BlobManifest.parse_eq_ok.mpr rfl
  cases hl : Table.lookup DurableRelay.ChunkRow.key (prepared.encrypted.blobId.asBytes, index)
    (blobTables inputs n).chunks
  case none =>
    refine (List.getElem?_eq_none ?_).symm
    by_contra hn
    rw [hp.length_chunks, Nat.not_le] at hn
    obtain ⟨chunk, hc, hk⟩ := hv.complete _ ho _ hm _ hn
    rw [UInt32.ofNat_toNat] at hk
    exact Table.lookup_eq_none.mp hl chunk hc hk
  case some chunk =>
    have hc := Table.mem_of_lookup hl
    have hk : chunk.key = (prepared.encrypted.blobId.asBytes, index) := Table.key_of_lookup hl
    obtain ⟨hb, rfl⟩ := Prod.mk.inj hk
    have hf := (hv.chunk_fits ho hm hc hb).digest
    obtain ⟨_, _, _, hs⟩ := hv.chunks chunk hc
    obtain ⟨_, hx⟩ := hp.opens
    rw [BlobManifest.digest, (of_openBlob_eq_ok hx).right, List.getElem?_map] at hf
    obtain ⟨ciphertext, hg, hd⟩ := Option.map_eq_some_iff.mp hf
    have he := hi (.inl (List.mem_of_getElem? hg)) (uploadChunks_received hs) hd
    rw [hg, he]
    rfl

theorem Granted.succ (h : Granted prepared inputs n expiresAt) :
    Granted prepared inputs (n + 1) expiresAt := by
  obtain ⟨⟨m, hm, hc⟩, expiresAt', deleted, hg⟩ := h
  refine ⟨⟨m, by omega, hc⟩, ?_⟩
  obtain he | ⟨_, _, _, _, _, _, hs⟩ := blobTables_cases inputs n
  · exact ⟨expiresAt', deleted, he ▸ hg⟩
  · have hk := (blobTables_valid inputs (n + 1)).keyed.grants
    obtain ⟨expiresAt', deleted, hg⟩ := hs.exists_grant (Table.mem_of_lookup hg)
    exact ⟨expiresAt', deleted, (Table.lookup_eq_some hk).mpr ⟨hg, rfl⟩⟩

-- The commit of the prepared upload creates the grant.
theorem Granted.publish (hp : prepared.encrypted.blobId = identify prepared.encrypted.manifest)
    (hn : ∀ grant ∈ (blobTables inputs n).grants, grant.grantId ≠ prepared.uploadId.asBytes)
    (ht : blobTables inputs (n + 1) = (blobTables inputs n).publish (UploadRow.begin prepared.uploadId
      prepared.capabilities prepared.encrypted.manifest expiresAt) manifest)
    (hm : manifest = prepared.encrypted.manifest) : Granted prepared inputs (n + 1) expiresAt := by
  subst hm
  have hg : prepared.grant expiresAt ∈ (blobTables inputs (n + 1)).grants := by
    rw [ht]
    refine List.mem_append_right _ (List.mem_singleton.mpr ?_)
    rw [PreparedBlob.grant, hp]
    rfl
  have hl := (Table.lookup_eq_some (blobTables_valid inputs (n + 1)).keyed.grants).mpr ⟨hg, rfl⟩
  exact ⟨⟨n, by omega, Table.lookup_eq_none.mpr hn, hl⟩, _, _, hl⟩

-- An upload under the prepared id and capability is the prepared one.
def Exclusive (prepared : PreparedBlob) (inputs : Nat → Input) (n : Nat) : Prop :=
  ∀ row ∈ (blobTables inputs n).uploads, row.uploadId = prepared.uploadId.asBytes →
    row.uploadCap = prepared.capabilities.upload.asBytes → ∃ expiresAt,
      row = { UploadRow.begin prepared.uploadId prepared.capabilities prepared.encrypted.manifest
        expiresAt with committedBlob := row.committedBlob } ∧
      (row.committedBlob.isSome → Granted prepared inputs n expiresAt)

-- The frames which have been sent carry the requests of the upload.
def Requested (prepared : PreparedBlob) (ttl : UInt64) (sent : List Bytes) : Prop :=
  ∀ bytes ∈ sent, ∃ stage decoded, decodeBlobRequest bytes = .ok decoded ∧
    matchesStage prepared ttl stage decoded.frame.request

theorem Exclusive.succ (h : Exclusive prepared inputs n) (hp : prepared.encrypted.blobId =
      identify prepared.encrypted.manifest) (hs : Requested prepared ttl sent)
    (hg : Genuine prepared sent (inputs n)) : Exclusive prepared inputs (n + 1) := by
  intro row hr hu hc
  obtain he | ⟨bytes, now, fault, decoded, hn, ha, hx⟩ := blobTables_cases inputs n
  · obtain ⟨expiresAt, he, hg⟩ := h row (he ▸ hr) hu hc
    exact ⟨expiresAt, he, fun hc => (hg hc).succ⟩
  · obtain hr | ⟨uploadId, caps, manifest, ttl, expiry, hq, rfl⟩ | ⟨row, manifest, hp', hf, rfl, ht⟩ :=
      hx.cases_upload (blobTables_valid inputs n) hr
    · obtain ⟨expiresAt, he, hg⟩ := h row hr hu hc
      exact ⟨expiresAt, he, fun hc => (hg hc).succ⟩
    -- The upload begins with a request of the uploader.
    · rw [hn] at hg
      obtain ⟨bytes', hb, decoded', hd, he⟩ := hg decoded ha (hq ▸ congrArg CapabilityId.fromBytes hc)
      obtain ⟨stage, _, hd', hm⟩ := hs bytes' hb
      cases hd.symm.trans hd'
      rw [request_eq_of_authenticatedBytes_eq hd ha.decode he, hq] at hm
      cases stage <;> simp only [matchesStage, decide_eq_true_eq, Bool.false_eq_true] at hm
      obtain ⟨rfl, _, rfl, rfl⟩ := hm
      exact ⟨expiry, rfl, fun h => absurd h Bool.false_ne_true⟩
    · obtain ⟨expiresAt, he, _⟩ := h row hp'.mem hu hc
      rw [hp'.pending] at he
      subst he
      have hm := BlobManifest.parse_eq_ok.mp hp'.parsed
      exact ⟨expiresAt, rfl, fun _ => .publish hp hf ht (BlobManifest.asBytes_inj hm).symm⟩

-- A confirmed commit has taken place, and the relay still holds what it has published.
theorem Committed.holds [ChaCha20Poly1305] [Hkdf] (h : Committed prepared trace expiresAt)
    (hp : prepared.Valid) (hi : Set.InjOn Sha256.digest (ciphertexts prepared inputs))
    (ho : Exclusive prepared inputs n)
    (ha : ∀ stage bytes response, (stage, ⟨.exchange bytes, .ok response⟩) ∈ trace →
      ∃ k < n, ∃ now, Answers inputs k .blob bytes now response) :
    Holds prepared inputs n expiresAt := by
  obtain ⟨requestId, response, hm, hr⟩ := h
  obtain ⟨k, hk, now, ha⟩ := ha _ _ _ hm
  obtain ⟨m, hm, t, _, he⟩ := RelayService.blob_released ha (decode_signed trivial) hr rfl
  generalize ht : blobTables inputs (m + 1) = tables at he
  obtain ⟨⟨_, _⟩, hx, he⟩ := Except.bind_eq_ok.mp he
  cases he
  obtain ⟨row, hu, hw, hc, hb, rfl⟩ := DurableRelay.of_commitBlobTx_eq_ok hx
  -- The upload which has been committed is still there.
  have hu := RelayService.mem_uploads_of_committed (n := n) (by omega) (ht ▸ hu) hb
  obtain ⟨expiresAt, he, hg⟩ := ho row hu hw hc
  have hv := blobTables_valid inputs n
  have hq := hv.published row hu _ hb
  rw [he] at hq
  refine {
    toGranted := ?_
    object    := (Table.lookup_eq_some hv.keyed.objects).mpr ⟨hq, rfl⟩
    chunks    := lookup_chunk hp hi hq
    upload    := ⟨row, (Table.lookup_eq_some hv.keyed.uploads).mpr ⟨hu, hw⟩, hc⟩
  }
  rw [show fromBeBytes row.expiresAt = expiresAt by rw [he]; exact fromBeBytes_toBeBytes _]
  exact hg (hb ▸ rfl)

namespace Session

variable [Ed25519Seeds] [ChaCha20Poly1305] [Hkdf] {s s' : Session}

structure Invariant (prepared : PreparedBlob) (ttl : UInt64) (inputs : Nat → Input) (s : Session) :
    Prop where
  process  : s.process.Invariant prepared ttl s.trace
  sent     : Requested prepared ttl s.sent
  uploads  : Exclusive prepared inputs s.received
  answered : ∀ stage bytes response, (stage, ⟨.exchange bytes, .ok response⟩) ∈ s.trace →
    ∃ n < s.received, ∃ now, Answers inputs n .blob bytes now response

theorem invariant_session (hv : prepared.Valid) (ht : ttl ≠ 0)
    (hd : ∀ bytes ∈ d, encodeUploadState (prepared.uploader ttl) = some bytes) :
    (prepared.session ttl d).Invariant prepared ttl inputs where
  process  := Process.invariant_initial hv ht hd
  sent     := nofun
  uploads  := nofun
  answered := nofun

theorem Invariant.committed (h : s.Invariant prepared ttl inputs) (hp : prepared.Valid)
    (hi : Set.InjOn Sha256.digest (ciphertexts prepared inputs))
    (hc : Committed prepared s.trace expiresAt) : Holds prepared inputs s.received expiresAt :=
  hc.holds hp hi h.uploads h.answered

theorem Step.trace_prefix (hs : Step prepared inputs s s') : s.trace <+: s'.trace := by
  cases hs
  case send    => exact List.prefix_rfl
  case receive => exact List.prefix_rfl
  case upload  => exact List.prefix_append ..

theorem Runs.trace_prefix (hr : Runs prepared inputs s s') : s.trace <+: s'.trace := by
  induction hr
  case refl       => exact List.prefix_rfl
  case tail hs hi => exact hi.trans hs.trace_prefix

variable [LawfulEd25519] [LawfulEd25519Seeds]

theorem Step.invariant (hs : Step prepared inputs s s') (hp : prepared.Valid)
    (h : s.Invariant prepared ttl inputs) : s'.Invariant prepared ttl inputs := by
  cases hs
  case send bytes stage next hm =>
    refine { h with sent := List.forall_mem_cons.mpr ⟨?_, h.sent⟩ }
    obtain ⟨stage, requestId, request, auth, hs, hd⟩ := h.process.sent hm
    exact ⟨stage, _, hd, hs⟩
  case receive hg =>
    refine { h with uploads := h.uploads.succ hp.blobId h.sent hg, answered := fun _ _ _ hm => ?_ }
    obtain ⟨n, hn, ha⟩ := h.answered _ _ _ hm
    exact ⟨n, Nat.lt_succ_of_lt hn, ha⟩
  case upload hs ha =>
    refine { h with process := hs.invariant h.process, answered := fun _ _ _ hm => ?_ }
    rcases List.mem_append.mp hm with hm | hm
    · exact h.answered _ _ _ hm
    · exact ha _ _ _ hm

theorem Runs.invariant (hr : Runs prepared inputs s s') (hp : prepared.Valid)
    (h : s.Invariant prepared ttl inputs) : s'.Invariant prepared ttl inputs := by
  induction hr
  case refl       => exact h
  case tail hs hi => exact hs.invariant hp hi

-- Once an uploader reports a commit, or once its upload is complete, the relay holds the prepared blob
-- and has created its grant.
theorem reported_commit_is_real [LawfulChaCha20Poly1305] (prepared : PreparedBlob)
    (hc : prepared.Constructed) (ttl : UInt64) (ht : ttl ≠ 0) (durable : Option Bytes)
    (hd : ∀ bytes ∈ durable, encodeUploadState (prepared.uploader ttl) = some bytes)
    (inputs : Nat → Input) (hi : Set.InjOn Sha256.digest (ciphertexts prepared inputs))
    (s : Session) (hr : Runs prepared inputs (prepared.session ttl durable) s) :
    (∀ stage expiresAt u, s.process.memory = .running stage (.done (.ok (.committed expiresAt, u))) →
      ∀ s', Runs prepared inputs s s' → Holds prepared inputs s'.received expiresAt) ∧
    (∀ u, s.process.memory = .idle u → u.stage = .complete →
      ∃ expiresAt, Holds prepared inputs s.received expiresAt) ∧
    (s.process.stage prepared.uploadIdentity = .complete →
      ∃ expiresAt, Holds prepared inputs s.received expiresAt) := by
  have hv := hc.valid
  have h := hr.invariant hv (invariant_session hv ht hd)
  refine ⟨fun stage expiresAt u hm s' hs => ?_, fun u hm hu => ?_, fun hs => ?_⟩
  · have ht : Committed prepared s'.trace expiresAt := by
      obtain ⟨_, ht⟩ := hs.trace_prefix
      exact ht ▸ (h.process.committed hm).append
    exact (hs.invariant hv h).committed hv hi ht
  · obtain ⟨expiresAt, hc⟩ := h.process.complete ((h.process.stage_of_idle hm).symm.trans hu)
    exact ⟨expiresAt, h.committed hv hi hc⟩
  · obtain ⟨expiresAt, hc⟩ := h.process.complete hs
    exact ⟨expiresAt, h.committed hv hi hc⟩

end Session
end Invariant

namespace Sample

open Session (Reaches)

attribute [local instance] Toy.profile Toy.ed25519 Toy.seeds Toy.sha256 Toy.chaCha20Poly1305 Toy.hkdf

def stage : Nat → UploadStage
  | 0 => .begin
  | 1 => .chunk 0
  | 2 => .chunk 1
  | 3 => .commit
  | _ => .complete

def progress : Nat → UploadProgress
  | 0 => .begun
  | 1 => .chunkStored 0
  | 2 => .chunkStored 1
  | _ => .committed 1

def uploader (n : Nat) (pending : Option Pending) : BlobUploader where
  blob    := prepared
  ttl     := 1
  stage   := stage n
  pending := pending

def pending (n : Nat) : Pending :=
  frame prepared (requestId n) (request n)

def response (n : Nat) : Bytes :=
  encodeBlobResponse ⟨requestId n, success (request n) (body n)⟩

-- The frame with the second chunk is received twice.
def sequence (n : Nat) : Nat :=
  if n < 3 then n else n - 1

def received (n : Nat) : Bytes :=
  signed (key (sequence n)) (requestId (sequence n)) (request (sequence n))

def inputs (n : Nat) : Input :=
  if n < 8 then .exchangeBlob (received n) 0 false else .restart

theorem answers (h : n < 8) : Answers inputs n .blob (received n) 0 (response (sequence n)) where
  input  := by rw [inputs, if_pos h, Input.frame]
  output := by
    have ho : ∀ n < 8, RelayService.machine.output inputs n = some (.ok (response (sequence n))) := by
      decide +kernel
    exact ho n h

theorem received_eq (h : n < 5) : received n = (pending (sequence n)).bytes := by
  have hs : ∀ n < 5, sequence n < 4 := by decide
  rw [received, key, if_pos (hs n h)]
  rfl

theorem ciphertexts_injOn : Set.InjOn Sha256.digest (ciphertexts prepared inputs) := by
  have hs : ciphertexts prepared inputs ⊆ {bytes | bytes ∈ prepared.encrypted.chunks} := by
    rintro bytes (h | ⟨n, _, _, _, decoded, uploadId, cap, index, hi, hd, hr⟩)
    · exact h
    · unfold inputs at hi
      split at hi <;> cases hi
      cases hd.symm.trans (decode_signed (request_wellFormed _))
      unfold request at hr
      split at hr <;> cases hr
      · exact .head _
      · exact .tail _ (.head _)
  have hd : (prepared.encrypted.chunks.map Sha256.digest).Nodup := by decide +kernel
  exact Set.InjOn.mono hs fun _ h _ h' => List.inj_on_of_nodup_map hd h h'

theorem uploader_valid (n : Nat) : (uploader n none).Valid := by
  obtain ⟨_, hn⟩ := new_eq_ok
  have := Toy.lawfulCipher
  have hv : prepared.Valid := (PreparedBlob.Constructed.new hn).valid
  constructor
  case blob    => exact hv
  case ttl     => exact (by decide : (1 : UInt64) ≠ 0)
  case pending => exact nofun
  case stage   =>
    intro index hi
    unfold uploader stage at hi
    dsimp only at hi
    split at hi <;> cases hi
    · exact (by decide : 0 < 2)
    · exact (by decide : 1 < 2)

theorem reaches_sent (hk : k < 4) (h : Reaches prepared inputs s ⟨.idle (uploader k none), d⟩ n) :
    ∃ p, Reaches prepared inputs s p n ∧ p.Sent (uploader k (some (pending k))) (pending k) := by
  have hm : ∀ k < 4, matchesStage prepared 1 (stage k) (request k) := by decide +kernel
  have hr : (uploader k none).request = .ok (request k) := matchesStage_iff.mp (hm k hk)
  have hs : ∀ k < 4, stage k ≠ .complete := by decide
  exact h.prepare rfl (uploader_valid k) (hs k hk) rfl hr (requestId k)

theorem reaches_done (hn : n < 5) (hs : sequence n = k) (h : Reaches prepared inputs s p n)
    (hw : p.Sent (uploader k (some (pending k))) (pending k)) :
    ∃ d, Reaches prepared inputs s
      ⟨.running (stage k) (.done (.ok (progress k, uploader (k + 1) none))), d⟩ (n + 1) := by
  subst hs
  have hx : ∀ n < 5, (uploader (sequence n) (some (pending (sequence n)))).nextStage
      (pending (sequence n)) (response (sequence n)) =
        .ok (stage (sequence n + 1), progress (sequence n)) := by
    decide +kernel
  have ha := answers (n := n) (by omega)
  rw [received_eq hn] at ha
  exact (h.deliver hw ha.input).answer hw rfl (Nat.lt_succ_self n) ha (hx n hn)

attribute [local instance] Toy.lawfulEd25519 Toy.lawfulSeeds

-- The uploader crashes after the frame with the second chunk has been received.
theorem reaches_resent : ∃ p, Reaches prepared inputs (prepared.session 1 none) p 3 ∧
    p.Sent (uploader 2 (some (pending 2))) (pending 2) := by
  have h : Reaches prepared inputs (prepared.session 1 none) ⟨.idle (uploader 0 none), none⟩ 0 :=
    ⟨_, .refl, rfl, rfl⟩
  obtain ⟨_, h, hw⟩ := reaches_sent (by decide) h
  obtain ⟨_, h⟩ := reaches_done (by decide) rfl h hw
  obtain ⟨_, h, hw⟩ := reaches_sent (by decide) (h.upload .ok nofun)
  obtain ⟨_, h⟩ := reaches_done (by decide) rfl h hw
  obtain ⟨_, h, hw⟩ := reaches_sent (by decide) (h.upload .ok nofun)
  have ha := answers (n := 2) (by decide)
  exact (h.deliver hw ha.input).resend hw rfl

theorem reaches_committed : ∃ d, Reaches prepared inputs (prepared.session 1 none)
    ⟨.running .commit (.done (.ok (.committed 1, uploader 4 none))), d⟩ 5 := by
  obtain ⟨_, h, hw⟩ := reaches_resent
  obtain ⟨_, h⟩ := reaches_done (by decide) rfl h hw
  obtain ⟨_, h, hw⟩ := reaches_sent (by decide) (h.upload .ok nofun)
  exact reaches_done (by decide) rfl h hw

end Sample

open Sample in
attribute [local instance] Toy.profile Toy.ed25519 Toy.seeds Toy.sha256 Toy.chaCha20Poly1305 Toy.hkdf
  Toy.lawfulCipher Toy.lawfulEd25519 Toy.lawfulSeeds in
theorem Session.reported_object_is_held :
    ∃ s stage u, Runs prepared inputs (prepared.session 1 none) s ∧
      s.process.memory = .running stage (.done (.ok (.committed 1, u))) ∧
      Holds prepared inputs s.received 1 := by
  obtain ⟨_, hn⟩ := new_eq_ok
  obtain ⟨d, s, hr, hp, _⟩ := reaches_committed
  have hm := congrArg Process.memory hp
  have h := reported_commit_is_real prepared (.new hn) 1 (by decide) none nofun inputs
    ciphertexts_injOn s hr
  exact ⟨s, _, _, hr, hm, h.left _ _ _ hm s .refl⟩

end Cofferwire.Client.Blob
