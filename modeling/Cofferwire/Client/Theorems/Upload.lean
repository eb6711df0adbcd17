import Cofferwire.Client.Theorems.Download
import Cofferwire.Client.Upload

namespace Cofferwire.Client.Blob

open Codec.Blob (decodeBlobRequest decodeBlobResponse encodeBlobAuthenticatedRequest)

namespace UploadStage

-- The position of a stage among all stages of an upload.
def rank (count : Nat) : UploadStage → Nat
  | begin       => 0
  | chunk index => index + 1
  | commit      => count + 1
  | complete    => count + 2

theorem Follows.rank_lt (h : Follows count stage stage') : stage.rank count < stage'.rank count := by
  cases h <;> simp only [rank] <;> omega

theorem Follows.index_lt (h : Follows count stage (.chunk index)) (hc : 0 < count) : index < count := by
  cases h
  case begin    => exact hc
  case chunk hl => exact hl

end UploadStage

theorem BlobUploader.Valid.exists_request [Ed25519] [Sha256] [ChaCha20Poly1305] [Hkdf]
    {uploader : BlobUploader} (h : uploader.Valid) (hs : uploader.stage ≠ .complete) :
    ∃ request, uploader.request = .ok request := by
  unfold request
  cases hi : uploader.stage
  case begin    => exact ⟨_, rfl⟩
  case commit   => exact ⟨_, rfl⟩
  case complete => exact absurd hi hs
  case chunk index =>
    have hl := h.stage index hi
    have hc := h.blob.chunks_le
    rw [maxChunks] at hc
    have hu : u32TryFrom index = some (.ofNat index) := if_pos (by omega)
    simp only [hu, List.getElem?_eq_getElem hl]
    exact ⟨_, rfl⟩

theorem BlobUploader.Valid.stage_ne_complete [Ed25519] [Sha256] [ChaCha20Poly1305] [Hkdf]
    {uploader : BlobUploader} (h : uploader.Valid) (hp : uploader.pending = some p) :
    uploader.stage ≠ .complete := by
  obtain ⟨_, _, hr, _⟩ := h.pending p hp
  intro hs
  rw [request, hs] at hr
  cases hr

theorem BlobUploader.Valid.prepare [Ed25519] [Sha256] [ChaCha20Poly1305] [Hkdf] {uploader : BlobUploader}
    {r : BlobRequest} (h : uploader.Valid) (hr : uploader.request = .ok r) :
    BlobUploader.Valid { uploader with pending := some (frame uploader.blob requestId r) } where
  blob    := h.blob
  ttl     := h.ttl
  stage   := h.stage
  pending := by
    rintro _ ⟨⟩
    exact ⟨requestId, r, matchesStage_iff.mp (matchesStage_iff.mpr hr :), rfl⟩

theorem BlobUploader.Valid.advance [Ed25519] [Sha256] [ChaCha20Poly1305] [Hkdf] {uploader : BlobUploader}
    {s : UploadStage} (h : uploader.Valid)
    (hf : uploader.stage.Follows uploader.blob.encrypted.chunks.length s) :
    BlobUploader.Valid { uploader with stage := s, pending := none } where
  blob    := h.blob
  ttl     := h.ttl
  pending := nofun
  stage   := by
    rintro index rfl
    exact hf.index_lt h.blob.chunks_pos

-- The response body with which a stage is done, and the progress which is reported then.
inductive UploadStage.Reports : UploadStage → BlobResponseBody → UploadProgress → Prop
  | begin : Reports .begin (.beginUpload outcome) .begun
  | chunk : Reports (.chunk index) (.putChunk outcome) (.chunkStored index)
  | commit : Reports .commit (.commit expiresAt) (.committed expiresAt)

theorem UploadStage.Reports.body {s : UploadStage} {b : BlobResponseBody} (h : s.Reports b progress) :
    s.Body b := by
  cases h
  case begin  => exact .begin
  case chunk  => exact .chunk
  case commit => exact .commit

theorem of_nextStage_eq_ok [Ed25519] {uploader : BlobUploader}
    (hi : ∀ index, uploader.stage = .chunk index → index < uploader.blob.encrypted.chunks.length)
    (h : uploader.nextStage pending bytes = .ok (stage, progress)) :
    (∃ body, uploader.stage.Reports body progress ∧
      decodeBlobResponse bytes = .ok ⟨pending.requestId, some pending.command, .ok, some body⟩) ∧
      uploader.stage.Follows uploader.blob.encrypted.chunks.length stage := by
  unfold BlobUploader.nextStage at h
  split at h
  case h_1 => cases h
  case h_2 frame hd =>
    obtain ⟨hc, h⟩ := Except.ite_error_eq_ok.mp h
    obtain ⟨hs, h⟩ := Except.ite_error_eq_ok.mp h
    obtain ⟨requestId, command, status, body⟩ := frame
    simp only [not_or, ne_eq, not_not, BlobStatus.isOk_iff] at hc hs
    obtain ⟨rfl, rfl⟩ := hc
    subst hs
    generalize uploader.stage = stage at h hi ⊢
    cases stage <;> rcases body with _ | (_ | _ | _ | _ | _ | _ | _) <;> cases h
    case begin.some.beginUpload => exact ⟨⟨_, .begin, hd⟩, .begin⟩
    case chunk.some.putChunk =>
      refine ⟨⟨_, .chunk, hd⟩, ?_⟩
      have hi := hi _ rfl
      split
      case isTrue hl  => exact .last hl
      case isFalse hl => exact .chunk (by omega)
    case commit.some.commit => exact ⟨⟨_, .commit, hd⟩, .commit⟩

section Advance

variable [Ed25519] [Ed25519Seeds] {u : BlobUploader}

-- If the store works, then the pending frame is sent, and the response to it is checked.
theorem runs_send (he : encodeUploadState u = some state) (hp : u.pending = some pending) :
    ∃ next : interface.Result (.exchange pending.bytes) → _,
      Program.Runs u.send [⟨.commit state, .ok ()⟩] (.call (.exchange pending.bytes) next) ∧
      (∀ e, next (.error e : Except TransportError Bytes) = .fail (.error .transport u)) ∧
      ∀ response, next (.ok response : Except TransportError Bytes) = u.finish pending response := by
  unfold BlobUploader.send
  simp only [BlobUploader.persist, he, hp]
  exact ⟨_, .step .refl, fun _ => rfl, fun _ => rfl⟩

theorem advance_eq (hs : u.stage ≠ .complete) (hn : u.pending = none) (hr : u.request = .ok r) :
    u.advance = .call .nextRequestId fun requestId =>
      BlobUploader.send { u with pending := some (frame u.blob requestId r) } := by
  simp only [BlobUploader.advance, if_neg hs, hn, hr, Option.isSome_none, Bool.false_eq_true, if_false]
  rfl

theorem finish_eq (h : u.nextStage pending response = .ok (stage, progress)) :
    u.finish pending response =
      BlobUploader.persist { u with stage, pending := none } u >>= fun _ =>
        pure (progress, { u with stage, pending := none }) := by
  unfold BlobUploader.finish
  rw [h]
  rfl

variable [Sha256] [ChaCha20Poly1305] [Hkdf]

-- A frame which is prepared is sent.
theorem runs_advance (hv : u.Valid) (hs : u.stage ≠ .complete) (hn : u.pending = none)
    (hr : u.request = .ok r) (requestId : RequestId) :
    ∃ state next,
      encodeUploadState { u with pending := some (frame u.blob requestId r) } = some state ∧
      Program.Runs u.advance [⟨.nextRequestId, requestId⟩, ⟨.commit state, .ok ()⟩]
        (.call (.exchange (frame u.blob requestId r).bytes) next) ∧
      (∀ e, next (.error e : Except TransportError Bytes) =
        .fail (.error .transport { u with pending := some (frame u.blob requestId r) })) ∧
      ∀ response, next (.ok response : Except TransportError Bytes) =
        BlobUploader.finish { u with pending := some (frame u.blob requestId r) }
          (frame u.blob requestId r) response := by
  obtain ⟨state, he⟩ := exists_encode (hv.prepare hr)
  obtain ⟨next, hx, hf⟩ := runs_send he rfl
  rw [advance_eq hs hn hr]
  exact ⟨state, next, he, .step hx, hf⟩

theorem runs_finish (hv : u.Valid)
    (hn : u.nextStage pending response = .ok (stage, progress)) :
    ∃ state, Program.Runs (u.finish pending response) [⟨.commit state, .ok ()⟩]
      (.done (.ok (progress, { u with stage, pending := none }))) := by
  obtain ⟨_, hf⟩ := of_nextStage_eq_ok hv.stage hn
  obtain ⟨state, he⟩ := exists_encode (hv.advance hf)
  rw [finish_eq hn, BlobUploader.persist, he]
  exact ⟨state, .step .refl⟩

end Advance

namespace Process

variable [Ed25519] [Ed25519Seeds] [Sha256] [ChaCha20Poly1305] [Hkdf] {u : BlobUploader}

-- A program in memory runs as it does on its own.
theorem Runs.program {program program' : Program interface Failure (UploadProgress × BlobUploader)}
    (h : Runs identity q trace ⟨.running s program, d⟩) (hr : Program.Runs program events program') :
    Runs identity q (trace ++ events.map (s, ·))
      ⟨.running s program', events.foldl (fun d e => e.fst.durable d e.snd) d⟩ := by
  induction hr generalizing trace d
  case refl => simpa using h
  case step c r events _ _ _ hi => simpa using hi (h.step (.call r))

theorem Runs.trans (h : Runs identity p trace p') (h' : Runs identity p' trace' p'') :
    Runs identity p (trace ++ trace') p'' := by
  induction h'
  case refl       => simpa using h
  case step hs hi => exact List.append_assoc .. ▸ hi.step hs

theorem runs_idle : Runs identity ⟨.idle u, d⟩ [] ⟨.running u.stage u.advance, d⟩ :=
  .step .refl .advance

-- A process which has sent the pending frame of an uploader waits for the response to it.
structure Sent (u : BlobUploader) (pending : Pending) (p : Process) : Prop where
  valid   : u.Valid
  frame   : u.pending = some pending
  memory  : ∃ next, p.memory = .running u.stage (.call (.exchange pending.bytes) next) ∧
    ∀ response, next (.ok response : Except TransportError Bytes) = u.finish pending response
  durable : ∃ state, p.durable = some state ∧ encodeUploadState u = some state

-- If the store does not fail, a pending frame is sent.
theorem runs_pending (hv : u.Valid) (hp : u.pending = some pending) :
    ∃ state p, Runs u.blob.uploadIdentity ⟨.idle u, d⟩ [(u.stage, ⟨.commit state, .ok ()⟩)] p ∧
      p.Sent u pending := by
  obtain ⟨state, he⟩ := exists_encode hv
  obtain ⟨next, hx, _, hf⟩ := runs_send he hp
  have ha : Runs u.blob.uploadIdentity ⟨.idle u, d⟩ [] _ := runs_idle
  rw [BlobUploader.advance, if_neg (hv.stage_ne_complete hp), if_pos (hp ▸ rfl)] at ha
  exact ⟨state, _, ha.program hx, hv, hp, ⟨next, rfl, hf⟩, state, rfl, he⟩

-- If there is no pending frame, the next one is prepared and sent.
theorem runs_prepare {r : BlobRequest} (hv : u.Valid) (hs : u.stage ≠ .complete) (hn : u.pending = none)
    (hr : u.request = .ok r) (requestId : RequestId) :
    ∃ state p, Runs u.blob.uploadIdentity ⟨.idle u, d⟩
        [(u.stage, ⟨.nextRequestId, requestId⟩), (u.stage, ⟨.commit state, .ok ()⟩)] p ∧
      p.Sent { u with pending := some (frame u.blob requestId r) } (frame u.blob requestId r) := by
  obtain ⟨state, next, he, hx, _, hf⟩ := runs_advance hv hs hn hr requestId
  exact ⟨state, _, runs_idle.program hx, hv.prepare hr, rfl, ⟨next, rfl, hf⟩, state, rfl, he⟩

namespace Sent

variable {p : Process} (h : p.Sent u pending)
include h

-- After a crash, the frame which has been sent is sent again.
theorem resend [LawfulEd25519] [LawfulEd25519Seeds] (m : Memory) :
    ∃ state p', Runs u.blob.uploadIdentity ⟨m, p.durable⟩ [(u.stage, ⟨.commit state, .ok ()⟩)] p' ∧
      p'.Sent u pending := by
  obtain ⟨state, hd, he⟩ := h.durable
  rw [hd]
  have hc : Runs u.blob.uploadIdentity ⟨m, some state⟩ [] ⟨.idle u, some state⟩ :=
    (Runs.refl.step .crash).step (.restore (restore_encode h.valid he))
  obtain ⟨state, p', hr, hw⟩ := runs_pending h.valid h.frame
  exact ⟨state, p', hc.trans hr, hw⟩

-- A response which completes the stage is the end of the program.
theorem answer (hn : u.nextStage pending response = .ok (s, progress)) :
    ∃ state d, Runs u.blob.uploadIdentity p
      [(u.stage, ⟨.exchange pending.bytes, .ok response⟩), (u.stage, ⟨.commit state, .ok ()⟩)]
      ⟨.running u.stage (.done (.ok (progress, { u with stage := s, pending := none }))), d⟩ := by
  obtain ⟨m, d⟩ := p
  obtain ⟨next, rfl, hf⟩ := h.memory
  obtain ⟨state, hx⟩ := runs_finish h.valid hn
  have hr : Runs u.blob.uploadIdentity ⟨.running u.stage (.call (.exchange pending.bytes) next), d⟩ _ _ :=
    .step .refl (.call (c := .exchange pending.bytes) (.ok response : Except TransportError Bytes))
  rw [hf] at hr
  exact ⟨state, _, hr.program hx⟩

end Sent

end Process

section Invariant

variable [Ed25519]

def diskStage (disk : Option BlobUploader) : UploadStage :=
  disk.elim .begin BlobUploader.stage

section History

def PreparedBlob.commitRequest (prepared : PreparedBlob) : BlobRequest :=
  .commit prepared.uploadId prepared.capabilities.upload prepared.encrypted.blobId

variable (prepared : PreparedBlob)

-- The commit of the upload has been confirmed with the expiry of its grant.
def Committed (trace : Trace) (expiresAt : UInt64) : Prop :=
  ∃ requestId response,
    (.commit, ⟨.exchange (signed prepared.uploadKey requestId prepared.commitRequest), .ok response⟩) ∈
      trace ∧
    decodeBlobResponse response = .ok ⟨requestId, some .commit, .ok, some (.commit expiresAt)⟩

-- All frames which have been sent up to now belong to stages before the one on disk or are the pending
-- frame on disk.
structure Consistent (trace : Trace) (disk : Option BlobUploader) : Prop where
  sent     : ∀ stage request response, (stage, ⟨.exchange request, response⟩) ∈ trace → ∃ u ∈ disk,
    stage.rank prepared.encrypted.chunks.length < u.stage.rank prepared.encrypted.chunks.length ∨
    stage = u.stage ∧ ∃ pending ∈ u.pending, pending.bytes = request
  same     : ∀ stage request request' response response',
    (stage, ⟨.exchange request, response⟩) ∈ trace →
    (stage, ⟨.exchange request', response'⟩) ∈ trace → request = request'
  complete : diskStage disk = .complete → ∃ expiresAt, Committed prepared trace expiresAt

-- A snapshot moves on to the next stage only after a response to the pending frame.
def Moves (disk : Option BlobUploader) (trace : Trace) (stage : UploadStage) : Prop :=
  stage = diskStage disk ∨
  (diskStage disk).Follows prepared.encrypted.chunks.length stage ∧
    ∃ u ∈ disk, ∃ pending ∈ u.pending, ∃ trace' response,
      trace = trace' ++ [(u.stage, ⟨.exchange pending.bytes, .ok response⟩)] ∧
      pending.Confirmed u.stage response

variable {prepared} {u : BlobUploader}

theorem Committed.append (h : Committed prepared trace expiresAt) :
    Committed prepared (trace ++ trace') expiresAt := by
  obtain ⟨requestId, response, hm, hd⟩ := h
  exact ⟨requestId, response, List.mem_append_left _ hm, hd⟩

namespace Consistent

theorem append (h : Consistent prepared trace disk)
    (hc : ∀ request, c ≠ .exchange request) (r : interface.Result c) :
    Consistent prepared (trace ++ [(stage, ⟨c, r⟩)]) disk := by
  have hm {stage' request response} (h : (stage', ⟨.exchange request, response⟩) ∈
      trace ++ [(stage, (⟨c, r⟩ : interface.Event))]) :
      (stage', ⟨.exchange request, response⟩) ∈ trace := by
    rcases List.mem_append.mp h with h | h
    · exact h
    · cases List.mem_singleton.mp h
      exact absurd rfl (hc request)
  exact {
    sent     := fun _ _ _ h' => h.sent _ _ _ (hm h')
    same     := fun _ _ _ _ _ h₁ h₂ => h.same _ _ _ _ _ (hm h₁) (hm h₂)
    complete := fun hs => (h.complete hs).imp fun _ => Committed.append
  }

theorem exchange (h : Consistent prepared trace (some u)) (hp : u.pending = some pending)
    (r : Except TransportError Bytes) :
    Consistent prepared (trace ++ [(u.stage, ⟨.exchange pending.bytes, r⟩)]) (some u) := by
  have hm {stage request} {response : interface.Result (.exchange request)}
      (h' : (stage, ⟨.exchange request, response⟩) ∈
        trace ++ [(u.stage, (⟨.exchange pending.bytes, r⟩ : interface.Event))]) :
      (stage, ⟨.exchange request, response⟩) ∈ trace ∨ stage = u.stage ∧ request = pending.bytes := by
    rcases List.mem_append.mp h' with h' | h'
    · exact .inl h'
    · cases List.mem_singleton.mp h'
      exact .inr ⟨rfl, rfl⟩
  have he {request} {response : interface.Result (.exchange request)}
      (h' : (u.stage, ⟨.exchange request, response⟩) ∈ trace) : request = pending.bytes := by
    obtain ⟨_, ⟨⟩, hs | ⟨_, p, hp', rfl⟩⟩ := h.sent _ _ _ h'
    · exact absurd hs (Nat.lt_irrefl _)
    · cases hp.symm.trans hp'
      rfl
  constructor
  · intro stage request response h'
    rcases hm h' with h' | ⟨rfl, rfl⟩
    · exact h.sent _ _ _ h'
    · exact ⟨u, rfl, .inr ⟨rfl, pending, hp, rfl⟩⟩
  · intro stage request request' response response' h₁ h₂
    rcases hm h₁ with h₁ | ⟨rfl, rfl⟩
    · rcases hm h₂ with h₂ | ⟨rfl, rfl⟩
      · exact h.same _ _ _ _ _ h₁ h₂
      · exact he h₁
    · rcases hm h₂ with h₂ | ⟨_, rfl⟩
      · exact (he h₂).symm
      · rfl
  · exact fun hs => (h.complete hs).imp fun _ => Committed.append

-- A snapshot may add a pending frame if none has been sent yet.
theorem record (h : Consistent prepared trace disk) (hs : u.stage = diskStage disk)
    (hp : ∀ v ∈ disk, v.pending = none ∨ v.pending = u.pending) :
    Consistent prepared trace (some u) := by
  refine ⟨fun stage request response h' => ?_, h.same, fun hc => h.complete (hs ▸ hc)⟩
  obtain ⟨v, hv, h'⟩ := h.sent _ _ _ h'
  cases hv
  refine ⟨u, rfl, ?_⟩
  rw [show u.stage = v.stage from hs]
  refine h'.imp_right fun ⟨hs, p, hm, hb⟩ => ⟨hs, p, ?_, hb⟩
  rcases hp v rfl with hn | hn
  · rw [hn] at hm
    cases hm
  · exact hn ▸ hm

theorem advance (h : Consistent prepared trace (some u))
    (hf : u.stage.Follows prepared.encrypted.chunks.length stage)
    (hc : stage = .complete → ∃ expiresAt, Committed prepared trace expiresAt) :
    Consistent prepared trace (some { u with stage, pending := none }) := by
  refine ⟨fun stage' request response h' => ?_, h.same, hc⟩
  obtain ⟨_, ⟨⟩, h'⟩ := h.sent _ _ _ h'
  refine ⟨_, rfl, .inl ?_⟩
  rcases h' with h' | ⟨rfl, _⟩
  · exact h'.trans hf.rank_lt
  · exact hf.rank_lt

end Consistent
end History

section Idle

variable [Sha256] [ChaCha20Poly1305] [Hkdf] (prepared : PreparedBlob) (ttl : UInt64)

-- The uploader in memory is not ahead of the one on disk, except for a frame which is not sent yet.
structure Idle (u : BlobUploader) (disk : Option BlobUploader) (trace : Trace) : Prop where
  valid      : u.Valid
  blob       : u.blob = prepared
  ttl        : u.ttl = ttl
  stage      : u.stage = diskStage disk
  pending    : ∀ v ∈ disk, v.pending = none ∨ v.pending = u.pending
  consistent : Consistent prepared trace disk

namespace Idle

variable {prepared ttl} {u : BlobUploader} {p : Pending} {s : UploadStage}

theorem nextRequestId (h : Idle prepared ttl u disk trace) (r : RequestId) :
    Idle prepared ttl u disk (trace ++ [(s, ⟨.nextRequestId, r⟩)]) :=
  { h with consistent := h.consistent.append (c := .nextRequestId) (fun _ => nofun) r }

theorem commit (h : Idle prepared ttl u disk trace) (r : Except StoreError Unit) :
    Idle prepared ttl u disk (trace ++ [(s, ⟨.commit state, r⟩)]) :=
  { h with consistent := h.consistent.append (c := .commit state) (fun _ => nofun) r }

-- A frame may become pending if there has not been any.
theorem prepare (h : Idle prepared ttl u disk trace) (hn : u.pending = none)
    (hr : u.request = .ok request) :
    Idle prepared ttl { u with pending := some (frame u.blob requestId request) } disk trace where
  valid      := h.valid.prepare hr
  blob       := h.blob
  ttl        := h.ttl
  stage      := h.stage
  pending    := fun v hv => .inl ((h.pending v hv).elim id (·.trans hn))
  consistent := h.consistent

-- Once the uploader has been committed, it is the one on disk.
theorem record (h : Idle prepared ttl u disk trace) : Idle prepared ttl u (some u) trace where
  valid      := h.valid
  blob       := h.blob
  ttl        := h.ttl
  stage      := rfl
  pending    := by rintro _ ⟨⟩; exact .inr rfl
  consistent := h.consistent.record h.stage h.pending

theorem exchange (h : Idle prepared ttl u (some u) trace) (hp : u.pending = some p)
    (r : Except TransportError Bytes) :
    Idle prepared ttl u (some u) (trace ++ [(u.stage, ⟨.exchange p.bytes, r⟩)]) :=
  { h with consistent := h.consistent.exchange hp r }

theorem advance (h : Idle prepared ttl u (some u) trace)
    (hf : u.stage.Follows prepared.encrypted.chunks.length s)
    (hc : s = .complete → ∃ expiresAt, Committed prepared trace expiresAt) :
    Idle prepared ttl { u with stage := s, pending := none }
      (some { u with stage := s, pending := none }) trace where
  valid      := h.valid.advance (h.blob.symm ▸ hf)
  blob       := h.blob
  ttl        := h.ttl
  stage      := rfl
  pending    := by rintro _ ⟨⟩; exact .inl rfl
  consistent := h.consistent.advance hf hc

-- A confirmed commit has been asked for by the frame which is pending at that stage.
theorem committed (h : Idle prepared ttl u (some u) trace) (hp : u.pending = some p)
    (hs : u.stage = .commit)
    (ht : trace = trace' ++ [(u.stage, ⟨.exchange p.bytes, .ok response⟩)])
    (hd : decodeBlobResponse response =
      .ok ⟨p.requestId, some p.command, .ok, some (.commit expiresAt)⟩) :
    Committed prepared trace expiresAt := by
  obtain ⟨requestId, r, hr, rfl⟩ := h.valid.pending p hp
  simp only [BlobUploader.request, hs, h.blob, Except.ok.injEq] at hr
  subst hr
  refine ⟨requestId, response, ?_, hd⟩
  rw [ht, hs, h.blob]
  exact List.mem_append_right _ (.head _)

end Idle
end Idle

variable [Ed25519Seeds] [Sha256] [ChaCha20Poly1305] [Hkdf] (prepared : PreparedBlob) (ttl : UInt64)

-- The uploader which a snapshot has been taken of.
inductive Disk : Option Bytes → Option BlobUploader → Prop
  | empty : Disk none none
  | snapshot {u : BlobUploader} (hv : u.Valid) (hb : u.blob = prepared) (ht : u.ttl = ttl)
    (he : encodeUploadState u = some bytes) : Disk (some bytes) (some u)

-- What holds whenever a process calls its environment.
def Justified (stage : UploadStage) (disk : Option BlobUploader) (trace : Trace) : Call → Prop
  | .nextRequestId    => True
  | .exchange request => ∃ u ∈ disk, u.stage = stage ∧ ∃ pending ∈ u.pending, pending.bytes = request
  | .commit state     => ∃ u, Disk prepared ttl (some state) (some u) ∧ Moves prepared disk trace u.stage

def Settled (disk : Option BlobUploader) (trace : Trace) :
    Except Failure (UploadProgress × BlobUploader) → Prop
  | .ok (progress, u)   => Idle prepared ttl u disk trace ∧
    ∀ expiresAt, progress = .committed expiresAt → Committed prepared trace expiresAt
  | .error (.error _ u) => Idle prepared ttl u disk trace
  | .error .panic       => False

-- Whatever the environment does, all of this holds at each point of a program.
def Safe (stage : UploadStage) :
    Program interface Failure (UploadProgress × BlobUploader) → Option Bytes → Trace → Prop
  | .done result, d, trace => ∃ disk, Disk prepared ttl d disk ∧ Settled prepared ttl disk trace result
  | .call c next, d, trace =>
    (∃ disk, Disk prepared ttl d disk ∧ Consistent prepared trace disk ∧
      Justified prepared ttl stage disk trace c) ∧
    ∀ r, Safe stage (next r) (c.durable d r) (trace ++ [(stage, ⟨c, r⟩)])

variable {prepared ttl} {u : BlobUploader} {p : Pending}

theorem Idle.snapshot (h : Idle prepared ttl u disk trace) (he : encodeUploadState u = some bytes) :
    Disk prepared ttl (some bytes) (some u) :=
  .snapshot h.valid h.blob h.ttl he

theorem finish_safe (h : Idle prepared ttl u (some u) trace) (he : encodeUploadState u = some bytes)
    (hp : u.pending = some p)
    (ht : trace = trace' ++ [(u.stage, ⟨.exchange p.bytes, .ok response⟩)]) :
    Safe prepared ttl u.stage (u.finish p response) (some bytes) trace := by
  unfold BlobUploader.finish
  cases hn : u.nextStage p response
  case error e => exact ⟨_, h.snapshot he, h⟩
  case ok next =>
    obtain ⟨stage, progress⟩ := next
    obtain ⟨⟨b, hb, hx⟩, hf⟩ := of_nextStage_eq_ok h.valid.stage hn
    rw [h.blob] at hf
    have hc : stage = .complete → ∃ expiresAt, Committed prepared trace expiresAt := by
      rintro rfl
      generalize hs : u.stage = s at hf
      cases hf
      rw [hs] at hb
      cases hb
      exact ⟨_, h.committed hp hs ht hx⟩
    have ha := h.advance hf hc
    obtain ⟨state, hs⟩ := exists_encode ha.valid
    show Safe prepared ttl u.stage (({ u with stage, pending := none } : BlobUploader).persist u >>=
      fun _ => pure (progress, _)) (some bytes) trace
    rw [BlobUploader.persist, hs]
    refine ⟨⟨_, h.snapshot he, h.consistent, _, ha.snapshot hs, ?_⟩, fun r => ?_⟩
    · exact .inr ⟨hf, u, rfl, p, hp, trace', response, ht, b, hb.body, hx⟩
    · rcases r with e | ⟨⟩
      · exact ⟨_, h.snapshot he, h.commit _⟩
      · refine ⟨_, ha.snapshot hs, ha.commit _, ?_⟩
        rintro _ rfl
        generalize hi : u.stage = s at hb
        cases hb
        exact (h.committed hp hi ht hx).append

theorem send_safe (hd : Disk prepared ttl d disk) (h : Idle prepared ttl u disk trace)
    (hp : u.pending = some p) : Safe prepared ttl u.stage u.send d trace := by
  obtain ⟨state, hs⟩ := exists_encode h.valid
  unfold BlobUploader.send
  simp only [BlobUploader.persist, hs, hp]
  refine ⟨⟨_, hd, h.consistent, u, h.snapshot hs, .inl h.stage⟩, fun r => ?_⟩
  rcases r with e | ⟨⟩
  · exact ⟨_, hd, h.commit _⟩
  -- Before a frame is sent, it is the pending one on disk.
  · have hr : Idle prepared ttl u (some u) (trace ++ [(u.stage, ⟨.commit state, .ok ()⟩)]) :=
      h.record.commit (.ok ())
    refine ⟨⟨_, hr.snapshot hs, hr.consistent, u, rfl, rfl, p, hp, rfl⟩, fun r => ?_⟩
    rcases r with e | response
    · exact ⟨_, hr.snapshot hs, hr.exchange hp _⟩
    · exact finish_safe (hr.exchange hp _) hs hp rfl

theorem advance_safe (hd : Disk prepared ttl d disk) (h : Idle prepared ttl u disk trace) :
    Safe prepared ttl u.stage u.advance d trace := by
  unfold BlobUploader.advance
  split
  case isTrue => exact ⟨disk, hd, h, nofun⟩
  case isFalse hs =>
    split
    case isTrue hp =>
      obtain ⟨p, hp⟩ := Option.isSome_iff_exists.mp hp
      exact send_safe hd h hp
    case isFalse hp =>
      have hp : u.pending = none := by simpa using hp
      obtain ⟨request, hr⟩ := h.valid.exists_request hs
      rw [hr]
      refine ⟨⟨disk, hd, h.consistent, trivial⟩, fun (requestId : RequestId) => ?_⟩
      exact send_safe hd ((h.prepare hp hr).nextRequestId requestId) rfl

namespace Process

variable (prepared ttl)

def Invariant (trace : Trace) (p : Process) : Prop :=
  match p.memory with
  | .idle u                => ∃ disk, Disk prepared ttl p.durable disk ∧ Idle prepared ttl u disk trace
  | .running stage program => Safe prepared ttl stage program p.durable trace
  | .crashed               => ∃ disk, Disk prepared ttl p.durable disk ∧ Consistent prepared trace disk

variable {prepared ttl} {p p' : Process}

theorem Invariant.consistent (h : p.Invariant prepared ttl trace) :
    ∃ disk, Disk prepared ttl p.durable disk ∧ Consistent prepared trace disk := by
  obtain ⟨m, d⟩ := p
  cases m
  case idle =>
    obtain ⟨disk, hd, hi⟩ := h
    exact ⟨disk, hd, hi.consistent⟩
  case running stage program =>
    cases program
    case done result =>
      obtain ⟨disk, hd, hs⟩ := h
      refine ⟨disk, hd, ?_⟩
      rcases result with (⟨e, u⟩ | _) | ⟨progress, u⟩
      · exact hs.consistent
      · cases hs
      · exact hs.left.consistent
    case call =>
      obtain ⟨⟨disk, hd, hc, _⟩, _⟩ := h
      exact ⟨disk, hd, hc⟩
  case crashed => exact h

theorem Invariant.committed (h : p.Invariant prepared ttl trace)
    (hm : p.memory = .running s (.done (.ok (.committed expiresAt, u)))) :
    Committed prepared trace expiresAt := by
  rw [Invariant, hm] at h
  obtain ⟨_, _, _, hc⟩ := h
  exact hc expiresAt rfl

-- Each frame which is sent carries the request of some stage.
theorem Invariant.sent {next : interface.Result (.exchange bytes) → _}
    (h : p.Invariant prepared ttl trace)
    (hm : p.memory = .running s (.call (.exchange bytes) next)) :
    ∃ stage requestId request auth, matchesStage prepared ttl stage request ∧
      decodeBlobRequest bytes = .ok ⟨⟨requestId, request, auth⟩,
        encodeBlobAuthenticatedRequest requestId request⟩ := by
  rw [Invariant, hm] at h
  obtain ⟨⟨disk, hd, _, u, hu, _, pending, hp, rfl⟩, _⟩ := h
  cases hu
  generalize p.durable = d at hd
  cases hd
  case snapshot hv hb ht _ =>
    obtain ⟨requestId, r, hr, rfl⟩ := hv.pending pending hp
    exact ⟨u.stage, requestId, r, _, hb ▸ ht ▸ matchesStage_iff.mpr hr, hv.decode_frame hr requestId⟩

theorem Step.durable_cases (hs : Step identity p events p') :
    p'.durable = p.durable ∨
    ∃ stage state next, p.memory = .running stage (.call (.commit state) next) ∧
      p'.durable = some state := by
  cases hs
  case call c stage d next r =>
    cases c
    case commit state =>
      rcases r with e | ⟨⟩
      · exact .inl rfl
      · exact .inr ⟨_, state, _, rfl, rfl⟩
    all_goals exact .inl rfl
  all_goals exact .inl rfl

-- The new uploader may have been committed before.
theorem invariant_initial (hv : prepared.Valid) (ht : ttl ≠ 0)
    (hd : ∀ bytes ∈ d, encodeUploadState (prepared.uploader ttl) = some bytes) :
    Invariant prepared ttl [] ⟨.idle (prepared.uploader ttl), d⟩ := by
  have hv : (prepared.uploader ttl).Valid := ⟨hv, ht, nofun, nofun⟩
  have hi : Idle prepared ttl (prepared.uploader ttl) none [] :=
    ⟨hv, rfl, rfl, rfl, nofun, nofun, nofun, nofun⟩
  cases d
  case none       => exact ⟨none, .empty, hi⟩
  case some bytes => exact ⟨some _, .snapshot hv rfl rfl (hd bytes rfl), hi.record⟩

variable [LawfulEd25519] [LawfulEd25519Seeds]

theorem Step.invariant (hs : Step prepared.uploadIdentity p events p')
    (h : p.Invariant prepared ttl trace) : p'.Invariant prepared ttl (trace ++ events) := by
  cases hs
  case advance =>
    obtain ⟨disk, hd, hi⟩ := h
    rw [List.append_nil]
    exact advance_safe hd hi
  case call r => exact h.right r
  case ok =>
    rw [List.append_nil]
    obtain ⟨disk, hd, hi, _⟩ := h
    exact ⟨disk, hd, hi⟩
  case error =>
    rw [List.append_nil]
    exact h
  case crash =>
    rw [List.append_nil]
    exact h.consistent
  case restore hr =>
    rw [List.append_nil]
    obtain ⟨_, hd, hc⟩ := h
    cases hd
    case snapshot u hv hb ht he =>
      have hu := hb ▸ restore_encode hv he
      cases hr.symm.trans hu
      refine ⟨some _, .snapshot hv hb ht he, hv, hb, ht, rfl, ?_, hc⟩
      rintro _ ⟨⟩
      exact .inr rfl

theorem Runs.invariant (hr : Runs prepared.uploadIdentity p trace p') (h : p.Invariant prepared ttl []) :
    p'.Invariant prepared ttl trace := by
  induction hr
  case refl       => exact h
  case step hs hi => exact hs.invariant hi

theorem stage_eq (hd : Disk prepared ttl p.durable disk) :
    p.stage prepared.uploadIdentity = diskStage disk := by
  obtain ⟨m, d⟩ := p
  cases hd
  case empty => rfl
  case snapshot hv hb ht he => simp only [stage, hb ▸ restore_encode hv he, diskStage, Option.elim]

-- The last durable snapshot can be restored.
theorem restore_eq (hd : Disk prepared ttl p.durable disk) (hb : p.durable = some bytes) :
    ∃ u ∈ disk, BlobUploader.restore bytes prepared.uploadIdentity = .ok u := by
  obtain ⟨m, d⟩ := p
  subst hb
  cases hd
  case snapshot hv hb ht he => exact ⟨_, rfl, hb ▸ restore_encode hv he⟩

theorem exists_restore (hd : Disk prepared ttl p.durable (some u)) :
    ∃ bytes, p.durable = some bytes ∧ BlobUploader.restore bytes prepared.uploadIdentity = .ok u := by
  obtain ⟨m, d⟩ := p
  cases hd
  case snapshot hv hb ht he => exact ⟨_, rfl, hb ▸ restore_encode hv he⟩

theorem Invariant.exchange {next : interface.Result (.exchange request) → _}
    (h : p.Invariant prepared ttl trace)
    (hm : p.memory = .running s (.call (.exchange request) next)) :
    ∃ bytes u pending, p.durable = some bytes ∧
      BlobUploader.restore bytes prepared.uploadIdentity = .ok u ∧
      u.stage = s ∧ u.pending = some pending ∧ pending.bytes = request := by
  rw [Invariant, hm] at h
  obtain ⟨⟨disk, hd, _, u, hu, hs, pending, hp, hb⟩, _⟩ := h
  cases hu
  obtain ⟨bytes, hr, hx⟩ := exists_restore hd
  exact ⟨bytes, u, pending, hr, hx, hs, hp, hb⟩

theorem Invariant.moves (h : p.Invariant prepared ttl trace)
    (hs : Step prepared.uploadIdentity p events p') :
    p'.stage prepared.uploadIdentity = p.stage prepared.uploadIdentity ∨
    (p.stage prepared.uploadIdentity).Follows prepared.encrypted.chunks.length
      (p'.stage prepared.uploadIdentity) ∧
      ∃ bytes u pending trace' response, p.durable = some bytes ∧
        BlobUploader.restore bytes prepared.uploadIdentity = .ok u ∧ u.pending = some pending ∧
        trace = trace' ++ [(p.stage prepared.uploadIdentity,
          ⟨.exchange pending.bytes, .ok response⟩)] ∧
        pending.Confirmed (p.stage prepared.uploadIdentity) response := by
  rcases hs.durable_cases with hd | ⟨stage, state, next, hm, hd⟩
  · left
    simp only [Process.stage, hd]
  · rw [Invariant, hm] at h
    obtain ⟨⟨disk, hk, _, u, hu, hv⟩, _⟩ := h
    rw [stage_eq (hd ▸ hu), stage_eq hk]
    refine hv.imp_right fun ⟨hf, v, hv, pending, hp, trace', response, ht, hc⟩ => ⟨hf, ?_⟩
    cases hv
    obtain ⟨bytes, hr, hx⟩ := exists_restore hk
    exact ⟨bytes, v, pending, trace', response, hr, hx, hp, ht, hc⟩

theorem Invariant.index_lt (h : p.Invariant prepared ttl trace)
    (hs : p.stage prepared.uploadIdentity = .chunk index) :
    index < prepared.encrypted.chunks.length := by
  obtain ⟨disk, hd, -⟩ := h.consistent
  rw [stage_eq hd] at hs
  obtain ⟨m, d⟩ := p
  cases hd
  case empty => cases hs
  case snapshot hv hb ht he => exact hb ▸ hv.stage index hs

theorem Invariant.complete (h : p.Invariant prepared ttl trace)
    (hs : p.stage prepared.uploadIdentity = .complete) :
    ∃ expiresAt, Committed prepared trace expiresAt := by
  obtain ⟨disk, hd, hc⟩ := h.consistent
  exact hc.complete (stage_eq hd ▸ hs)

theorem Invariant.stage_of_idle (h : p.Invariant prepared ttl trace) (hm : p.memory = .idle u) :
    u.stage = p.stage prepared.uploadIdentity := by
  rw [Invariant, hm] at h
  obtain ⟨disk, hk, hi⟩ := h
  rw [stage_eq hk, hi.stage]

-- The uploader sends a frame only after it is durable, and then sends the same frame until the stage is
-- confirmed to be done.
theorem write_ahead [LawfulChaCha20Poly1305] (prepared : PreparedBlob) (hc : prepared.Constructed)
    (ttl : UInt64) (ht : ttl ≠ 0) (durable : Option Bytes)
    (hd : ∀ bytes ∈ durable, encodeUploadState (prepared.uploader ttl) = some bytes)
    (trace : Trace) (p : Process)
    (hr : Runs prepared.uploadIdentity ⟨.idle (prepared.uploader ttl), durable⟩ trace p) :
    let identity := prepared.uploadIdentity
    let count := prepared.encrypted.chunks.length
    (∀ bytes, p.durable = some bytes → ∃ u, BlobUploader.restore bytes identity = .ok u) ∧
    (∀ s request next, p.memory = .running s (.call (.exchange request) next) →
      ∃ bytes u pending, p.durable = some bytes ∧ BlobUploader.restore bytes identity = .ok u ∧
        u.stage = s ∧ u.pending = some pending ∧ pending.bytes = request) ∧
    (∀ s request request' response response', (s, ⟨.exchange request, response⟩) ∈ trace →
      (s, ⟨.exchange request', response'⟩) ∈ trace → request = request') ∧
    (∀ events p', Step identity p events p' →
      p'.stage identity = p.stage identity ∨
      (p.stage identity).Follows count (p'.stage identity) ∧
        ∃ bytes u pending trace' response, p.durable = some bytes ∧
          BlobUploader.restore bytes identity = .ok u ∧ u.pending = some pending ∧
          trace = trace' ++ [(p.stage identity, ⟨.exchange pending.bytes, .ok response⟩)] ∧
          pending.Confirmed (p.stage identity) response) ∧
    (∀ index, p.stage identity = .chunk index → index < count) ∧
    -- The uploader in memory is at the same stage, and never panics.
    (∀ u, p.memory = .idle u → u.stage = p.stage identity) ∧
    (∀ s, p.memory ≠ .running s (.done (.error .panic))) := by
  have h := hr.invariant (invariant_initial hc.valid ht hd)
  obtain ⟨disk, hk, hc⟩ := h.consistent
  refine ⟨fun bytes hb => ?_, fun _ _ _ hm => h.exchange hm, hc.same, fun _ _ hs => h.moves hs,
    fun _ hs => h.index_lt hs, fun _ hm => h.stage_of_idle hm, fun s hm => ?_⟩
  · obtain ⟨u, _, hu⟩ := restore_eq hk hb
    exact ⟨u, hu⟩
  · rw [Invariant, hm] at h
    obtain ⟨_, _, ⟨⟩⟩ := h

end Process
end Invariant

namespace Process

open Sample in
attribute [local instance] Toy.ed25519 Toy.seeds Toy.sha256 Toy.chaCha20Poly1305 Toy.hkdf
  Toy.lawfulCipher Toy.lawfulEd25519 Toy.lawfulSeeds in
-- The response to the first frame gets lost and the process crashes. Then it sends the frame again.
theorem frame_sent_again_after_crash :
    ∃ trace p s request next,
      Runs prepared.uploadIdentity ⟨.idle (prepared.uploader 1), none⟩ trace p ∧
      (∃ response, (s, ⟨.exchange request, response⟩) ∈ trace) ∧
      p.memory = .running s (.call (.exchange request) next) ∧
      ∃ bytes u pending, p.durable = some bytes ∧
        BlobUploader.restore bytes prepared.uploadIdentity = .ok u ∧ u.pending = some pending ∧
        pending.bytes = request := by
  obtain ⟨rng', hn⟩ := new_eq_ok
  have hc : prepared.Constructed := .new hn
  have hv : (prepared.uploader 1).Valid := ⟨hc.valid, by decide, nofun, nofun⟩
  obtain ⟨_, ⟨_, d⟩, hr, hw⟩ := runs_prepare (d := none) hv nofun rfl rfl (requestId 0)
  obtain ⟨next, rfl, _⟩ := hw.memory
  have hl := hr.step (.call (c := .exchange _) (.error .mk : Except TransportError Bytes))
  obtain ⟨_, p, hr', hw⟩ := hw.resend _
  have hr := hl.trans hr'
  obtain ⟨next, hm, _⟩ := hw.memory
  have h := write_ahead prepared hc 1 (by decide) none nofun _ _ hr
  obtain ⟨bytes, u, pending, hd, hb, _, hp, hf⟩ := h.right.left _ _ _ hm
  refine ⟨_, p, _, _, next, hr, ⟨(.error .mk : Except TransportError Bytes), ?_⟩, hm, bytes, u, pending,
    hd, hb, hp, hf⟩
  simp

end Process
end Cofferwire.Client.Blob
