import Cofferwire.Client.Theorems.Upload

namespace Cofferwire.Client.Blob

open Codec.Blob (decodeBlobRequest decodeBlobRequest_eq_ok encodeBlobAuthenticatedRequest)
open Crypto
open Program (Runs)

theorem encodeStage_decodeStage {index : UInt32}
    (h : decodeStage tag index.toNat count = some stage) : encodeStage stage = some (tag, index) := by
  have h0 (hi : index.toNat = 0) : index = 0 := UInt32.toNat_inj.mp hi
  unfold decodeStage at h
  split at h
  case h_1 =>
    obtain ⟨hi, ⟨⟩⟩ := Option.ite_none_right_eq_some.mp h
    rw [h0 hi]
    rfl
  case h_2 =>
    obtain ⟨_, ⟨⟩⟩ := Option.ite_none_right_eq_some.mp h
    exact Option.map_eq_some_iff.mpr ⟨index, u32TryFrom_eq_some.mpr rfl, rfl⟩
  case h_3 =>
    obtain ⟨hi, ⟨⟩⟩ := Option.ite_none_right_eq_some.mp h
    rw [h0 hi]
    rfl
  case h_4 =>
    obtain ⟨hi, ⟨⟩⟩ := Option.ite_none_right_eq_some.mp h
    rw [h0 hi]
    rfl
  case h_5 => cases h

section Pending

variable [Ed25519] {u : BlobUploader}

-- A frame is a signed request of the stage at which the uploader is.
def BlobUploader.Presents (uploader : BlobUploader) (pending : Pending) : Prop :=
  ∃ request auth, uploader.request = .ok request ∧ pending.command = request.command ∧
    decodeBlobRequest pending.bytes = .ok ⟨⟨pending.requestId, request, auth⟩,
      encodeBlobAuthenticatedRequest pending.requestId request⟩ ∧
    verifyBlobRequest (capability uploader.blob.uploadKey)
      (encodeBlobAuthenticatedRequest pending.requestId request) auth = .ok ()

-- What has been checked of a pending frame.
theorem of_validatePending (h : validatePending u.blob u.ttl u.stage bytes = .ok pending) :
    pending.bytes = bytes ∧ u.Presents pending := by
  unfold validatePending at h
  split at h
  case h_1 => cases h
  case h_2 decoded hd =>
    dsimp only at h
    split at h
    case h_1 => cases h
    case h_2 hv =>
      split at h <;> cases h
      case isTrue hm =>
        have hr := matchesStage_iff.mp hm
        have ha := (decodeBlobRequest_eq_ok.mp hd).right.right
        obtain ⟨⟨requestId, request, auth⟩, authenticated⟩ := decoded
        dsimp only at ha hr hv
        subst ha
        refine ⟨rfl, request, auth, hr, rfl, hd, ?_⟩
        rwa [BlobUploader.capability_request hr] at hv

variable [Sha256] [ChaCha20Poly1305] [Hkdf]

theorem UploadState.Accepted.presents {state : UploadState} (h : state.Accepted u) :
    u.pending.elim [] Pending.bytes = state.pendingBytes ∧ ∀ pending ∈ u.pending, u.Presents pending := by
  have hp := h.pending
  rw [UploadState.pending, ←h.ttl] at hp
  split at hp
  case isTrue he =>
    rw [List.isEmpty_iff.mp he, ←Except.ok.inj hp]
    refine ⟨rfl, fun _ h => ?_⟩
    cases h
  case isFalse =>
    obtain ⟨pending, hv, hp⟩ := Except.map_eq_ok.mp hp
    rw [←hp]
    obtain ⟨hb, hv⟩ := of_validatePending hv
    refine ⟨hb, ?_⟩
    rintro _ ⟨⟩
    exact hv

end Pending

section Reachable

variable [Ed25519] [Ed25519Seeds] [Sha256] [ChaCha20Poly1305] [Hkdf]

-- The uploaders which a client gets from a new one, whatever the environment returns.
inductive BlobUploader.Reachable : BlobUploader → Prop
  | uploader (h : PreparedBlob.new plaintext chunkSize rng = .ok (prepared, rng')) (ht : t ≠ 0) :
    Reachable (prepared.uploader t)
  | ok (h : Reachable u) (hr : Runs u.advance events (.done (.ok (progress, u')))) : Reachable u'
  | error (h : Reachable u) (hr : Runs u.advance events (.done (.error (.error e u')))) : Reachable u'

variable {prepared : PreparedBlob} {u u' : BlobUploader}

-- Whatever a program does, its end is safe.
theorem Safe.runs (h : Safe prepared ttl stage p d trace) (hr : Runs p events (.done result)) :
    ∃ d' disk trace', Disk prepared ttl d' disk ∧ Settled prepared ttl disk trace' result := by
  induction events generalizing p d trace
  case nil =>
    cases hr
    obtain ⟨disk, hd, hs⟩ := h
    exact ⟨d, disk, trace, hd, hs⟩
  case cons hi =>
    cases hr
    case step hr => exact hi (h.right _) hr

theorem seeded_of_new [RetainedEd25519Seeds]
    (h : PreparedBlob.new plaintext chunkSize rng = .ok (prepared, rng')) : prepared.Seeded := by
  obtain ⟨⟨encrypted, rng⟩, _, h⟩ := Except.bind_eq_ok.mp h
  cases h
  constructor <;> simp only [RetainedEd25519Seeds.toSeed_fromSeed]

-- There is a disk and a history of calls with which the uploader is in step.
def Live (prepared : PreparedBlob) (ttl : UInt64) (u : BlobUploader) : Prop :=
  ∃ d disk trace, Disk prepared ttl d disk ∧ Idle prepared ttl u disk trace

theorem live_initial (hv : prepared.Valid) (ht : ttl ≠ 0) : Live prepared ttl (prepared.uploader ttl) :=
  have ⟨disk, hd, hi⟩ := Process.invariant_initial (d := none) hv ht nofun
  ⟨none, disk, [], hd, hi⟩

theorem Live.ok (h : Live prepared ttl u) (hr : Runs u.advance events (.done (.ok (progress, u')))) :
    Live prepared ttl u' := by
  obtain ⟨d, disk, trace, hd, hi⟩ := h
  obtain ⟨d', disk', trace', hd', hi', _⟩ := (advance_safe hd hi).runs hr
  exact ⟨d', disk', trace', hd', hi'⟩

theorem Live.error (h : Live prepared ttl u) (hr : Runs u.advance events (.done (.error (.error e u')))) :
    Live prepared ttl u' := by
  obtain ⟨d, disk, trace, hd, hi⟩ := h
  exact (advance_safe hd hi).runs hr

theorem BlobUploader.Reachable.valid [LawfulChaCha20Poly1305] [RetainedEd25519Seeds] (h : u.Reachable) :
    u.Valid ∧ u.blob.Seeded := by
  have ⟨prepared, hk, t, _, _, _, _, hi⟩ :
      ∃ prepared : PreparedBlob, prepared.Seeded ∧ ∃ t, Live prepared t u := by
    induction h
    case uploader h ht => exact ⟨_, seeded_of_new h, _, live_initial (PreparedBlob.Constructed.new h).valid ht⟩
    case ok hr hi =>
      obtain ⟨prepared, hk, t, h⟩ := hi
      exact ⟨prepared, hk, t, h.ok hr⟩
    case error hr hi =>
      obtain ⟨prepared, hk, t, h⟩ := hi
      exact ⟨prepared, hk, t, h.error hr⟩
  exact ⟨hi.valid, hi.blob ▸ hk⟩

-- The snapshot which is taken of a restored uploader is the one which it has been restored from.
theorem UploadState.Layout.encode [RetainedEd25519Seeds] {state : UploadState} (h : state.Layout bytes)
    (ha : state.Accepted u) : encodeUploadState u = some bytes := by
  obtain ⟨us, ds, rs, xs, index, count, m, chunks, pending, hu, hd, hr, hx, hi, hm, hc, hs, hp, rfl⟩ := h.word
  have hg := ha.stage
  rw [hi] at hg
  simp only [encodeUploadState, encodeStage_decodeStage hg, ha.presents.left, ha.blob, ha.ttl,
    UploadState.blob, hm, u32TryFrom_eq_some.mpr hc, hs, hp, hu, hd, hr, hx,
    RetainedEd25519Seeds.toSeed_fromSeed, bind, Option.bind, List.append_assoc]
  rfl

-- Snapshots of all uploaders can be restored, and nothing else can.
theorem snapshot_exact [LawfulEd25519] [LawfulChaCha20Poly1305] [RetainedEd25519Seeds] :
    (∀ u : BlobUploader, u.Reachable → ∃ bytes, encodeUploadState u = some bytes ∧
      BlobUploader.restore bytes u.blob.uploadIdentity = .ok u) ∧
    (∀ bytes identity (u : BlobUploader), BlobUploader.restore bytes identity = .ok u →
      encodeUploadState u = some bytes ∧ u.blob.uploadIdentity = identity ∧
      ∀ pending ∈ u.pending, u.Presents pending) := by
  constructor
  · intro u h
    obtain ⟨hv, hk⟩ := h.valid
    obtain ⟨bytes, he⟩ := exists_encode hv
    exact ⟨bytes, he, hk.restore_encode hv he⟩
  · intro bytes identity u h
    obtain ⟨hi, state, hl, ha⟩ := of_restore_eq_ok h
    exact ⟨hl.encode ha, hi, ha.presents.right⟩

-- If the transport fails, then the frame is kept.
theorem exists_advance_lost (hv : u.Valid) (hp : u.pending = none) (hs : u.stage ≠ .complete) :
    ∃ events u', Runs u.advance events (.done (.error (.error .transport u'))) ∧ u'.pending.isSome := by
  obtain ⟨request, hr⟩ := hv.exists_request hs
  obtain ⟨_, _, _, hx, hn, _⟩ := runs_advance hv hs hp hr ⟨.replicate 16 0⟩
  have hx := hx.call (.error .mk : Except TransportError Bytes)
  rw [hn] at hx
  exact ⟨_, _, hx, rfl⟩

end Reachable

open Sample in
attribute [local instance] Toy.ed25519 Toy.seeds Toy.sha256 Toy.chaCha20Poly1305 Toy.hkdf
  Toy.lawfulCipher Toy.lawfulEd25519 Toy.retainedSeeds in
-- The first frame of an upload is lost, and is found again in the snapshot.
theorem pending_frame_restored :
    ∃ u : BlobUploader, u.Reachable ∧ u.pending.isSome ∧
      ∃ bytes, encodeUploadState u = some bytes ∧
        BlobUploader.restore bytes u.blob.uploadIdentity = .ok u := by
  obtain ⟨rng', hn⟩ := new_eq_ok
  have hu : (prepared.uploader 1).Reachable := .uploader hn (by decide)
  obtain ⟨events, u, hr, hp⟩ := exists_advance_lost hu.valid.left rfl nofun
  have hu := hu.error hr
  exact ⟨u, hu, hp, snapshot_exact.left u hu⟩

end Cofferwire.Client.Blob
