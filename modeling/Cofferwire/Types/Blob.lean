import Cofferwire.Library.Except
import Cofferwire.Types.Queue

namespace Cofferwire

def maxBlobFrameBytes : Nat := 1049600
def minChunkBytes     : Nat := 32
def maxChunkBytes     : Nat := 1048576
def maxChunks         : Nat := 32768
def minPaddedBytes    : Nat := 64
def maxPaddedBytes    : Nat := 1073741824

structure UploadId where fromBytes ::
  asBytes : ByteVec 32
deriving DecidableEq, Repr

structure BlobId where fromBytes ::
  asBytes : ByteVec 32
deriving DecidableEq, Repr

-- An Ed25519 public key which authorizes one role of blob operations.
structure CapabilityId where fromBytes ::
  asBytes : ByteVec 32
deriving DecidableEq, Repr

inductive BlobTypeError
  | invalidManifest
  | limitOutOfRange
deriving DecidableEq, Repr

-- The hash function is not part of the sources.
class Sha256 where
  digest : Bytes → ByteVec 32

-- The bytes at positions `i` up to but excluding `j`.
def slice (bytes : Bytes) (i j : Nat) : Bytes :=
  (bytes.drop i).take (j - i)

theorem slice_length (hj : j ≤ bytes.length) : (slice bytes i j).length = j - i := by
  simp [slice]
  omega

-- The consecutive pieces of exactly `n` bytes.
def chunksExact (n : Nat) (bytes : Bytes) : List Bytes :=
  go (bytes.length / n) bytes
where
  go : Nat → Bytes → List Bytes
    | 0,         _     => []
    | count + 1, bytes => bytes.take n :: go count (bytes.drop n)

def isPowerOfTwo (n : Nat) : Bool :=
  n ≠ 0 ∧ n &&& (n - 1) = 0

namespace BlobManifest

-- The contents of a manifest. Only those which come out of `parse` make up a manifest.
structure Raw where
  bytes      : Bytes
  objectSalt : ByteVec 16
  paddedSize : UInt64
  chunkSize  : UInt32
  digests    : List (ByteVec 32)
deriving DecidableEq, Repr

-- "CWB1"
def magic : Bytes := [67, 87, 66, 49]

def limitsValid (paddedSize : UInt64) (chunkSize chunkCount : UInt32) : Bool :=
  minChunkBytes ≤ chunkSize.toNat ∧ chunkSize.toNat ≤ maxChunkBytes ∧
  isPowerOfTwo chunkSize.toNat ∧
  minPaddedBytes ≤ paddedSize.toNat ∧ paddedSize.toNat ≤ maxPaddedBytes ∧
  isPowerOfTwo paddedSize.toNat ∧
  paddedSize % chunkSize.toUInt64 = 0 ∧
  chunkCount.toNat > 0 ∧
  chunkCount.toNat ≤ maxChunks ∧
  paddedSize / chunkSize.toUInt64 = chunkCount.toUInt64

-- The header takes 40 of the at least 72 bytes. So all of its fields exist.
def Raw.parse (bytes : Bytes) : Except BlobTypeError Raw :=
  if h : bytes.length < 72 ∨ slice bytes 0 4 ≠ magic then
    .error .invalidManifest
  else
    have h : 72 ≤ bytes.length := by omega
    let profile := BigEndian.decode (slice bytes 4 6)
    let suite := BigEndian.decode (slice bytes 6 8)
    if profile ≠ 1 ∨ suite ≠ 1 then
      .error .invalidManifest
    else
      let objectSalt := ⟨slice bytes 8 24, slice_length (by omega)⟩
      let paddedSize := .ofNat (BigEndian.decode (slice bytes 24 32))
      let chunkSize := .ofNat (BigEndian.decode (slice bytes 32 36))
      let chunkCount := .ofNat (BigEndian.decode (slice bytes 36 40))
      if ¬limitsValid paddedSize chunkSize chunkCount then
        .error .limitOutOfRange
      else if bytes.length ≠ 40 + chunkCount.toNat * 32 then
        .error .invalidManifest
      else do
        let digests ← (chunksExact 32 (bytes.drop 40)).mapM fun digest =>
          (ByteVec.tryFrom 32 digest).elim (.error .invalidManifest) .ok
        return { bytes, objectSalt, paddedSize, chunkSize, digests }

-- The bytes which denote the contents.
def Raw.encode (raw : Raw) : Bytes :=
  magic ++
  BigEndian.encode 2 1 ++
  BigEndian.encode 2 1 ++
  raw.objectSalt.toBytes ++
  BigEndian.encode 8 raw.paddedSize.toNat ++
  BigEndian.encode 4 raw.chunkSize.toNat ++
  BigEndian.encode 4 raw.digests.length ++
  raw.digests.flatMap ByteVec.toBytes

theorem eq_append_iff {l a b : List α} :
    l = a ++ b ↔ l.take a.length = a ∧ l.drop a.length = b where
  mp := by
    rintro rfl
    exact ⟨List.take_left, List.drop_left⟩
  mpr := by
    rintro ⟨ha, hb⟩
    rw [←List.take_append_drop a.length l, ha, hb]

theorem Raw.eq_encode_iff {raw : Raw} :
    bs = raw.encode ↔
      slice bs 0 4 = magic ∧
      slice bs 4 6 = BigEndian.encode 2 1 ∧
      slice bs 6 8 = BigEndian.encode 2 1 ∧
      slice bs 8 24 = raw.objectSalt.toBytes ∧
      slice bs 24 32 = BigEndian.encode 8 raw.paddedSize.toNat ∧
      slice bs 32 36 = BigEndian.encode 4 raw.chunkSize.toNat ∧
      slice bs 36 40 = BigEndian.encode 4 raw.digests.length ∧
      bs.drop 40 = raw.digests.flatMap ByteVec.toBytes := by
  have hm : magic.length = 4 := rfl
  simp only [encode, List.append_assoc, eq_append_iff, BigEndian.encode_length, hm,
    raw.objectSalt.size, List.drop_drop, slice, List.drop_zero]

theorem Raw.encode_length {raw : Raw} : raw.encode.length = 40 + raw.digests.length * 32 := by
  have hm : magic.length = 4 := rfl
  have hd : (raw.digests.flatMap ByteVec.toBytes).length = raw.digests.length * 32 := by
    rw [List.length_flatMap, List.map_congr_left (g := fun _ => 32) fun d _ => d.size]
    simp
  simp only [encode, List.length_append, BigEndian.encode_length, raw.objectSalt.size, hm, hd]

theorem mapM_chunksExact_eq_ok {ds : List (ByteVec n)} (hl : bs.length = count * n) :
    (chunksExact.go n count bs).mapM (fun digest =>
      (ByteVec.tryFrom n digest).elim (Except.error e) .ok) = .ok ds ↔
      bs = ds.flatMap ByteVec.toBytes ∧ ds.length = count := by
  induction count generalizing bs ds
  case zero =>
    have : bs = [] := by simpa using hl
    subst this
    cases ds <;> simp [chunksExact.go, pure, Except.pure]
  case succ count hi =>
    have hd : (bs.drop n).length = count * n := by
      rw [List.length_drop, hl, Nat.succ_mul]
      omega
    have he {d : ByteVec n} : (ByteVec.tryFrom n (bs.take n)).elim (Except.error e) .ok = .ok d ↔
        d.toBytes = bs.take n := by
      rw [←ByteVec.tryFrom_eq_some]
      cases ByteVec.tryFrom n (bs.take n) <;> simp
    simp only [chunksExact.go, List.mapM_cons, Except.bind_eq_ok, hi hd, he]
    constructor
    case mp =>
      rintro ⟨d, ht, ds, ⟨hf, rfl⟩, ⟨⟩⟩
      simp [ht, ←hf]
    case mpr =>
      cases ds
      case nil => simp
      case cons d ds =>
        rintro ⟨rfl, hc⟩
        refine ⟨d, ?_, ds, ⟨?_, by simpa using hc⟩, rfl⟩ <;> simp [d.size]

-- A `u32` and a `u64` written in as many bytes as they have.
theorem ofNat_decode_eq_iff₄ {v : UInt32} (hl : bs.length = 4) :
    .ofNat (BigEndian.decode bs) = v ↔ bs = BigEndian.encode 4 v.toNat := by
  have := hl ▸ BigEndian.decode_lt bs
  rw [BigEndian.eq_encode_iff (by simpa using v.toNat_lt), ←UInt32.toNat_inj, UInt32.toNat_ofNat']
  omega

theorem ofNat_decode_eq_iff₈ {v : UInt64} (hl : bs.length = 8) :
    .ofNat (BigEndian.decode bs) = v ↔ bs = BigEndian.encode 8 v.toNat := by
  have := hl ▸ BigEndian.decode_lt bs
  rw [BigEndian.eq_encode_iff (by simpa using v.toNat_lt), ←UInt64.toNat_inj, UInt64.toNat_ofNat']
  omega

structure Raw.Valid (raw : Raw) : Prop where
  count_le : raw.digests.length ≤ maxChunks
  limits   : limitsValid raw.paddedSize raw.chunkSize (.ofNat raw.digests.length)

theorem Raw.Valid.count_pos {raw : Raw} (h : raw.Valid) : raw.digests.length > 0 := by
  have hc := h.count_le
  have hl := h.limits
  simp only [limitsValid, decide_eq_true_eq, maxChunks, UInt32.toNat_ofNat'] at hc hl
  omega

-- Exactly the encodings of valid contents parse.
theorem Raw.parse_eq_ok {raw : Raw} :
    parse bs = .ok raw ↔ raw.bytes = bs ∧ bs = raw.encode ∧ raw.Valid := by
  simp only [parse, Except.dite_error_eq_ok, Except.ite_error_eq_ok, Except.bind_eq_ok, not_or,
    not_not, Nat.not_lt, ne_eq, chunksExact]
  constructor
  case mp =>
    rintro ⟨⟨hl, hm⟩, ⟨hp, hs⟩, hv, hn, ds, hd, ⟨⟩⟩
    have h₂ : 1 < 256 ^ 2 := by decide
    have hc : slice bs 36 40 = BigEndian.encode 4 (UInt32.ofNat _).toNat :=
      ofNat_decode_eq_iff₄ (slice_length (by omega)) |>.mp rfl
    generalize UInt32.ofNat (BigEndian.decode (slice bs 36 40)) = count at hc hv hn
    obtain ⟨hd, hk⟩ := mapM_chunksExact_eq_ok (by rw [List.length_drop]; omega) |>.mp hd
    have hk : ds.length = count.toNat := by
      rw [hk, List.length_drop]
      omega
    have hf := BigEndian.eq_encode_iff h₂ |>.mpr ⟨slice_length (by omega), hp⟩
    have hu := BigEndian.eq_encode_iff h₂ |>.mpr ⟨slice_length (by omega), hs⟩
    refine ⟨rfl, eq_encode_iff.mpr ⟨hm, hf, hu, rfl, ?_, ?_, hk ▸ hc, hd⟩, ?_, ?_⟩
    · exact ofNat_decode_eq_iff₈ (slice_length (by omega)) |>.mp rfl
    · exact ofNat_decode_eq_iff₄ (slice_length (by omega)) |>.mp rfl
    · simp only [limitsValid, decide_eq_true_eq] at hv
      simp only [hk, hv]
    · simp only [hk, UInt32.ofNat_toNat, hv]
  case mpr =>
    rintro ⟨rfl, h, hv⟩
    have hl := encode_length ▸ congrArg List.length h
    have hp := hv.count_pos
    have hc : (UInt32.ofNat raw.digests.length).toNat = raw.digests.length := by
      have := hv.count_le
      simp only [UInt32.toNat_ofNat', maxChunks] at this ⊢
      omega
    obtain ⟨hm, hf, hu, hs, hb, hz, hn, hd⟩ := eq_encode_iff.mp h
    rw [←hc] at hn
    have hb := ofNat_decode_eq_iff₈ (slice_length (by omega)) |>.mpr hb
    have hz := ofNat_decode_eq_iff₄ (slice_length (by omega)) |>.mpr hz
    have hn := ofNat_decode_eq_iff₄ (slice_length (by omega)) |>.mpr hn
    simp only [hb, hz, hn, hf, hu]
    refine ⟨⟨by omega, hm⟩, by decide, hv.limits, by omega, raw.digests, ?_, ?_⟩
    · refine mapM_chunksExact_eq_ok ?_ |>.mpr ⟨hd, ?_⟩ <;> rw [List.length_drop] <;> omega
    · simp only [hs]
      rfl

end BlobManifest

-- A manifest is what `parse` accepts.
structure BlobManifest where
  raw    : BlobManifest.Raw
  parsed : BlobManifest.Raw.parse raw.bytes = .ok raw
deriving DecidableEq

namespace BlobManifest

def parse (bytes : Bytes) : Except BlobTypeError BlobManifest :=
  match h : Raw.parse bytes with
  | .ok raw  => .ok ⟨raw, Raw.parse_eq_ok.mp h |>.left ▸ h⟩
  | .error e => .error e

def asBytes (manifest : BlobManifest) : Bytes :=
  manifest.raw.bytes

def objectSalt (manifest : BlobManifest) : ByteVec 16 :=
  manifest.raw.objectSalt

def paddedSize (manifest : BlobManifest) : UInt64 :=
  manifest.raw.paddedSize

def chunkSize (manifest : BlobManifest) : UInt32 :=
  manifest.raw.chunkSize

def chunkCount (manifest : BlobManifest) : Nat :=
  manifest.raw.digests.length

def digest (manifest : BlobManifest) (index : Nat) : Option (ByteVec 32) :=
  manifest.raw.digests[index]?

theorem parse_eq_ok {manifest : BlobManifest} :
    parse bs = .ok manifest ↔ bs = manifest.asBytes where
  mp h := by
    unfold parse at h
    split at h <;> cases h
    case h_1 hr => exact Raw.parse_eq_ok.mp hr |>.left.symm
  mpr h := by
    subst h
    have hp : Raw.parse manifest.asBytes = _ := manifest.parsed
    unfold parse
    split <;> simp_all

-- The manifest with given contents.
def ofRaw (raw : Raw) (valid : raw.Valid) : BlobManifest where
  raw    := { raw with bytes := raw.encode }
  parsed := Raw.parse_eq_ok.mpr ⟨rfl, rfl, ⟨valid.count_le, valid.limits⟩⟩

theorem chunkCount_le (manifest : BlobManifest) : manifest.chunkCount ≤ maxChunks :=
  Raw.parse_eq_ok.mp manifest.parsed |>.right.right.count_le

theorem chunkSize_le (manifest : BlobManifest) : manifest.chunkSize.toNat ≤ maxChunkBytes := by
  have hl := Raw.parse_eq_ok.mp manifest.parsed |>.right.right.limits
  simp only [limitsValid, decide_eq_true_eq] at hl
  exact hl.right.left

theorem asBytes_length_le {manifest : BlobManifest} : manifest.asBytes.length ≤ 1048616 := by
  have ⟨_, he, _⟩ := Raw.parse_eq_ok.mp manifest.parsed
  have := manifest.chunkCount_le
  rw [asBytes, he, Raw.encode_length]
  rw [chunkCount, maxChunks] at this
  omega

end BlobManifest

inductive BlobCommand
  | beginUpload
  | putChunk
  | commit
  | getManifest
  | getChunk
  | renew
  | delete
deriving DecidableEq, Repr

namespace BlobCommand

def asU8 : BlobCommand → UInt8
  | beginUpload => 1
  | putChunk    => 2
  | commit      => 3
  | getManifest => 4
  | getChunk    => 5
  | renew       => 6
  | delete      => 7

def tryFrom : UInt8 → Except BlobTypeError BlobCommand
  | 1 => .ok beginUpload
  | 2 => .ok putChunk
  | 3 => .ok commit
  | 4 => .ok getManifest
  | 5 => .ok getChunk
  | 6 => .ok renew
  | 7 => .ok delete
  | _ => .error .invalidManifest

theorem tryFrom_eq_ok {c : BlobCommand} : tryFrom v = .ok c ↔ v = c.asU8 where
  mp h  := by unfold tryFrom at h; split at h <;> cases h <;> rfl
  mpr h := by cases c <;> subst h <;> rfl

theorem asU8_ne_zero {c : BlobCommand} : c.asU8.toUInt64 ≠ 0 := by
  cases c <;> decide

end BlobCommand

inductive BlobStatus
  | ok
  | unsupportedVersion
  | malformedFrame
  | frameTooLarge
  | unknownCommand
  | notFound
  | unauthorized
  | idConflict
  | limitOutOfRange
  | chunkConflict
  | incomplete
  | identityMismatch
  | expired
  | authInvalid
  | authReplay
deriving DecidableEq, Repr

namespace BlobStatus

def asU8 : BlobStatus → UInt8
  | ok                 => 0
  | unsupportedVersion => 1
  | malformedFrame     => 2
  | frameTooLarge      => 3
  | unknownCommand     => 4
  | notFound           => 5
  | unauthorized       => 6
  | idConflict         => 7
  | limitOutOfRange    => 8
  | chunkConflict      => 9
  | incomplete         => 10
  | identityMismatch   => 11
  | expired            => 12
  | authInvalid        => 13
  | authReplay         => 14

def isOk : BlobStatus → Bool
  | ok => true
  | _  => false

def tryFrom : UInt8 → Except BlobTypeError BlobStatus
  | 0  => .ok ok
  | 1  => .ok unsupportedVersion
  | 2  => .ok malformedFrame
  | 3  => .ok frameTooLarge
  | 4  => .ok unknownCommand
  | 5  => .ok notFound
  | 6  => .ok unauthorized
  | 7  => .ok idConflict
  | 8  => .ok limitOutOfRange
  | 9  => .ok chunkConflict
  | 10 => .ok incomplete
  | 11 => .ok identityMismatch
  | 12 => .ok expired
  | 13 => .ok authInvalid
  | 14 => .ok authReplay
  | _  => .error .invalidManifest

theorem tryFrom_eq_ok {s : BlobStatus} : tryFrom v = .ok s ↔ v = s.asU8 where
  mp h  := by unfold tryFrom at h; split at h <;> cases h <;> rfl
  mpr h := by cases s <;> subst h <;> rfl

theorem isOk_iff {s : BlobStatus} : s.isOk ↔ s = ok := by
  cases s <;> simp [isOk]

end BlobStatus

structure BlobCapabilities where
  upload   : CapabilityId
  download : CapabilityId
  renew    : CapabilityId
  delete   : CapabilityId
deriving DecidableEq, Repr

inductive BlobRequest
  | beginUpload (uploadId : UploadId) (capabilities : BlobCapabilities) (manifest : BlobManifest)
    (ttl : UInt64)
  | putChunk (uploadId : UploadId) (uploadCap : CapabilityId) (index : UInt32) (ciphertext : Bytes)
  | commit (uploadId : UploadId) (uploadCap : CapabilityId) (blobId : BlobId)
  | getManifest (blobId : BlobId) (downloadCap : CapabilityId)
  | getChunk (blobId : BlobId) (downloadCap : CapabilityId) (index : UInt32)
  | renew (blobId : BlobId) (renewCap : CapabilityId) (ttl : UInt64)
  | delete (blobId : BlobId) (deleteCap : CapabilityId)
deriving DecidableEq

namespace BlobRequest

def command : BlobRequest → BlobCommand
  | beginUpload .. => .beginUpload
  | putChunk ..    => .putChunk
  | commit ..      => .commit
  | getManifest .. => .getManifest
  | getChunk ..    => .getChunk
  | renew ..       => .renew
  | delete ..      => .delete

-- The capability which the request's proof is verified with.
def capability : BlobRequest → CapabilityId
  | beginUpload _ capabilities _ _                       => capabilities.upload
  | putChunk _ uploadCap _ _ | commit _ uploadCap _      => uploadCap
  | getManifest _ downloadCap | getChunk _ downloadCap _ => downloadCap
  | renew _ renewCap _                                   => renewCap
  | delete _ deleteCap                                   => deleteCap

end BlobRequest

structure BlobRequestFrame where
  requestId : RequestId
  request   : BlobRequest
  auth      : Auth
deriving DecidableEq

inductive BlobWriteOutcome
  | stored
  | duplicate
deriving DecidableEq, Repr

namespace BlobWriteOutcome

def asU8 : BlobWriteOutcome → UInt8
  | stored    => 0
  | duplicate => 1

def tryFrom : UInt8 → Except BlobTypeError BlobWriteOutcome
  | 0 => .ok stored
  | 1 => .ok duplicate
  | _ => .error .invalidManifest

theorem tryFrom_eq_ok {o : BlobWriteOutcome} : tryFrom v = .ok o ↔ v = o.asU8 where
  mp h  := by unfold tryFrom at h; split at h <;> cases h <;> rfl
  mpr h := by cases o <;> subst h <;> rfl

end BlobWriteOutcome

inductive BlobResponseBody
  | beginUpload (outcome : BlobWriteOutcome)
  | putChunk (outcome : BlobWriteOutcome)
  | commit (expiresAt : UInt64)
  | getManifest (manifest : BlobManifest) (expiresAt : UInt64)
  | getChunk (ciphertext : Bytes) (expiresAt : UInt64)
  | renew (expiresAt : UInt64)
  | delete
deriving DecidableEq

-- The fields do not depend on each other. So not every value is a sensible response.
structure BlobResponse where
  command : Option BlobCommand
  status  : BlobStatus
  body    : Option BlobResponseBody
deriving DecidableEq

structure BlobResponseFrame where
  requestId : RequestId
  response  : BlobResponse
deriving DecidableEq

end Cofferwire
