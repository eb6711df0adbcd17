import Cofferwire.Crypto.Theorems.Blob
import Cofferwire.Toy
import Mathlib.Order.Bounds.Basic

namespace Cofferwire

theorem isPowerOfTwo_iff : isPowerOfTwo n ↔ ∃ k, n = 2 ^ k := by
  simp only [isPowerOfTwo, decide_eq_true_eq]
  exact Nat.ne_zero_and_sub_one_eq_zero_iff_isPowerOfTwo

-- Encryption does not fail on data of the size of a chunk.
class TotalChaCha20Poly1305 [ChaCha20Poly1305] : Prop where
  encrypt_isSome (key : ByteVec 32) (nonce : ByteVec 12) (aad : Bytes) (plaintext : Bytes) :
    plaintext.length ≤ maxChunkBytes → (ChaCha20Poly1305.encrypt key nonce aad plaintext).isSome

namespace Crypto

-- The powers of two which have room for a plaintext with its length and for a whole chunk.
def Rooms (plaintext : Bytes) (chunkSize : UInt32) : Set Nat :=
  {size | (∃ k, size = 2 ^ k) ∧ 64 ≤ size ∧ chunkSize.toNat ≤ size ∧ plaintext.length + 8 ≤ size}

-- What can be sealed in chunks of a given size.
structure Sealable (plaintext : Bytes) (chunkSize : UInt32) (size : Nat) : Prop where
  power   : ∃ k, chunkSize.toNat = 2 ^ k
  le      : 32 ≤ chunkSize.toNat
  ge      : chunkSize.toNat ≤ 2 ^ 20
  bounded : plaintext.length + 8 ≤ 2 ^ 30
  count   : size / chunkSize.toNat ≤ 32768

section Size

variable {plaintext : Bytes} {chunkSize : UInt32}

-- The size which `paddedSize` computes.
theorem rooms_isLeast (h : ∃ k, chunkSize.toNat = 2 ^ k) :
    IsLeast (Rooms plaintext chunkSize)
      (max (nextPowerOfTwo (max (plaintext.length + 8) minPaddedBytes)) chunkSize.toNat) := by
  have hn : max (plaintext.length + 8) minPaddedBytes ≤ nextPowerOfTwo _ := le_nextPowerOfTwo
  have hm : minPaddedBytes = 64 := rfl
  constructor
  case left =>
    refine ⟨?_, by omega, by omega, by omega⟩
    rcases max_choice (nextPowerOfTwo (max (plaintext.length + 8) minPaddedBytes)) chunkSize.toNat
      with hc | hc
    · exact ⟨_, hc⟩
    · rw [hc]
      exact h
  case right =>
    rintro _ ⟨⟨k, rfl⟩, hs, hc, hp⟩
    refine max_le ?_ hc
    exact Nat.pow_le_pow_right Nat.two_pos (Nat.clog_le_of_le_pow (max_le hp hs))

variable (hs : IsLeast (Rooms plaintext chunkSize) size)
include hs

theorem Sealable.le_max (h : Sealable plaintext chunkSize size) : size ≤ maxPaddedBytes := by
  refine hs.right ⟨⟨30, rfl⟩, by decide, ?_, h.bounded⟩
  exact h.ge.trans (by decide)

theorem dvd_of_isLeast (h : ∃ k, chunkSize.toNat = 2 ^ k) : chunkSize.toNat ∣ size := by
  obtain ⟨⟨k, rfl⟩, _, hc, _⟩ := hs.left
  obtain ⟨j, hj⟩ := h
  rw [hj] at hc ⊢
  exact Nat.pow_dvd_pow 2 ((Nat.pow_le_pow_iff_right Nat.one_lt_two).mp hc)

theorem paddedSize_eq_ok_iff :
    paddedSize plaintext chunkSize = .ok n ↔ n = size ∧ Sealable plaintext chunkSize size := by
  have hc : (32 ≤ chunkSize ∧ chunkSize ≤ 1048576) ↔ 32 ≤ chunkSize.toNat ∧ chunkSize.toNat ≤ 2 ^ 20 := by
    simp only [UInt32.le_iff_toNat_le]
    exact Iff.rfl
  simp only [paddedSize, Except.ite_error_eq_ok, not_or, not_not, hc, isPowerOfTwo_iff, Nat.not_lt]
  constructor
  case mp =>
    rintro ⟨⟨⟨hl, hg⟩, hp⟩, hb, ⟨_, _, hn⟩, h⟩
    cases h
    obtain rfl := hs.unique (rooms_isLeast hp)
    exact ⟨rfl, hp, hl, hg, hb, hn⟩
  case mpr =>
    rintro ⟨rfl, h⟩
    obtain rfl := hs.unique (rooms_isLeast h.power)
    have hd := Nat.mod_eq_zero_of_dvd (dvd_of_isLeast hs h.power)
    exact ⟨⟨⟨h.le, h.ge⟩, h.power⟩, h.bounded, ⟨h.le_max hs, hd, h.count⟩, rfl⟩

theorem Sealable.limitsValid (h : Sealable plaintext chunkSize size) (hn : n = size / chunkSize.toNat) :
    BlobManifest.limitsValid (.ofNat size) chunkSize (.ofNat n) := by
  have hp : isPowerOfTwo chunkSize.toNat := isPowerOfTwo_iff.mpr h.power
  have hz : isPowerOfTwo size := isPowerOfTwo_iff.mpr hs.left.left
  have hd := dvd_of_isLeast hs h.power
  have hm := h.le_max hs
  have h64 := hs.left.right.left
  have hc := hs.left.right.right.left
  have hl := h.le
  have hg := h.ge
  have hk := h.count
  have hsize : (UInt64.ofNat size).toNat = size := by
    rw [UInt64.toNat_ofNat', Nat.mod_eq_of_lt]
    exact Nat.lt_of_le_of_lt hm (by decide)
  have hcount : (UInt32.ofNat n).toNat = n := by
    rw [UInt32.toNat_ofNat', Nat.mod_eq_of_lt]
    omega
  have hpos : 0 < n := hn ▸ Nat.div_pos hc (by omega)
  simp only [BlobManifest.limitsValid, decide_eq_true_eq, hsize, hcount, ←UInt64.toNat_inj,
    UInt64.toNat_mod, UInt64.toNat_div, UInt32.toNat_toUInt64, UInt64.toNat_zero]
  exact ⟨hl, hg, hp, h64, hm, hz, Nat.mod_eq_zero_of_dvd hd, hpos, hn ▸ hk, hn.symm⟩

theorem Sealable.makeManifest (h : Sealable plaintext chunkSize size) (salt : ByteVec 16)
    {digests : List (ByteVec 32)} (hn : digests.length = size / chunkSize.toNat) :
    ∃ manifest, makeManifest salt (.ofNat size) chunkSize digests = .ok manifest := by
  have hk := h.count
  have hc : u32TryFrom digests.length = some (.ofNat digests.length) := if_pos (by omega)
  have hd : (UInt32.ofNat digests.length).toNat = digests.length :=
    (u32TryFrom_eq_some.mp hc).symm
  have hr : (BlobManifest.Raw.mk [] salt (.ofNat size) chunkSize digests).Valid :=
    ⟨hn ▸ hk, h.limitsValid hs hn⟩
  refine ⟨.ofRaw _ hr, ?_⟩
  simp only [Crypto.makeManifest, hc]
  refine Except.mapError_eq_ok.mpr (BlobManifest.parse_eq_ok.mpr ?_)
  rw [hd]
  rfl

end Size

section Seal

variable [ChaCha20Poly1305] [TotalChaCha20Poly1305]

theorem exists_sealChunk (hi : index < 2 ^ 32) (hl : plain.length ≤ maxChunkBytes) :
    ∃ chunk, sealChunk key salt size chunkSize count (plain, index) = .ok chunk := by
  have hu : u32TryFrom index = some (.ofNat index) := if_pos hi
  have he := TotalChaCha20Poly1305.encrypt_isSome key (nonce index)
    (aad salt size chunkSize count (.ofNat index)) plain hl
  obtain ⟨chunk, he⟩ := Option.isSome_iff_exists.mp he
  exact ⟨chunk, by simp only [sealChunk, hu, he]⟩

theorem exists_mapM_sealChunk (key : ByteVec 32) (salt : ByteVec 16) (size : UInt64)
    (count : UInt32) {stream : Bytes} (hd : chunkSize.toNat ∣ stream.length)
    (hl : chunkSize.toNat ≤ maxChunkBytes) (hn : stream.length / chunkSize.toNat ≤ maxChunks) :
    ∃ chunks, (chunksExact chunkSize.toNat stream).zipIdx.mapM
        (sealChunk key salt size chunkSize count) = .ok chunks ∧
      chunks.length = stream.length / chunkSize.toNat := by
  have hc : (chunksExact chunkSize.toNat stream).length = stream.length / chunkSize.toNat :=
    chunksExact.go_length
  have hm : ∀ a ∈ (chunksExact chunkSize.toNat stream).zipIdx,
      ∃ chunk, sealChunk key salt size chunkSize count a = .ok chunk := by
    rintro ⟨plain, index⟩ hm
    obtain ⟨_, hi, hp⟩ := List.mem_zipIdx hm
    refine exists_sealChunk ?_ ?_
    · rw [hc, Nat.zero_add] at hi
      exact Nat.lt_of_lt_of_le hi (hn.trans (by decide))
    · rw [hp, length_of_mem_chunksExact hd (List.getElem_mem _)]
      exact hl
  obtain ⟨chunks, hx⟩ := Except.exists_mapM_eq_ok hm
  refine ⟨chunks, hx, ?_⟩
  rw [←(Except.mapM_eq_ok.mp hx).length_eq, List.length_zipIdx, hc]

variable [Sha256] [Hkdf] {plaintext : Bytes} {chunkSize : UInt32}

theorem Sealable.sealBlob (hs : IsLeast (Rooms plaintext chunkSize) size)
    (h : Sealable plaintext chunkSize size) (rng : Rng) :
    ∃ blob rng', sealBlob plaintext chunkSize rng = .ok (blob, rng') := by
  have hp : paddedSize plaintext chunkSize = .ok size := (paddedSize_eq_ok_iff hs).mpr ⟨rfl, h⟩
  have hr := hs.left.right.right.right
  have hk := h.count
  have hu : u32TryFrom (size / chunkSize.toNat) = some (.ofNat (size / chunkSize.toNat)) :=
    if_pos (by omega)
  simp only [Crypto.sealBlob, hp, bind, Except.bind, hu]
  generalize (ObjectKey.generate rng).fst = key
  generalize (ObjectKey.generate rng).snd = rng
  generalize (rng.fillBytes 16).fst = salt
  generalize (rng.fillBytes 16).snd = rng
  generalize (rng.fillBytes _).snd = rng'
  generalize (rng.fillBytes _).fst = padding
  generalize hstream : _ ++ padding.toBytes = stream
  have hl : stream.length = size := by
    rw [←hstream, List.length_append, List.length_append, BigEndian.encode_length, padding.size]
    omega
  obtain ⟨chunks, hm, hn⟩ := exists_mapM_sealChunk (deriveKey key salt) salt (.ofNat size)
    (.ofNat (size / chunkSize.toNat)) (hl ▸ dvd_of_isLeast hs h.power) h.ge (hl ▸ h.count)
  have hd : (chunks.map Sha256.digest).length = size / chunkSize.toNat := by
    rw [List.length_map, hn, hl]
  obtain ⟨manifest, hf⟩ := h.makeManifest hs salt hd
  simp only [hm, hf]
  exact ⟨_, _, rfl⟩

-- Sealing succeeds exactly within the limits, pads as little as possible, and is undone by opening.
theorem seal_open_round_trip [LawfulChaCha20Poly1305] (plaintext : Bytes) (chunkSize : UInt32)
    (rng : Rng) (size : Nat) (hs : IsLeast (Rooms plaintext chunkSize) size) :
    ((∃ blob rng', sealBlob plaintext chunkSize rng = .ok (blob, rng')) ↔
      Sealable plaintext chunkSize size) ∧
    (∀ blob rng', sealBlob plaintext chunkSize rng = .ok (blob, rng') →
      blob.manifest.paddedSize.toNat = size ∧
      blob.manifest.chunkSize = chunkSize ∧
      blob.manifest.chunkCount = size / chunkSize.toNat ∧
      blob.chunks.length = size / chunkSize.toNat ∧
      (∀ chunk ∈ blob.chunks, chunk.length = chunkSize.toNat + 16) ∧
      openBlob blob.key blob.blobId blob.manifest blob.chunks = .ok plaintext) ∧
    (Sealable plaintext chunkSize size → ∀ salt digests, digests.length = size / chunkSize.toNat →
      ∃ manifest, makeManifest salt (.ofNat size) chunkSize digests = .ok manifest) := by
  refine ⟨⟨?_, fun h => h.sealBlob hs rng⟩, ?_, fun h salt digests hn => h.makeManifest hs salt hn⟩
  · rintro ⟨blob, rng', h⟩
    exact ((paddedSize_eq_ok_iff hs).mp (of_sealBlob_eq_ok h).right.left).right
  · intro blob rng' h
    obtain ⟨⟨stream, hb⟩, hp, hc⟩ := of_sealBlob_eq_ok h
    obtain ⟨hz, _⟩ := (paddedSize_eq_ok_iff hs).mp hp
    have hn : blob.manifest.chunkCount = size / chunkSize.toNat := by
      obtain ⟨_, _, hx⟩ := hb.chunks
      rw [BlobManifest.chunkCount, hb.digests, List.length_map, ←hx.length_eq, List.length_zipIdx,
        chunksExact, chunksExact.go_length, hb.size, hz, hc]
    have hl : blob.chunks.length = blob.manifest.chunkCount := by
      rw [BlobManifest.chunkCount, hb.digests, List.length_map]
    exact ⟨hz, hc, hn, hl.trans hn, fun chunk hm => hc ▸ hb.length_chunk hm, hb.openBlob_eq⟩

end Seal

-- A plaintext of 100 bytes takes up four chunks of 32 bytes.
namespace Chunked

attribute [local instance] Toy.chaCha20Poly1305 Toy.sha256 Toy.hkdf

theorem total : TotalChaCha20Poly1305 where
  encrypt_isSome _ _ _ _ _ := rfl

def rng : Rng := ⟨.ofNat⟩

def plaintext : Bytes := (List.range 100).map .ofNat

theorem rooms : IsLeast (Rooms plaintext 32) 128 := by
  refine ⟨⟨⟨7, rfl⟩, by decide, by decide, by decide⟩, ?_⟩
  rintro _ ⟨⟨k, rfl⟩, _, _, hl⟩
  have hk : 6 < k := (Nat.pow_lt_pow_iff_right (a := 2) (by decide)).mp (Nat.lt_of_lt_of_le (by decide) hl)
  exact Nat.pow_le_pow_right (n := 2) (by decide) hk

theorem sealable : Sealable plaintext 32 128 :=
  ⟨⟨5, rfl⟩, by decide, by decide, by decide, by decide⟩

attribute [local instance] total Toy.lawfulCipher in
theorem chunks_sealed_and_opened : ∃ blob rng', sealBlob plaintext 32 rng = .ok (blob, rng') ∧
    blob.manifest.paddedSize.toNat = 128 ∧ blob.manifest.chunkCount = 4 ∧ blob.chunks.length = 4 ∧
    openBlob blob.key blob.blobId blob.manifest blob.chunks = .ok plaintext := by
  obtain ⟨hi, hb, _⟩ := seal_open_round_trip plaintext 32 rng 128 rooms
  obtain ⟨blob, rng', hs⟩ := hi.mpr sealable
  obtain ⟨hz, _, hn, hl, _, ho⟩ := hb blob rng' hs
  exact ⟨blob, rng', hs, hz, hn, hl, ho⟩

end Chunked

end Crypto
end Cofferwire
