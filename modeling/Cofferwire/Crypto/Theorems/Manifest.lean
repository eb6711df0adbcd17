import Cofferwire.Crypto.Theorems.Padding
import Cofferwire.Strict.Theorems.Codec

namespace Cofferwire.BlobManifest

-- The bytes which denote a manifest with the given fields.
structure Denotes (bs : Bytes) (salt : ByteVec 16) (size : UInt64) (chunk : UInt32)
    (digests : List (ByteVec 32)) : Prop where
  bytes       : bs = magic ++ BigEndian.encode 2 1 ++ BigEndian.encode 2 1 ++ salt.toBytes ++
    BigEndian.encode 8 size.toNat ++ BigEndian.encode 4 chunk.toNat ++
    BigEndian.encode 4 digests.length ++ digests.flatMap ByteVec.toBytes
  chunk_valid : (∃ i, chunk.toNat = 2 ^ i) ∧ 32 ≤ chunk.toNat ∧ chunk.toNat ≤ 2 ^ 20
  size_valid  : (∃ j, size.toNat = 2 ^ j) ∧ 64 ≤ size.toNat ∧ size.toNat ≤ 2 ^ 30
  count_eq    : digests.length = size.toNat / chunk.toNat
  count_valid : 1 ≤ digests.length ∧ digests.length ≤ 32768

-- A power of two divides each larger one, so the remainder needs no condition of its own.
theorem limitsValid_iff (hn : n ≤ maxChunks) :
    limitsValid size chunk (.ofNat n) ↔
      ((∃ i, chunk.toNat = 2 ^ i) ∧ 32 ≤ chunk.toNat ∧ chunk.toNat ≤ 2 ^ 20) ∧
      ((∃ j, size.toNat = 2 ^ j) ∧ 64 ≤ size.toNat ∧ size.toNat ≤ 2 ^ 30) ∧
      n = size.toNat / chunk.toNat ∧ 1 ≤ n := by
  have hc : (UInt32.ofNat n).toNat = n := by
    rw [maxChunks] at hn
    rw [UInt32.toNat_ofNat', Nat.mod_eq_of_lt (by omega)]
  simp only [limitsValid, decide_eq_true_eq, isPowerOfTwo_iff, ←UInt64.toNat_inj, UInt64.toNat_mod,
    UInt64.toNat_div, UInt32.toNat_toUInt64, UInt64.toNat_zero, hc]
  constructor
  case mp =>
    rintro ⟨hl, hg, hp, hl', hg', hp', -, hz, -, he⟩
    exact ⟨⟨hp, hl, hg⟩, ⟨hp', hl', hg'⟩, he.symm, hz⟩
  case mpr =>
    rintro ⟨⟨hp, hl, hg⟩, ⟨hp', hl', hg'⟩, he, hz⟩
    refine ⟨hl, hg, hp, hl', hg', hp', ?_, hz, hn, he.symm⟩
    have hd : chunk.toNat ≤ size.toNat := by
      by_contra hd
      rw [Nat.div_eq_of_lt (Nat.not_le.mp hd)] at he
      omega
    obtain ⟨⟨i, hi⟩, j, hj⟩ := And.intro hp hp'
    rw [hi, hj] at hd ⊢
    have hle : i ≤ j := (Nat.pow_le_pow_iff_right Nat.one_lt_two).mp hd
    exact Nat.mod_eq_zero_of_dvd (Nat.pow_dvd_pow 2 hle)

theorem denotes_iff {raw : Raw} :
    Denotes bs raw.objectSalt raw.paddedSize raw.chunkSize raw.digests ↔
      bs = raw.encode ∧ raw.Valid where
  mp h := by
    have hn : raw.digests.length ≤ maxChunks := h.count_valid.right
    have hl := (limitsValid_iff hn).mpr ⟨h.chunk_valid, h.size_valid, h.count_eq, h.count_valid.left⟩
    exact ⟨h.bytes, hn, hl⟩
  mpr h := by
    have hn := h.right.count_le
    have ⟨hc, hp, he, hz⟩ := (limitsValid_iff hn).mp h.right.limits
    exact ⟨h.left, hc, hp, he, hz, hn⟩

theorem parse_eq_ok_iff_denotes {manifest : BlobManifest} :
    parse bs = .ok manifest ↔
      manifest.asBytes = bs ∧
      Denotes bs manifest.objectSalt manifest.paddedSize manifest.chunkSize manifest.raw.digests where
  mp h := by
    have hb := parse_eq_ok.mp h
    have ⟨_, he, hv⟩ := Raw.parse_eq_ok.mp manifest.parsed
    exact ⟨hb.symm, denotes_iff.mpr ⟨hb.trans he, hv⟩⟩
  mpr h := parse_eq_ok.mpr h.left.symm

theorem Denotes.parse (h : Denotes bs salt size chunk digests) :
    ∃ manifest, BlobManifest.parse bs = .ok manifest ∧ manifest.objectSalt = salt ∧
      manifest.paddedSize = size ∧ manifest.chunkSize = chunk ∧ manifest.raw.digests = digests := by
  let raw : Raw := ⟨bs, salt, size, chunk, digests⟩
  have ⟨he, hv⟩ : bs = raw.encode ∧ raw.Valid := denotes_iff.mp h
  exact ⟨ofRaw raw hv, parse_eq_ok.mpr he, rfl, rfl, rfl, rfl⟩

-- The fields make up the manifest's bytes in the same way when it is made.
theorem Denotes.makeManifest (h : Denotes bs salt size chunk digests)
    (hp : BlobManifest.parse bs = .ok manifest) :
    Crypto.makeManifest salt size chunk digests = .ok manifest := by
  have hl := h.count_valid.right
  have hn : (UInt32.ofNat digests.length).toNat = digests.length := by
    rw [UInt32.toNat_ofNat', Nat.mod_eq_of_lt (by omega)]
  rw [Crypto.makeManifest, u32TryFrom_eq_some.mpr hn.symm]
  simp only [hn]
  rw [←h.bytes, hp]
  rfl

theorem parse_accepts_grammar (bs : Bytes) :
    ((∃ manifest, parse bs = .ok manifest) ↔
      ∃ salt size chunk digests, Denotes bs salt size chunk digests) ∧
    (∀ salt size chunk digests, Denotes bs salt size chunk digests →
      ∃ manifest,
        parse bs = .ok manifest ∧
        manifest.objectSalt = salt ∧
        manifest.paddedSize = size ∧
        manifest.chunkSize = chunk ∧
        manifest.chunkCount = digests.length ∧
        (∀ i, manifest.digest i = digests[i]?) ∧
        manifest.asBytes = bs ∧
        Crypto.makeManifest salt size chunk digests = .ok manifest) ∧
    Checked.Agrees (Strict.Blob.parse bs) (parse bs) := by
  refine ⟨⟨?_, ?_⟩, ?_, Strict.Blob.parse_agrees bs⟩
  · rintro ⟨_, hp⟩
    exact ⟨_, _, _, _, (parse_eq_ok_iff_denotes.mp hp).right⟩
  · rintro ⟨_, _, _, _, h⟩
    have ⟨manifest, hp, _⟩ := h.parse
    exact ⟨manifest, hp⟩
  · intro salt size chunk digests h
    have ⟨manifest, hp, hs, hz, hc, hd⟩ := h.parse
    have hl : manifest.chunkCount = digests.length := congrArg List.length hd
    exact ⟨manifest, hp, hs, hz, hc, hl, fun i => congrArg (·[i]?) hd, (parse_eq_ok.mp hp).symm,
      h.makeManifest hp⟩

end Cofferwire.BlobManifest
