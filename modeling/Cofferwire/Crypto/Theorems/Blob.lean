import Cofferwire.Crypto.Blob

namespace Cofferwire

theorem u32TryFrom_eq_some {v : UInt32} : u32TryFrom n = some v ↔ n = v.toNat where
  mp h := by
    obtain ⟨hn, ⟨⟩⟩ := Option.ite_none_right_eq_some.mp h
    rw [UInt32.toNat_ofNat', Nat.mod_eq_of_lt hn]
  mpr h := by
    have hv := v.toNat_lt
    simp [u32TryFrom, h, hv]

section Chunks

theorem chunksExact.go_length : (chunksExact.go n count bytes).length = count := by
  induction count generalizing bytes
  case zero          => rfl
  case succ count hi => rw [go, List.length_cons, hi]

theorem chunksExact.go_flatten (h : bytes.length = count * n) :
    (chunksExact.go n count bytes).flatten = bytes := by
  induction count generalizing bytes
  case zero =>
    rw [Nat.zero_mul] at h
    rw [List.eq_nil_of_length_eq_zero h]
    rfl
  case succ count hi =>
    have hd : (bytes.drop n).length = count * n := by
      rw [List.length_drop, h, Nat.succ_mul, Nat.add_sub_cancel]
    rw [go, List.flatten_cons, hi hd, List.take_append_drop]

theorem chunksExact.length_of_mem_go (h : bytes.length = count * n)
    (hm : chunk ∈ chunksExact.go n count bytes) : chunk.length = n := by
  induction count generalizing bytes
  case zero => cases hm
  case succ count hi =>
    rcases List.mem_cons.mp hm with rfl | hm
    · rw [List.length_take, h, Nat.succ_mul]
      omega
    · refine hi ?_ hm
      rw [List.length_drop, h, Nat.succ_mul, Nat.add_sub_cancel]

variable {bytes : Bytes} (h : n ∣ bytes.length)
include h

theorem chunksExact_flatten : (chunksExact n bytes).flatten = bytes :=
  chunksExact.go_flatten (Nat.div_mul_cancel h).symm

theorem length_of_mem_chunksExact (hm : chunk ∈ chunksExact n bytes) : chunk.length = n :=
  chunksExact.length_of_mem_go (Nat.div_mul_cancel h).symm hm

end Chunks

namespace BlobManifest

theorem flatMap_toBytes_inj {ds ds' : List (ByteVec n)} (hl : ds.length = ds'.length)
    (h : ds.flatMap ByteVec.toBytes = ds'.flatMap ByteVec.toBytes) : ds = ds' := by
  induction ds generalizing ds'
  case nil => exact (List.eq_nil_of_length_eq_zero hl.symm).symm
  case cons d ds hi =>
    cases ds'
    case nil => cases hl
    case cons d' ds' =>
      rw [List.flatMap_cons, List.flatMap_cons] at h
      obtain ⟨hd, h⟩ := List.append_inj h (d.size.trans d'.size.symm)
      rw [ByteVec.ext hd, hi (Nat.succ.inj hl) h]

-- The bytes of a manifest determine all of its contents.
theorem Raw.encode_inj {raw raw' : Raw} (h : raw.encode = raw'.encode) :
    raw.objectSalt = raw'.objectSalt ∧ raw.paddedSize = raw'.paddedSize ∧
      raw.chunkSize = raw'.chunkSize ∧ raw.digests = raw'.digests := by
  have hl : raw.digests.length = raw'.digests.length := by
    have := congrArg List.length h
    rw [encode_length, encode_length] at this
    omega
  obtain ⟨_, _, _, hs, hp, hc, _, hd⟩ := eq_encode_iff.mp h
  obtain ⟨_, _, _, hs', hp', hc', _, hd'⟩ := eq_encode_iff.mp (rfl : raw.encode = _)
  refine ⟨ByteVec.ext (hs'.symm.trans hs), ?_, ?_, flatMap_toBytes_inj hl (hd'.symm.trans hd)⟩
  · have := congrArg BigEndian.decode (hp'.symm.trans hp)
    rw [BigEndian.decode_encode raw.paddedSize.toNat_lt,
      BigEndian.decode_encode raw'.paddedSize.toNat_lt] at this
    exact UInt64.toNat_inj.mp this
  · have := congrArg BigEndian.decode (hc'.symm.trans hc)
    rw [BigEndian.decode_encode raw.chunkSize.toNat_lt,
      BigEndian.decode_encode raw'.chunkSize.toNat_lt] at this
    exact UInt32.toNat_inj.mp this

theorem encode_eq_asBytes (manifest : BlobManifest) : manifest.raw.encode = manifest.asBytes :=
  (Raw.parse_eq_ok.mp manifest.parsed).right.left.symm

theorem asBytes_inj {manifest manifest' : BlobManifest} (h : manifest.asBytes = manifest'.asBytes) :
    manifest = manifest' := by
  have hp := parse_eq_ok.mpr h
  exact Except.ok.inj ((parse_eq_ok.mpr rfl).symm.trans hp)

end BlobManifest

namespace Crypto

theorem of_makeManifest_eq_ok (h : makeManifest salt size chunkSize digests = .ok manifest) :
    manifest.objectSalt = salt ∧ manifest.paddedSize = size ∧ manifest.chunkSize = chunkSize ∧
      manifest.raw.digests = digests := by
  unfold makeManifest at h
  split at h
  case h_1 => cases h
  case h_2 count hc =>
    have hp := BlobManifest.parse_eq_ok.mp (Except.mapError_eq_ok.mp h)
    rw [←manifest.encode_eq_asBytes, ←u32TryFrom_eq_some.mp hc] at hp
    have hr : _ = (BlobManifest.Raw.mk [] salt size chunkSize digests).encode := hp.symm
    exact BlobManifest.Raw.encode_inj hr

theorem le_nextPowerOfTwo : n ≤ nextPowerOfTwo n :=
  Nat.le_pow_clog Nat.one_lt_two n

-- The stream consists of whole chunks and has enough room for the plaintext.
theorem of_paddedSize_eq_ok (h : paddedSize plaintext chunkSize = .ok size) :
    plaintext.length + 8 ≤ size ∧ size ≤ maxPaddedBytes ∧ chunkSize.toNat ∣ size := by
  obtain ⟨_, h⟩ := Except.ite_error_eq_ok.mp h
  obtain ⟨_, h⟩ := Except.ite_error_eq_ok.mp h
  obtain ⟨hm, h⟩ := Except.ite_error_eq_ok.mp h
  cases h
  simp only [not_or, Nat.not_lt, ne_eq, not_not] at hm
  refine ⟨?_, hm.left, Nat.dvd_of_mod_eq_zero hm.right.left⟩
  have := le_nextPowerOfTwo (n := max (plaintext.length + 8) minPaddedBytes)
  omega

section Blob

variable [ChaCha20Poly1305]

theorem length_of_sealChunk [LawfulChaCha20Poly1305]
    (h : sealChunk key salt size chunkSize count (plain, index) = .ok chunk) :
    chunk.length = plain.length + 16 := by
  dsimp only [sealChunk] at h
  split at h
  case h_1 => cases h
  case h_2 =>
    split at h <;> cases h
    case h_2 he => exact LawfulChaCha20Poly1305.encrypt_length he

variable [Sha256]

theorem openChunk_sealChunk [LawfulChaCha20Poly1305]
    (h : sealChunk key manifest.objectSalt manifest.paddedSize manifest.chunkSize count (plain, index) =
      .ok chunk)
    (hd : manifest.digest index = some (Sha256.digest chunk))
    (hl : plain.length = manifest.chunkSize.toNat) :
    openChunk key manifest count (chunk, index) = .ok plain := by
  dsimp only [sealChunk] at h
  dsimp only [openChunk]
  split at h
  case h_1 => cases h
  case h_2 i hi =>
    split at h <;> cases h
    case h_2 he =>
      simp only [hd, LawfulChaCha20Poly1305.decrypt_encrypt he, hl, ne_eq, not_true, if_false]

theorem of_openChunk_eq_ok (h : openChunk key manifest count (chunk, index) = .ok plain) :
    manifest.digest index = some (Sha256.digest chunk) :=
  not_not.mp (Except.ite_error_eq_ok.mp h).left

variable [Hkdf]

-- What is behind an object which has been sealed, up to the encryption of its chunks.
structure Sealed (plaintext : Bytes) (blob : EncryptedBlob) (stream : Bytes) : Prop where
  blobId  : blob.blobId = identify blob.manifest
  digests : blob.manifest.raw.digests = blob.chunks.map Sha256.digest
  size    : stream.length = blob.manifest.paddedSize.toNat
  whole   : blob.manifest.chunkSize.toNat ∣ stream.length
  padded  : ∃ padding, stream = BigEndian.encode 8 plaintext.length ++ (plaintext ++ padding)
  bounded : plaintext.length < 256 ^ 8
  chunks  : ∃ count, u32TryFrom blob.manifest.chunkCount = some count ∧
    List.Forall₂ (fun plain chunk =>
      sealChunk (deriveKey blob.key blob.manifest.objectSalt) blob.manifest.objectSalt
        blob.manifest.paddedSize blob.manifest.chunkSize count plain = .ok chunk)
      (chunksExact blob.manifest.chunkSize.toNat stream).zipIdx blob.chunks

theorem of_sealBlob_eq_ok (h : sealBlob plaintext chunkSize rng = .ok (blob, rng')) :
    (∃ stream, Sealed plaintext blob stream) ∧
      paddedSize plaintext chunkSize = .ok blob.manifest.paddedSize.toNat ∧
      blob.manifest.chunkSize = chunkSize := by
  obtain ⟨size, hs, h⟩ := Except.bind_eq_ok.mp h
  obtain ⟨hle, hm, hd⟩ := of_paddedSize_eq_ok hs
  dsimp only at h
  generalize (ObjectKey.generate rng).fst = key at h
  generalize (ObjectKey.generate rng).snd = rng at h
  generalize (rng.fillBytes 16).fst = salt at h
  generalize (rng.fillBytes 16).snd = rng at h
  generalize (rng.fillBytes _).fst = padding at h
  split at h
  case h_1 => cases h
  case h_2 count hc =>
    obtain ⟨chunks, hx, h⟩ := Except.bind_eq_ok.mp h
    obtain ⟨manifest, hf, h⟩ := Except.bind_eq_ok.mp h
    cases h
    obtain ⟨rfl, hz, rfl, hg⟩ := of_makeManifest_eq_ok hf
    have hx := Except.mapM_eq_ok.mp hx
    have hz' : manifest.paddedSize.toNat = size := by
      rw [hz, UInt64.toNat_ofNat', Nat.mod_eq_of_lt]
      exact Nat.lt_of_le_of_lt hm (by decide)
    rw [←hz] at hx
    refine ⟨?_, hz' ▸ hs, rfl⟩
    generalize hs : _ ++ padding.toBytes = stream at hx
    have hl : stream.length = size := by
      rw [←hs, List.length_append, List.length_append, BigEndian.encode_length, padding.size]
      omega
    have hn : manifest.chunkCount = size / manifest.chunkSize.toNat := by
      rw [BlobManifest.chunkCount, hg, List.length_map, ←hx.length_eq, List.length_zipIdx, chunksExact,
        chunksExact.go_length, hl]
    exact ⟨stream, {
      blobId  := rfl
      digests := hg
      size    := hl.trans hz'.symm
      whole   := hl ▸ hd
      padded  := ⟨padding.toBytes, by rw [←hs, List.append_assoc]⟩
      bounded := Nat.lt_of_le_of_lt (Nat.le_of_add_right_le (hle.trans hm)) (by decide)
      chunks  := ⟨count, hn ▸ hc, hx⟩ }⟩

theorem Sealed.openBlob_eq [LawfulChaCha20Poly1305] (h : Sealed plaintext blob stream) :
    openBlob blob.key blob.blobId blob.manifest blob.chunks = .ok plaintext := by
  obtain ⟨count, hc, hx⟩ := h.chunks
  obtain ⟨padding, hp⟩ := h.padded
  have hm : blob.chunks.zipIdx.mapM (openChunk (deriveKey blob.key blob.manifest.objectSalt)
      blob.manifest count) = .ok (chunksExact blob.manifest.chunkSize.toNat stream) := by
    refine Except.mapM_eq_ok.mpr (List.forall₂_iff_get.mpr ⟨?_, fun i hi hi' => ?_⟩)
    · simpa using hx.length_eq.symm
    · rw [List.length_zipIdx] at hi
      have hs := (List.forall₂_iff_get.mp hx).right i (by simpa using hi') hi
      simp only [List.get_eq_getElem, List.getElem_zipIdx, Nat.zero_add] at hs ⊢
      refine openChunk_sealChunk hs ?_ (length_of_mem_chunksExact h.whole (List.getElem_mem _))
      simp [BlobManifest.digest, h.digests, hi]
  have hn : blob.chunks.length = blob.manifest.chunkCount := by
    rw [BlobManifest.chunkCount, h.digests, List.length_map]
  have ht : stream.take 8 = BigEndian.encode 8 plaintext.length := by
    rw [hp]
    exact List.take_left' (BigEndian.encode_length ..)
  have hl : ByteVec.tryFrom 8 (stream.take 8) =
      some ⟨BigEndian.encode 8 plaintext.length, BigEndian.encode_length ..⟩ :=
    ByteVec.tryFrom_eq_some.mpr ht.symm
  have hb : plaintext.length ≤ stream.length - 8 := by
    rw [hp, List.length_append, List.length_append, BigEndian.encode_length]
    omega
  have hr : slice stream 8 (8 + plaintext.length) = plaintext := by
    rw [slice, hp, List.drop_left' (BigEndian.encode_length ..), Nat.add_sub_cancel_left, List.take_left]
  simp only [openBlob, h.blobId, hn, hc, hm, bind, Except.bind, chunksExact_flatten h.whole, h.size,
    ne_eq, not_true, or_self, if_false, hl]
  simp only [BigEndian.decode_encode h.bounded, ←h.size, gt_iff_lt, Nat.not_lt.mpr hb, if_false, hr]

theorem Sealed.length_chunk [LawfulChaCha20Poly1305] (h : Sealed plaintext blob stream)
    (hc : chunk ∈ blob.chunks) : chunk.length = blob.manifest.chunkSize.toNat + 16 := by
  obtain ⟨count, _, hx⟩ := h.chunks
  obtain ⟨i, hi, rfl⟩ := List.mem_iff_getElem.mp hc
  have hi' := hx.length_eq ▸ hi
  have hs := (List.forall₂_iff_get.mp hx).right i hi' hi
  simp only [List.get_eq_getElem, List.getElem_zipIdx] at hs
  rw [length_of_sealChunk hs, length_of_mem_chunksExact h.whole (List.getElem_mem _)]

-- Only chunks with the digests of the manifest can be opened.
theorem of_openBlob_eq_ok (h : openBlob key blobId manifest chunks = .ok plaintext) :
    identify manifest = blobId ∧ manifest.raw.digests = chunks.map Sha256.digest := by
  obtain ⟨hg, h⟩ := Except.ite_error_eq_ok.mp h
  simp only [not_or, ne_eq, not_not] at hg
  refine ⟨hg.left, ?_⟩
  split at h
  case h_1 => cases h
  case h_2 count _ =>
    obtain ⟨plaintexts, hm, _⟩ := Except.bind_eq_ok.mp h
    have ⟨hl, hx⟩ := List.forall₂_iff_get.mp (Except.mapM_eq_ok.mp hm)
    rw [List.length_zipIdx] at hl
    refine List.ext_getElem (hg.right.symm.trans (List.length_map _).symm) fun i hi hi' => ?_
    rw [List.length_map] at hi'
    have hx := hx i (by simpa using hi') (hl ▸ hi')
    simp only [List.get_eq_getElem, List.getElem_zipIdx, Nat.zero_add] at hx
    have hd := of_openChunk_eq_ok hx
    rw [BlobManifest.digest, List.getElem?_eq_getElem hi] at hd
    rw [List.getElem_map]
    exact Option.some.inj hd

-- An object which has the identity of a sealed one and can be opened is that one.
theorem Sealed.eq_of_openBlob_eq_ok {chunks : List Bytes} (h : Sealed plaintext blob stream)
    (ho : openBlob key blob.blobId manifest chunks = .ok plaintext')
    (hi : Set.InjOn Sha256.digest ({identityDomain ++ blob.manifest.asBytes,
      identityDomain ++ manifest.asBytes} ∪ {chunk | chunk ∈ blob.chunks ∨ chunk ∈ chunks})) :
    manifest = blob.manifest ∧ chunks = blob.chunks := by
  obtain ⟨hm, hd⟩ := of_openBlob_eq_ok ho
  rw [h.blobId] at hm
  have hm := hi (by simp) (by simp) (congrArg BlobId.asBytes hm)
  obtain rfl := BlobManifest.asBytes_inj (List.append_cancel_left hm)
  refine ⟨rfl, ?_⟩
  have hd := hd.symm.trans h.digests
  have hl : chunks.length = blob.chunks.length := by simpa using congrArg List.length hd
  refine List.ext_getElem hl fun i hc hb => ?_
  have he : (chunks.map Sha256.digest)[i]? = (blob.chunks.map Sha256.digest)[i]? := by rw [hd]
  simp only [List.getElem?_map, List.getElem?_eq_getElem hc, List.getElem?_eq_getElem hb,
    Option.map_some, Option.some.injEq] at he
  exact hi (.inr (.inr (List.getElem_mem hc))) (.inr (.inl (List.getElem_mem hb))) he

end Blob
end Crypto
end Cofferwire
