import Cofferwire.Crypto.Request
import Mathlib.Data.Nat.Log

namespace Cofferwire

-- The cipher and the derivation of its keys are not part of the sources.
class ChaCha20Poly1305 where
  encrypt (key : ByteVec 32) (nonce : ByteVec 12) (aad plaintext : Bytes) : Option Bytes
  decrypt (key : ByteVec 32) (nonce : ByteVec 12) (aad ciphertext : Bytes) : Option Bytes

class Hkdf where
  expand (salt key info : Bytes) : ByteVec 32

-- A tag of 16 bytes is added to the plaintext, and decryption inverts encryption.
class LawfulChaCha20Poly1305 [ChaCha20Poly1305] : Prop where
  encrypt_length (h : ChaCha20Poly1305.encrypt key nonce aad plaintext = some ciphertext) :
    ciphertext.length = plaintext.length + 16
  decrypt_encrypt (h : ChaCha20Poly1305.encrypt key nonce aad plaintext = some ciphertext) :
    ChaCha20Poly1305.decrypt key nonce aad ciphertext = some plaintext

-- A signing key is given by its seed.
class Ed25519Seeds [Ed25519] where
  fromSeed : ByteVec 32 → Ed25519.SigningKey
  toSeed   : Ed25519.SigningKey → ByteVec 32

class LawfulEd25519Seeds [Ed25519] [Ed25519Seeds] : Prop where
  fromSeed_toSeed (key : Ed25519.SigningKey) : Ed25519Seeds.fromSeed (Ed25519Seeds.toSeed key) = key

-- A signing key keeps the seed which it is made from.
class RetainedEd25519Seeds [Ed25519] [Ed25519Seeds] : Prop where
  toSeed_fromSeed (seed : ByteVec 32) : Ed25519Seeds.toSeed (Ed25519Seeds.fromSeed seed) = seed

-- A source of random bytes, given by the bytes which it is going to produce.
structure Rng where
  bytes : Nat → UInt8

def Rng.fillBytes (rng : Rng) (n : Nat) : ByteVec n × Rng where
  fst := ⟨(List.range n).map rng.bytes, by simp⟩
  snd := ⟨fun i => rng.bytes (n + i)⟩

def u32TryFrom (n : Nat) : Option UInt32 :=
  if n < 2 ^ 32 then some (.ofNat n) else none

namespace Crypto

-- The text `cofferwire blob key v1` and a zero byte.
def keyInfo : Bytes :=
  [99, 111, 102, 102, 101, 114, 119, 105, 114, 101, 32, 98, 108, 111, 98, 32, 107, 101, 121, 32, 118,
   49, 0]

-- The text `cofferwire blob chunk v1` and a zero byte.
def chunkDomain : Bytes :=
  [99, 111, 102, 102, 101, 114, 119, 105, 114, 101, 32, 98, 108, 111, 98, 32, 99, 104, 117, 110, 107,
   32, 118, 49, 0]

-- The text `cofferwire blob identity v1` and a zero byte.
def identityDomain : Bytes :=
  [99, 111, 102, 102, 101, 114, 119, 105, 114, 101, 32, 98, 108, 111, 98, 32, 105, 100, 101, 110, 116,
   105, 116, 121, 32, 118, 49, 0]

structure ObjectKey where fromBytes ::
  toBytes : ByteVec 32
deriving DecidableEq

def ObjectKey.generate (rng : Rng) : ObjectKey × Rng :=
  let (bytes, rng) := rng.fillBytes 32
  (⟨bytes⟩, rng)

structure EncryptedBlob where
  key      : ObjectKey
  manifest : BlobManifest
  blobId   : BlobId
  chunks   : List Bytes
deriving DecidableEq

section Keys

variable [Ed25519]

def capability (key : Ed25519.SigningKey) : CapabilityId where
  asBytes := Ed25519.toBytes (Ed25519.verifyingKey key)

def signBlobRequest (key : Ed25519.SigningKey) (authenticated : Bytes) : Auth :=
  signProof blobRequestDomain key authenticated

def generateKey [Ed25519Seeds] (rng : Rng) : Ed25519.SigningKey × Rng :=
  let (seed, rng) := rng.fillBytes 32
  (Ed25519Seeds.fromSeed seed, rng)

end Keys

def nonce (index : Nat) : ByteVec 12 where
  toBytes := List.replicate 4 0 ++ BigEndian.encode 8 index
  size    := by simp [BigEndian.encode_length]

def aad (salt : ByteVec 16) (paddedSize : UInt64) (chunkSize count index : UInt32) : Bytes :=
  chunkDomain ++
  BigEndian.encode 2 1 ++
  BigEndian.encode 2 1 ++
  salt.toBytes ++
  BigEndian.encode 8 paddedSize.toNat ++
  BigEndian.encode 4 chunkSize.toNat ++
  BigEndian.encode 4 count.toNat ++
  BigEndian.encode 4 index.toNat

def makeManifest (salt : ByteVec 16) (paddedSize : UInt64) (chunkSize : UInt32)
    (digests : List (ByteVec 32)) : Except BlobCryptoError BlobManifest :=
  match u32TryFrom digests.length with
  | none       => .error .invalidObject
  | some count =>
    let bytes :=
      BlobManifest.magic ++
      BigEndian.encode 2 1 ++
      BigEndian.encode 2 1 ++
      salt.toBytes ++
      BigEndian.encode 8 paddedSize.toNat ++
      BigEndian.encode 4 chunkSize.toNat ++
      BigEndian.encode 4 count.toNat ++
      digests.flatMap ByteVec.toBytes
    (BlobManifest.parse bytes).mapError fun _ => .invalidObject

def nextPowerOfTwo (n : Nat) : Nat :=
  2 ^ Nat.clog 2 n

-- The size of the stream for a plaintext, which starts with its length.
def paddedSize (plaintext : Bytes) (chunkSize : UInt32) : Except BlobCryptoError Nat :=
  if ¬(32 ≤ chunkSize ∧ chunkSize ≤ 1048576) ∨ ¬isPowerOfTwo chunkSize.toNat then
    .error .invalidChunkSize
  else if plaintext.length + 8 > maxPaddedBytes then
    .error .plaintextTooLarge
  else
    let size := max (nextPowerOfTwo (max (plaintext.length + 8) minPaddedBytes)) chunkSize.toNat
    if size > maxPaddedBytes ∨ size % chunkSize.toNat ≠ 0 ∨ size / chunkSize.toNat > 32768 then
      .error .invalidChunkSize
    else
      .ok size

section Blob

variable [Sha256] [ChaCha20Poly1305] [Hkdf]

def identify (manifest : BlobManifest) : BlobId where
  asBytes := Sha256.digest (identityDomain ++ manifest.asBytes)

def deriveKey (key : ObjectKey) (salt : ByteVec 16) : ByteVec 32 :=
  Hkdf.expand salt.toBytes key.toBytes.toBytes keyInfo

def sealChunk (key : ByteVec 32) (salt : ByteVec 16) (paddedSize : UInt64) (chunkSize count : UInt32) :
    Bytes × Nat → Except BlobCryptoError Bytes
  | (plain, index) =>
    match u32TryFrom index with
    | none   => .error .invalidObject
    | some i =>
      match ChaCha20Poly1305.encrypt key (nonce index) (aad salt paddedSize chunkSize count i) plain with
      | none            => .error .authenticationFailed
      | some ciphertext => .ok ciphertext

def sealBlob (plaintext : Bytes) (chunkSize : UInt32) (rng : Rng) :
    Except BlobCryptoError (EncryptedBlob × Rng) := do
  let size ← paddedSize plaintext chunkSize
  let (key, rng) := ObjectKey.generate rng
  let (salt, rng) := rng.fillBytes 16
  let (padding, rng) := rng.fillBytes (size - (8 + plaintext.length))
  let stream := BigEndian.encode 8 plaintext.length ++ plaintext ++ padding.toBytes
  match u32TryFrom (size / chunkSize.toNat) with
  | none       => .error .invalidChunkSize
  | some count =>
    let chunks ← (chunksExact chunkSize.toNat stream).zipIdx.mapM <|
      sealChunk (deriveKey key salt) salt (.ofNat size) chunkSize count
    let manifest ← makeManifest salt (.ofNat size) chunkSize (chunks.map Sha256.digest)
    return ({ key, manifest, blobId := identify manifest, chunks }, rng)

def openChunk (key : ByteVec 32) (manifest : BlobManifest) (count : UInt32) :
    Bytes × Nat → Except BlobCryptoError Bytes
  | (chunk, index) =>
    if manifest.digest index ≠ some (Sha256.digest chunk) then
      .error .invalidObject
    else
      match u32TryFrom index with
      | none   => .error .invalidObject
      | some i =>
        let aad := aad manifest.objectSalt manifest.paddedSize manifest.chunkSize count i
        match ChaCha20Poly1305.decrypt key (nonce index) aad chunk with
        | none           => .error .authenticationFailed
        | some plaintext =>
          if plaintext.length ≠ manifest.chunkSize.toNat then
            .error .invalidObject
          else
            .ok plaintext

def openBlob (key : ObjectKey) (expectedId : BlobId) (manifest : BlobManifest) (chunks : List Bytes) :
    Except BlobCryptoError Bytes :=
  if identify manifest ≠ expectedId ∨ chunks.length ≠ manifest.chunkCount then
    .error .invalidObject
  else
    match u32TryFrom manifest.chunkCount with
    | none       => .error .invalidObject
    | some count => do
      let plaintexts ← chunks.zipIdx.mapM <|
        openChunk (deriveKey key manifest.objectSalt) manifest count
      let stream := plaintexts.flatten
      if stream.length ≠ manifest.paddedSize.toNat then
        .error .invalidObject
      else
        match ByteVec.tryFrom 8 (stream.take 8) with
        | none        => .error .invalidObject
        | some length =>
          let length := BigEndian.decode length.toBytes
          if length > stream.length - 8 then
            .error .invalidObject
          else
            .ok (slice stream 8 (8 + length))

end Blob
end Crypto
end Cofferwire
