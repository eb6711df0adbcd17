import Cofferwire.Crypto.Blob
import Cofferwire.Crypto.Message
import Cofferwire.Service.RateLimit

-- Lawful instances of what is not part of the sources, for which concrete runs can be evaluated.
namespace Cofferwire.Toy

@[reducible]
def profile : Profile where
  overflowChecks := true

-- A digest consists of the first bytes.
def digest (bytes : Bytes) : ByteVec 32 where
  toBytes := (bytes ++ .replicate 32 0).take 32
  size    := by simp

@[reducible]
def sha256 : Sha256 where
  digest := digest

-- Keys are their own encodings and seeds. A signature consists of the key and the digest of the message.
def signature (key : ByteVec 32) (message : Bytes) : ByteVec 64 where
  toBytes := key.toBytes ++ (digest message).toBytes
  size    := by simp [ByteVec.size]

@[reducible]
def ed25519 : Ed25519 where
  SigningKey               := ByteVec 32
  VerifyingKey             := ByteVec 32
  verifyingKey key         := key
  toBytes key              := key
  fromBytes                := some
  sign                     := signature
  verifyStrict key message := fun s => s = signature key message

-- A ciphertext consists of the plaintext and an empty tag.
def tag : Bytes := .replicate 16 0

def untag (ciphertext : Bytes) : Option Bytes :=
  let plaintext := ciphertext.take (ciphertext.length - 16)
  if ciphertext = plaintext ++ tag then some plaintext else none

theorem untag_append : untag (plaintext ++ tag) = some plaintext := by
  simp [untag, tag]

@[reducible]
def chaCha20Poly1305 : ChaCha20Poly1305 where
  encrypt _ _ _ plaintext  := some (plaintext ++ tag)
  decrypt _ _ _ ciphertext := untag ciphertext

@[reducible]
def hkdf : Hkdf where
  expand _ _ _ := .replicate 32 0

@[reducible]
def hpke : Hpke where
  PrivateKey                        := ByteVec 32
  PublicKey                         := ByteVec 32
  EncappedKey                       := ByteVec 32
  Rng                               := Unit
  skToPk key                        := key
  toBytes key                       := key
  fromBytes                         := some
  encappedToBytes key               := key
  encappedFromBytes                 := some
  sealAuth sender _ _ _ plaintext _ := some (sender, plaintext ++ tag)
  openAuth _ _ _ _ _ ciphertext     := untag ciphertext

attribute [local instance] ed25519 chaCha20Poly1305 hpke

@[reducible]
def seeds : Ed25519Seeds where
  fromSeed seed := seed
  toSeed key    := key

theorem lawfulEd25519 : LawfulEd25519 where
  fromBytes_toBytes _   := rfl
  verifyStrict_sign _ _ := decide_eq_true rfl

attribute [local instance] seeds

theorem lawfulSeeds : LawfulEd25519Seeds where
  fromSeed_toSeed _ := rfl

theorem retainedSeeds : RetainedEd25519Seeds where
  toSeed_fromSeed _ := rfl

theorem lawfulCipher : LawfulChaCha20Poly1305 where
  encrypt_length h  := by cases h; simp [tag]
  decrypt_encrypt h := by cases h; exact untag_append

theorem lawfulHpke : LawfulHpke where
  fromBytes_toBytes _         := rfl
  encappedFromBytes_toBytes _ := rfl
  tag_le h                    := by cases h; simp [tag]
  openAuth_sealAuth h         := by cases h; exact untag_append

end Cofferwire.Toy
