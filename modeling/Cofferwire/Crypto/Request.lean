import Cofferwire.Types.Blob

namespace Cofferwire

-- The signature scheme is not part of the sources.
class Ed25519 where
  SigningKey   : Type
  VerifyingKey : Type
  verifyingKey : SigningKey → VerifyingKey
  toBytes      : VerifyingKey → ByteVec 32
  fromBytes    : ByteVec 32 → Option VerifyingKey
  sign         : SigningKey → Bytes → ByteVec 64
  verifyStrict : VerifyingKey → Bytes → ByteVec 64 → Bool

-- Encodings of keys are parsed as what they encode, and signatures are accepted.
class LawfulEd25519 [Ed25519] : Prop where
  fromBytes_toBytes (key : Ed25519.VerifyingKey) : Ed25519.fromBytes (Ed25519.toBytes key) = some key
  verifyStrict_sign (key : Ed25519.SigningKey) (message : Bytes) :
    Ed25519.verifyStrict (Ed25519.verifyingKey key) message (Ed25519.sign key message)

inductive CryptoError
  | invalidKey
  | authenticationFailed
  | invalidEnvelope
  | decryptionFailed
  | plaintextTooLarge (max actual : Nat)
  | encryptionFailed
deriving DecidableEq, Repr

inductive BlobCryptoError
  | plaintextTooLarge
  | invalidChunkSize
  | authenticationFailed
  | invalidObject
deriving DecidableEq, Repr

def profileId : Bytes := [0, 1]
def ed25519Id : Bytes := [0, 1]

-- The text `cofferwire relay request v1` and a zero byte.
def relayAuthDomain : Bytes :=
  [99, 111, 102, 102, 101, 114, 119, 105, 114, 101, 32, 114, 101, 108, 97, 121, 32, 114, 101,
   113, 117, 101, 115, 116, 32, 118, 49, 0]

-- The text `cofferwire blob request v1` and a zero byte.
def blobRequestDomain : Bytes :=
  [99, 111, 102, 102, 101, 114, 119, 105, 114, 101, 32, 98, 108, 111, 98, 32, 114, 101, 113, 117,
   101, 115, 116, 32, 118, 49, 0]

section

variable [Ed25519]

-- The principal of a `RelaySigningKey`.
def principalOf (key : Ed25519.SigningKey) : Principal where
  asBytes := Ed25519.toBytes (Ed25519.verifyingKey key)

-- Both profiles use the same kind of proof, but for different domains.
def signProof (domain : Bytes) (key : Ed25519.SigningKey) (authenticated : Bytes) : Auth where
  asBytes := profileId ++ ed25519Id ++ (Ed25519.sign key (domain ++ authenticated)).toBytes
  bounded := by simp [profileId, ed25519Id, maxAuthBytes, ByteVec.size]

def verifyProof (domain : Bytes) (key : ByteVec 32) (authenticated : Bytes) (auth : Auth) : Bool :=
  let bytes := auth.asBytes
  if bytes.length ≠ 68 ∨ slice bytes 0 2 ≠ profileId ∨ slice bytes 2 4 ≠ ed25519Id then
    false
  else
    match Ed25519.fromBytes key, ByteVec.tryFrom 64 (bytes.drop 4) with
    | some key, some signature => Ed25519.verifyStrict key (domain ++ authenticated) signature
    | _,        _              => false

theorem signProof_length : (signProof domain key authenticated).asBytes.length = 68 := by
  have hs := (Ed25519.sign key (domain ++ authenticated)).size
  simp [signProof, profileId, ed25519Id, hs]

theorem verifyProof_signProof [LawfulEd25519] (key : Ed25519.SigningKey) :
    verifyProof domain (Ed25519.toBytes (Ed25519.verifyingKey key)) authenticated
      (signProof domain key authenticated) := by
  have ht : ByteVec.tryFrom 64 ((signProof domain key authenticated).asBytes.drop 4) =
      some (Ed25519.sign key (domain ++ authenticated)) :=
    ByteVec.tryFrom_eq_some.mpr rfl
  have hp : slice (signProof domain key authenticated).asBytes 0 2 = profileId := rfl
  have he : slice (signProof domain key authenticated).asBytes 2 4 = ed25519Id := rfl
  simp only [verifyProof, signProof_length, hp, he, ht, LawfulEd25519.fromBytes_toBytes, ne_eq, not_true, or_self,
    if_false]
  exact LawfulEd25519.verifyStrict_sign key _

def signRequest (key : Ed25519.SigningKey) (authenticatedBytes : Bytes) : Auth :=
  signProof relayAuthDomain key authenticatedBytes

def verifyRequest (principal : Principal) (authenticatedBytes : Bytes) (auth : Auth) :
    Except CryptoError Unit :=
  if verifyProof relayAuthDomain principal.asBytes authenticatedBytes auth then
    .ok ()
  else
    .error .authenticationFailed

def verifyBlobRequest (capability : CapabilityId) (authenticated : Bytes) (auth : Auth) :
    Except BlobCryptoError Unit :=
  if verifyProof blobRequestDomain capability.asBytes authenticated auth then
    .ok ()
  else
    .error .authenticationFailed

end
end Cofferwire
