import Cofferwire.Crypto.Request
import Cofferwire.Library.Except

namespace Cofferwire

-- The encryption scheme is not part of the sources. Setting up a context and using it for a single
-- message is one step.
class Hpke where
  PrivateKey        : Type
  PublicKey         : Type
  EncappedKey       : Type
  Rng               : Type
  skToPk            : PrivateKey → PublicKey
  toBytes           : PublicKey → ByteVec 32
  fromBytes         : ByteVec 32 → Option PublicKey
  encappedToBytes   : EncappedKey → ByteVec 32
  encappedFromBytes : ByteVec 32 → Option EncappedKey
  sealAuth (sender : PrivateKey) (recipient : PublicKey) (info aad plaintext : Bytes) (rng : Rng) :
    Option (EncappedKey × Bytes)
  openAuth (recipient : PrivateKey) (sender : PublicKey) (encapped : EncappedKey)
    (info aad ciphertext : Bytes) : Option Bytes

-- Encodings are parsed as what they encode, the tag of a ciphertext has 16 bytes, and the recipient
-- opens what the sender has sealed.
class LawfulHpke [Hpke] : Prop where
  fromBytes_toBytes (key : Hpke.PublicKey) : Hpke.fromBytes (Hpke.toBytes key) = some key
  encappedFromBytes_toBytes (key : Hpke.EncappedKey) :
    Hpke.encappedFromBytes (Hpke.encappedToBytes key) = some key
  tag_le (h : Hpke.sealAuth sender recipient info aad plaintext rng = some (encapped, ciphertext)) :
    16 ≤ ciphertext.length
  openAuth_sealAuth (h : Hpke.sealAuth sender (Hpke.skToPk recipient) info aad plaintext rng =
      some (encapped, ciphertext)) :
    Hpke.openAuth recipient (Hpke.skToPk sender) encapped info aad ciphertext = some plaintext

def kemId  : Bytes := [0, 32]
def kdfId  : Bytes := [0, 1]
def aeadId : Bytes := [0, 3]

def envelopeHeaderBytes  : Nat := 8
def encapsulatedKeyBytes : Nat := 32
def aeadTagBytes         : Nat := 16

def maxPlaintextBytes : Nat :=
  maxMessageBytes - envelopeHeaderBytes - encapsulatedKeyBytes - aeadTagBytes

-- The text `cofferwire hpke info v1` and a zero byte.
def hpkeInfoDomain : Bytes :=
  [99, 111, 102, 102, 101, 114, 119, 105, 114, 101, 32, 104, 112, 107, 101, 32, 105, 110, 102, 111,
   32, 118, 49, 0]

-- The text `cofferwire hpke aad v1` and a zero byte.
def hpkeAadDomain : Bytes :=
  [99, 111, 102, 102, 101, 114, 119, 105, 114, 101, 32, 104, 112, 107, 101, 32, 97, 97, 100, 32,
   118, 49, 0]

-- The profile and the algorithms, with which an envelope starts.
def envelopeHeader : Bytes :=
  profileId ++ kemId ++ kdfId ++ aeadId

structure MessageContext where
  queueId   : QueueId
  sender    : Principal
  recipient : Principal
  messageId : MessageId
deriving DecidableEq, Repr

def contextBytes (domain : Bytes) (context : MessageContext) : Bytes :=
  domain ++ profileId ++ kemId ++ kdfId ++ aeadId ++ context.queueId.asBytes.toBytes ++
    context.sender.asBytes.toBytes ++ context.recipient.asBytes.toBytes ++
    context.messageId.asBytes.toBytes

-- All identifiers have a fixed width.
theorem contextBytes_inj : contextBytes domain c = contextBytes domain c' ↔ c = c' where
  mp h := by
    obtain ⟨⟨q⟩, ⟨s⟩, ⟨r⟩, ⟨m⟩⟩ := c
    obtain ⟨⟨q'⟩, ⟨s'⟩, ⟨r'⟩, ⟨m'⟩⟩ := c'
    simp only [contextBytes, List.append_assoc, List.append_cancel_left_eq] at h
    obtain ⟨hq, h⟩ := List.append_inj h (q.size.trans q'.size.symm)
    obtain ⟨hs, h⟩ := List.append_inj h (s.size.trans s'.size.symm)
    obtain ⟨hr, hm⟩ := List.append_inj h (r.size.trans r'.size.symm)
    rw [ByteVec.ext hq, ByteVec.ext hs, ByteVec.ext hr, ByteVec.ext hm]
  mpr h := h ▸ rfl

structure EncryptionPublicKey where
  asBytes : ByteVec 32
deriving DecidableEq, Repr

section

variable [Hpke]

def EncryptionPublicKey.fromBytes (bytes : ByteVec 32) : Except CryptoError EncryptionPublicKey :=
  match Hpke.fromBytes bytes with
  | none   => .error .invalidKey
  | some _ => .ok ⟨bytes⟩

def EncryptionPublicKey.parse (key : EncryptionPublicKey) : Except CryptoError Hpke.PublicKey :=
  match Hpke.fromBytes key.asBytes with
  | none     => .error .invalidKey
  | some key => .ok key

structure EncryptionSecretKey where
  privateKey : Hpke.PrivateKey

def EncryptionSecretKey.publicKey (key : EncryptionSecretKey) : EncryptionPublicKey where
  asBytes := Hpke.toBytes (Hpke.skToPk key.privateKey)

def sealMessage (senderSecret : EncryptionSecretKey) (recipientPublic : EncryptionPublicKey)
    (context : MessageContext) (plaintext : Bytes) (rng : Hpke.Rng) : Except CryptoError Payload :=
  if plaintext.length > maxPlaintextBytes then
    .error (.plaintextTooLarge maxPlaintextBytes plaintext.length)
  else do
    let recipientPublic ← recipientPublic.parse
    let info := contextBytes hpkeInfoDomain context
    let aad  := contextBytes hpkeAadDomain context
    match Hpke.sealAuth senderSecret.privateKey recipientPublic info aad plaintext rng with
    | none                        => .error .encryptionFailed
    | some (encapped, ciphertext) =>
      let envelope := envelopeHeader ++ (Hpke.encappedToBytes encapped).toBytes ++ ciphertext
      (Payload.new envelope).mapError fun _ => .encryptionFailed

def openMessage (recipientSecret : EncryptionSecretKey) (senderPublic : EncryptionPublicKey)
    (context : MessageContext) (payload : Payload) : Except CryptoError Bytes :=
  let envelope    := payload.asBytes
  let encappedEnd := envelopeHeaderBytes + encapsulatedKeyBytes
  if slice envelope 0 envelopeHeaderBytes ≠ envelopeHeader then
    .error .invalidEnvelope
  else
    match ByteVec.tryFrom 32 (slice envelope envelopeHeaderBytes encappedEnd) with
    | none          => .error .invalidEnvelope
    | some encapped =>
      let ciphertext := envelope.drop encappedEnd
      if ciphertext.length < aeadTagBytes then
        .error .invalidEnvelope
      else
        match Hpke.encappedFromBytes encapped with
        | none          => .error .invalidEnvelope
        | some encapped => do
          let senderPublic ← senderPublic.parse
          let info := contextBytes hpkeInfoDomain context
          let aad  := contextBytes hpkeAadDomain context
          match Hpke.openAuth recipientSecret.privateKey senderPublic encapped info aad ciphertext with
          | none           => .error .decryptionFailed
          | some plaintext => .ok plaintext

-- What is behind a payload which has been sealed.
theorem of_sealMessage_eq_ok
    (h : sealMessage sender recipient context plaintext rng = .ok payload) :
    ∃ key encapped ciphertext,
      recipient.parse = .ok key ∧
      Hpke.sealAuth sender.privateKey key (contextBytes hpkeInfoDomain context)
        (contextBytes hpkeAadDomain context) plaintext rng = some (encapped, ciphertext) ∧
      payload.asBytes =
        envelopeHeader ++ ((Hpke.encappedToBytes encapped).toBytes ++ ciphertext) := by
  obtain ⟨_, h⟩ := Except.ite_error_eq_ok.mp h
  obtain ⟨key, hk, h⟩ := Except.bind_eq_ok.mp h
  dsimp only at h
  split at h
  case h_1 => cases h
  case h_2 encapped ciphertext hs =>
    have hp := Payload.new_eq_ok.mp (Except.mapError_eq_ok.mp h)
    exact ⟨key, encapped, ciphertext, hk, hs, by rw [←hp, List.append_assoc]⟩

-- What is behind a payload which can be opened.
theorem of_openMessage_eq_ok (h : openMessage recipient sender context payload = .ok plaintext) :
    ∃ key encapped ciphertext,
      sender.parse = .ok key ∧
      Hpke.openAuth recipient.privateKey key encapped (contextBytes hpkeInfoDomain context)
        (contextBytes hpkeAadDomain context) ciphertext = some plaintext := by
  obtain ⟨_, h⟩ := Except.ite_error_eq_ok.mp h
  split at h
  case h_1 => cases h
  case h_2 =>
    obtain ⟨_, h⟩ := Except.ite_error_eq_ok.mp h
    split at h
    case h_1 => cases h
    case h_2 encapped _ =>
      obtain ⟨key, hk, h⟩ := Except.bind_eq_ok.mp h
      dsimp only at h
      split at h <;> cases h
      case h_2 ho => exact ⟨key, encapped, _, hk, ho⟩

variable [LawfulHpke]

theorem EncryptionSecretKey.parse_publicKey (key : EncryptionSecretKey) :
    key.publicKey.parse = .ok (Hpke.skToPk key.privateKey) := by
  simp [EncryptionPublicKey.parse, publicKey, LawfulHpke.fromBytes_toBytes]

-- The recipient opens what the sender has sealed for the same context.
theorem openMessage_sealMessage {sender recipient : EncryptionSecretKey}
    (h : sealMessage sender recipient.publicKey context plaintext rng = .ok payload) :
    openMessage recipient sender.publicKey context payload = .ok plaintext := by
  obtain ⟨key, encapped, ciphertext, hk, hs, hp⟩ := of_sealMessage_eq_ok h
  cases recipient.parse_publicKey.symm.trans hk
  have hh : slice payload.asBytes 0 envelopeHeaderBytes = envelopeHeader := by
    rw [hp]
    rfl
  have hr : payload.asBytes.drop 8 = (Hpke.encappedToBytes encapped).toBytes ++ ciphertext := by
    rw [hp]
    rfl
  have hl := (Hpke.encappedToBytes encapped).size
  have he : ByteVec.tryFrom 32 (slice payload.asBytes envelopeHeaderBytes
      (envelopeHeaderBytes + encapsulatedKeyBytes)) = some (Hpke.encappedToBytes encapped) := by
    rw [ByteVec.tryFrom_eq_some]
    simp [slice, envelopeHeaderBytes, encapsulatedKeyBytes, hr, hl]
  have hc : payload.asBytes.drop (envelopeHeaderBytes + encapsulatedKeyBytes) = ciphertext := by
    rw [←List.drop_drop, show payload.asBytes.drop envelopeHeaderBytes = _ from hr]
    exact List.drop_left' hl
  have ht : ¬ciphertext.length < aeadTagBytes := Nat.not_lt.mpr (LawfulHpke.tag_le hs)
  simp only [openMessage, hh, he, hc, ht, LawfulHpke.encappedFromBytes_toBytes,
    sender.parse_publicKey, ne_eq, not_true, if_false, bind, Except.bind,
    LawfulHpke.openAuth_sealAuth hs]

end
end Cofferwire
