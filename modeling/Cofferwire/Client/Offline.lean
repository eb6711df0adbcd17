import Cofferwire.Crypto.Message
import Cofferwire.Library.Reader

-- Bundles which are handed over without a relay.
namespace Cofferwire.Client.Offline

def maxRelayHints     : Nat := 8
def maxRelayHintBytes : Nat := 256

-- "CWOB"
def magic : Bytes := [67, 87, 79, 66]

def version : UInt8 := 1

def envelopeHeaderLen : Nat := magic.length + 1 + 32 + 32

def invitationType : UInt8 := 1
def recoveryType   : UInt8 := 2

inductive Role
  | sender
  | recipient
deriving DecidableEq, Repr

structure OwnIdentitySeed where
  signingSeed   : ByteVec 32
  encryptionIkm : ByteVec 32
deriving DecidableEq, Repr

structure BundleFields where
  role                    : Role
  peerPrincipal           : Principal
  peerEncryptionPublicKey : EncryptionPublicKey
  createdAtSecs           : UInt64
  ownIdentity             : Option OwnIdentitySeed
  relayHints              : List Bytes
deriving DecidableEq, Repr

inductive BundleError
  | relayHints
  | malformed
  | unsupportedVersion
  | crypto (error : CryptoError)
deriving DecidableEq, Repr

def Role.asU8 : Role → UInt8
  | sender    => 0
  | recipient => 1

def encodeIdentity (identity : OwnIdentitySeed) : Bytes :=
  identity.signingSeed.toBytes ++ identity.encryptionIkm.toBytes

def encodeHint (hint : Bytes) : Bytes :=
  BigEndian.encode 2 hint.length ++ hint

-- The limits ensure that the number of hints fits into a `u8` and their lengths into a `u16`.
def encodeFields (fields : BundleFields) : Except BundleError Bytes :=
  if fields.relayHints.length > maxRelayHints then
    .error .relayHints
  else if ∃ hint ∈ fields.relayHints, hint.length > maxRelayHintBytes then
    .error .relayHints
  else
    .ok <|
      [if fields.ownIdentity.isSome then recoveryType else invitationType] ++
      [fields.role.asU8] ++
      fields.peerPrincipal.asBytes.toBytes ++
      fields.peerEncryptionPublicKey.asBytes.toBytes ++
      BigEndian.encode 8 fields.createdAtSecs.toNat ++
      fields.ownIdentity.elim [] encodeIdentity ++
      [.ofNat fields.relayHints.length] ++
      fields.relayHints.flatMap encodeHint

-- All failures to read are the same error.
namespace Cursor

def bytes (length : Nat) : Reader BundleError UInt8 Bytes :=
  Reader.take length fun _ => .malformed

def byte : Reader BundleError UInt8 UInt8 :=
  Reader.item fun _ => .malformed

def array (n : Nat) : Reader BundleError UInt8 (ByteVec n) := do
  (ByteVec.tryFrom n (← bytes n)).elim (throw .malformed) pure

def role : Reader BundleError UInt8 Role := do
  match ← byte with
  | 0 => return .sender
  | 1 => return .recipient
  | _ => throw .malformed

-- Only a recovery bundle carries an identity.
def ownIdentity (bundleType : UInt8) : Reader BundleError UInt8 (Option OwnIdentitySeed) :=
  if bundleType = recoveryType then
    return some { signingSeed := ← array 32, encryptionIkm := ← array 32 }
  else
    return none

def hint : Reader BundleError UInt8 Bytes := do
  let length := BigEndian.decode (← array 2).toBytes
  if length > maxRelayHintBytes then
    throw .malformed
  else
    bytes length

def hints : Nat → Reader BundleError UInt8 (List Bytes)
  | 0         => return []
  | count + 1 => return (← hint) :: (← hints count)

end Cursor

section

variable [Hpke]

-- The fields behind the type.
def readBody (bundleType : UInt8) : Reader BundleError UInt8 BundleFields := do
  let role ← Cursor.role
  let peerPrincipal ← Cursor.array 32
  let key ← Cursor.array 32
  let peerEncryptionPublicKey ← liftM <| (EncryptionPublicKey.fromBytes key).mapError fun _ =>
    BundleError.malformed
  let createdAtSecs ← Cursor.array 8
  let ownIdentity ← Cursor.ownIdentity bundleType
  let hintCount ← Cursor.byte
  if hintCount.toNat > maxRelayHints then
    throw .malformed
  else
    let relayHints ← Cursor.hints hintCount.toNat
    return {
      role, peerPrincipal := ⟨peerPrincipal⟩, peerEncryptionPublicKey, ownIdentity, relayHints
      createdAtSecs := .ofNat (BigEndian.decode createdAtSecs.toBytes)
    }

def readFields : Reader BundleError UInt8 BundleFields := do
  let bundleType ← Cursor.byte
  if bundleType ≠ invitationType ∧ bundleType ≠ recoveryType then
    throw .malformed
  else
    readBody bundleType

def decodeFields (plaintext : Bytes) : Except BundleError BundleFields := do
  let (fields, cursor) ← readFields.run ⟨plaintext, 0⟩
  if cursor.rest.isEmpty then
    .ok fields
  else
    .error .malformed

def sealBundle (context : MessageContext) (exportingEncryptionKey : EncryptionSecretKey)
    (importingEncryptionPublicKey : EncryptionPublicKey) (fields : BundleFields) (rng : Hpke.Rng) :
    Except BundleError Bytes := do
  let plaintext ← encodeFields fields
  let payload ← (sealMessage exportingEncryptionKey importingEncryptionPublicKey context plaintext
    rng).mapError .crypto
  return magic ++
    [version] ++
    context.queueId.asBytes.toBytes ++
    context.messageId.asBytes.toBytes ++
    payload.asBytes

-- The identifiers in front of the sealed fields.
def readIdentifiers : Reader BundleError UInt8 (QueueId × MessageId) :=
  return (⟨← Cursor.array 32⟩, ⟨← Cursor.array 32⟩)

def openBundle (importingEncryptionKey : EncryptionSecretKey) (importingPrincipal : Principal)
    (expectedExporter : Principal) (expectedExporterEncryptionKey : EncryptionPublicKey)
    (envelope : Bytes) : Except BundleError (QueueId × MessageId × BundleFields) :=
  if envelope.length < envelopeHeaderLen ∨ slice envelope 0 magic.length ≠ magic then
    .error .malformed
  else if envelope[magic.length]? ≠ some version then
    .error .unsupportedVersion
  else do
    let ((queueId, bundleId), cursor) ← readIdentifiers.run ⟨envelope.drop (magic.length + 1), 0⟩
    let payload ← (Payload.new cursor.rest).mapError fun _ => BundleError.malformed
    let context := {
      queueId
      sender    := expectedExporter
      recipient := importingPrincipal
      messageId := bundleId
    }
    let plaintext ← (openMessage importingEncryptionKey expectedExporterEncryptionKey context
      payload).mapError .crypto
    let fields ← decodeFields plaintext
    return (queueId, bundleId, fields)

end
end Cofferwire.Client.Offline
