import Cofferwire.Crypto.Request

namespace Cofferwire.Crypto

-- The text `cofferwire receipt v1` and a zero byte.
def receiptDomain : Bytes :=
  [99, 111, 102, 102, 101, 114, 119, 105, 114, 101, 32, 114, 101, 99, 101, 105, 112, 116, 32, 118,
   49, 0]

-- "CWR1"
def receiptMagic : Bytes := [67, 87, 82, 49]

def appliedType : UInt8 := 1

def signedLen  : Nat := 173
def receiptLen : Nat := 237

inductive ReceiptError
  | malformed
  | authenticationFailed
deriving DecidableEq, Repr

structure ConfirmedObject where
  queueId   : QueueId
  sender    : Principal
  recipient : Principal
  messageId : MessageId
deriving DecidableEq, Repr

structure AppliedReceipt where
  confirmed            : ConfirmedObject
  appliedContentDigest : ByteVec 32
  appliedAtSecs        : UInt64
deriving DecidableEq, Repr

-- The part of a receipt which is signed.
def AppliedReceipt.signedFields (receipt : AppliedReceipt) : Bytes :=
  receiptMagic ++
  [appliedType] ++
  receipt.confirmed.queueId.asBytes.toBytes ++
  receipt.confirmed.sender.asBytes.toBytes ++
  receipt.confirmed.recipient.asBytes.toBytes ++
  receipt.confirmed.messageId.asBytes.toBytes ++
  receipt.appliedContentDigest.toBytes ++
  BigEndian.encode 8 receipt.appliedAtSecs.toNat

theorem read32_length (h : plaintext.length = receiptLen) (i : Fin 5) :
    (slice plaintext (5 + 32 * i) (5 + 32 * i + 32)).length = 32 := by
  have hi := i.isLt
  rw [slice_length (by rw [h, receiptLen]; omega)]
  omega

-- All fields behind the type have 32 bytes, except for the time.
def read32 (plaintext : Bytes) (h : plaintext.length = receiptLen) (i : Fin 5) : ByteVec 32 where
  toBytes := slice plaintext (5 + 32 * i) (5 + 32 * i + 32)
  size    := read32_length h i

def AppliedReceipt.read (plaintext : Bytes) (h : plaintext.length = receiptLen) : AppliedReceipt where
  confirmed := {
    queueId   := ⟨read32 plaintext h 0⟩
    sender    := ⟨read32 plaintext h 1⟩
    recipient := ⟨read32 plaintext h 2⟩
    messageId := ⟨read32 plaintext h 3⟩
  }
  appliedContentDigest := read32 plaintext h 4
  appliedAtSecs        := .ofNat (BigEndian.decode (slice plaintext 165 173))

section

variable [Ed25519]

def contentDigest [Sha256] (plaintext : Bytes) : ByteVec 32 :=
  Sha256.digest plaintext

-- The signature behind the fields of a receipt.
def signReceipt (signingKey : Ed25519.SigningKey) (signedFields : Bytes) : ByteVec 64 :=
  Ed25519.sign signingKey (receiptDomain ++ signedFields)

def buildAppliedReceipt [Sha256] (signingKey : Ed25519.SigningKey) (confirmed : ConfirmedObject)
    (appliedPlaintext : Bytes) (appliedAtSecs : UInt64) : Bytes :=
  let message := AppliedReceipt.signedFields ⟨confirmed, contentDigest appliedPlaintext, appliedAtSecs⟩
  message ++ (signReceipt signingKey message).toBytes

def verifyAppliedReceipt (expectedSigner : Principal) (plaintext : Bytes) :
    Except ReceiptError AppliedReceipt :=
  if h : plaintext.length = receiptLen then
    if plaintext.take 4 ≠ receiptMagic ∨ plaintext[4]? ≠ some appliedType then
      .error .malformed
    else
      match Ed25519.fromBytes expectedSigner.asBytes, ByteVec.tryFrom 64 (plaintext.drop signedLen) with
      | some verifyingKey, some signature =>
        if Ed25519.verifyStrict verifyingKey (receiptDomain ++ plaintext.take signedLen) signature then
          .ok (.read plaintext h)
        else
          .error .authenticationFailed
      | _, _ => .error .authenticationFailed
  else
    .error .malformed

end
end Cofferwire.Crypto
