import Cofferwire.Client.Basic
import Cofferwire.Crypto.Receipt

namespace Cofferwire.Client

open Crypto (AppliedReceipt ConfirmedObject ReceiptError contentDigest verifyAppliedReceipt)

inductive ReceiptOutcome
  | recorded
  | alreadyRecorded
deriving DecidableEq, Repr

inductive ReceiptVerificationError
  | crypto (error : ReceiptError)
  | objectMismatch
  | contentMismatch
  | store (error : StoreError)
deriving DecidableEq, Repr

-- A store, whose state is passed explicitly.
structure ReceiptStore (σ : Type) where
  record : ConfirmedObject → σ → Except StoreError ReceiptOutcome × σ

-- The method of `ReceiptStore`.
inductive ReceiptCall
  | record (confirmed : ConfirmedObject)
deriving DecidableEq, Repr

def receiptInterface : Interface where
  Call     := ReceiptCall
  Result _ := Except StoreError ReceiptOutcome

def ReceiptStore.handle (store : ReceiptStore σ) :
    (c : receiptInterface.Call) → σ → receiptInterface.Result c × σ
  | .record confirmed => store.record confirmed

def record (confirmed : ConfirmedObject) :
    Program receiptInterface ReceiptVerificationError ReceiptOutcome :=
  .call (.record confirmed) fun outcome => .done (outcome.mapError .store)

def verifyAndRecordAppliedReceipt [Ed25519] [Sha256] (expectedSigner : Principal)
    (expected : ConfirmedObject) (expectedContent : Option Bytes) (plaintext : Bytes) :
    Program receiptInterface ReceiptVerificationError (AppliedReceipt × ReceiptOutcome) := do
  let receipt ← (verifyAppliedReceipt expectedSigner plaintext).mapError
    ReceiptVerificationError.crypto
  if receipt.confirmed ≠ expected then
    .fail .objectMismatch
  else if ∃ content ∈ expectedContent, receipt.appliedContentDigest ≠ contentDigest content then
    .fail .contentMismatch
  else
    let outcome ← record expected
    return (receipt, outcome)

end Cofferwire.Client
