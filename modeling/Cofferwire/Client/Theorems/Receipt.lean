import Cofferwire.Client.Receipt
import Cofferwire.Toy
import Cofferwire.Crypto.Theorems.Purpose

namespace Cofferwire

namespace Crypto

-- The bytes of a receipt, whoever has signed it.
structure WellFormed (plaintext : Bytes) : Prop where
  length : plaintext.length = 237
  magic  : plaintext.take 4 = receiptMagic
  type   : plaintext[4]? = some 1

structure Confirms (plaintext : Bytes) (object : ConfirmedObject) : Prop where
  queueId   : slice plaintext 5 37 = object.queueId.asBytes.toBytes
  sender    : slice plaintext 37 69 = object.sender.asBytes.toBytes
  recipient : slice plaintext 69 101 = object.recipient.asBytes.toBytes
  messageId : slice plaintext 101 133 = object.messageId.asBytes.toBytes

theorem confirms_iff (h : plaintext.length = receiptLen) :
    Confirms plaintext object ↔ (AppliedReceipt.read plaintext h).confirmed = object where
  mp hc := by
    obtain ⟨⟨q⟩, ⟨s⟩, ⟨r⟩, ⟨m⟩⟩ := object
    have hq : read32 plaintext h 0 = q := ByteVec.ext hc.queueId
    have hs : read32 plaintext h 1 = s := ByteVec.ext hc.sender
    have hr : read32 plaintext h 2 = r := ByteVec.ext hc.recipient
    have hm : read32 plaintext h 3 = m := ByteVec.ext hc.messageId
    simp only [AppliedReceipt.read, hq, hs, hr, hm]
  mpr := by
    rintro rfl
    exact ⟨rfl, rfl, rfl, rfl⟩

-- The digest is that of the content.
def Covers [Sha256] (plaintext content : Bytes) : Prop :=
  slice plaintext 133 165 = (Sha256.digest content).toBytes

theorem covers_iff [Sha256] (h : plaintext.length = receiptLen) :
    Covers plaintext content ↔
      (AppliedReceipt.read plaintext h).appliedContentDigest = contentDigest content where
  mp hc := ByteVec.ext hc
  mpr   := congrArg ByteVec.toBytes

theorem AppliedReceipt.signedFields_length {receipt : AppliedReceipt} :
    receipt.signedFields.length = signedLen := by
  have hm : receiptMagic.length = 4 := rfl
  simp only [signedFields, List.length_append, ByteVec.size, BigEndian.encode_length, hm,
    List.length_singleton, signedLen]

section

variable [Ed25519]

def Signed (signer : Principal) (plaintext : Bytes) : Prop :=
  ∃ key signature, Ed25519.fromBytes signer.asBytes = some key ∧
    plaintext.drop 173 = signature.toBytes ∧
    Ed25519.verifyStrict key (receiptDomain ++ plaintext.take 173) signature

theorem verifyAppliedReceipt_malformed (h : ¬WellFormed plaintext) :
    verifyAppliedReceipt signer plaintext = .error .malformed := by
  unfold verifyAppliedReceipt
  split
  case isFalse => rfl
  case isTrue hl =>
    rw [if_pos]
    by_contra hn
    obtain ⟨hm, ht⟩ := not_or.mp hn
    exact h ⟨hl, not_not.mp hm, not_not.mp ht⟩

-- For the bytes of a receipt, only the signature decides.
theorem WellFormed.verifyAppliedReceipt_eq (h : WellFormed plaintext)
    (hl : plaintext.length = receiptLen) :
    (Signed signer plaintext → verifyAppliedReceipt signer plaintext = .ok (.read plaintext hl)) ∧
    (¬Signed signer plaintext →
      verifyAppliedReceipt signer plaintext = .error .authenticationFailed) := by
  have hn : ¬(plaintext.take 4 ≠ receiptMagic ∨ plaintext[4]? ≠ some appliedType) :=
    not_or.mpr ⟨not_not.mpr h.magic, not_not.mpr h.type⟩
  rw [verifyAppliedReceipt, dif_pos hl, if_neg hn]
  split
  case h_1 key signature hk hs =>
    have hs := ByteVec.tryFrom_eq_some.mp hs
    constructor
    case left =>
      rintro ⟨key', signature', hk', hs', hv⟩
      cases hk.symm.trans hk'
      cases ByteVec.ext (hs.trans hs')
      exact if_pos hv
    case right =>
      intro hn
      exact if_neg fun hv => hn ⟨key, signature, hk, hs.symm, hv⟩
  case h_2 hf =>
    refine ⟨?_, fun _ => rfl⟩
    rintro ⟨key, signature, hk, hs, _⟩
    cases hf key signature hk (ByteVec.tryFrom_eq_some.mpr hs.symm)

theorem verifyAppliedReceipt_buildAppliedReceipt [LawfulEd25519] [Sha256]
    (key : Ed25519.SigningKey) (object : ConfirmedObject) (content : Bytes) (time : UInt64) :
    verifyAppliedReceipt (principalOf key) (buildAppliedReceipt key object content time) =
      .ok ⟨object, Sha256.digest content, time⟩ := by
  let receipt : AppliedReceipt := ⟨object, Sha256.digest content, time⟩
  let signature := signReceipt key receipt.signedFields
  have hb : buildAppliedReceipt key object content time =
      receipt.signedFields ++ signature.toBytes := rfl
  have hs : receipt.signedFields.length = 173 := AppliedReceipt.signedFields_length
  have hl : (buildAppliedReceipt key object content time).length = receiptLen := by
    rw [hb, List.length_append, hs, signature.size, receiptLen]
  have ht : (buildAppliedReceipt key object content time).take 173 = receipt.signedFields := by
    rw [hb, ←hs, List.take_left]
  have hd : (buildAppliedReceipt key object content time).drop 173 = signature.toBytes := by
    rw [hb, ←hs, List.drop_left]
  have hw : WellFormed (buildAppliedReceipt key object content time) := ⟨hl, rfl, rfl⟩
  have hr := AppliedReceipt.signedFields_read hl hw.magic hw.type
  have hv : Signed (principalOf key) (buildAppliedReceipt key object content time) := by
    refine ⟨_, signature, LawfulEd25519.fromBytes_toBytes _, hd, ?_⟩
    rw [ht]
    exact LawfulEd25519.verifyStrict_sign key _
  rw [(hw.verifyAppliedReceipt_eq hl).left hv, AppliedReceipt.signedFields_inj (hr.trans ht)]

end
end Crypto

namespace Client

open Crypto (AppliedReceipt Confirms ConfirmedObject Covers Signed WellFormed buildAppliedReceipt
  confirms_iff covers_iff verifyAppliedReceipt)

section

variable [Ed25519] [Sha256]

theorem verifyAndRecord_of_error (h : verifyAppliedReceipt signer plaintext = .error e) :
    verifyAndRecordAppliedReceipt signer expected content plaintext = .done (.error (.crypto e)) := by
  rw [verifyAndRecordAppliedReceipt, h]
  rfl

-- What happens to a receipt which is authentic.
theorem verifyAndRecord_of_ok (h : verifyAppliedReceipt signer plaintext = .ok receipt) :
    verifyAndRecordAppliedReceipt signer expected content plaintext =
      if receipt.confirmed ≠ expected then
        .done (.error .objectMismatch)
      else if ∃ bytes ∈ content, receipt.appliedContentDigest ≠ Crypto.contentDigest bytes then
        .done (.error .contentMismatch)
      else
        .call (.record expected) fun outcome =>
          .done ((outcome.mapError .store).map fun outcome => (receipt, outcome)) := by
  have hb : verifyAndRecordAppliedReceipt signer expected content plaintext =
      if receipt.confirmed ≠ expected then
        .fail .objectMismatch
      else if ∃ bytes ∈ content, receipt.appliedContentDigest ≠ Crypto.contentDigest bytes then
        .fail .contentMismatch
      else
        record expected >>= fun outcome => pure (receipt, outcome) := by
    rw [verifyAndRecordAppliedReceipt, h]
    rfl
  rw [hb]
  congr 2
  refine congrArg (Program.call (I := receiptInterface) (.record expected)) (funext fun outcome => ?_)
  cases outcome <;> rfl

end

-- Receipts are what has been built, and only those which match are recorded.
theorem receipts_accepted_exactly [Ed25519] [LawfulEd25519] [Sha256] :
    (∀ key object content time,
      verifyAppliedReceipt (principalOf key) (buildAppliedReceipt key object content time) =
        .ok ⟨object, Sha256.digest content, time⟩) ∧
    ∀ {σ : Type} (store : ReceiptStore σ) (s : σ) signer expected content plaintext,
      let run := (verifyAndRecordAppliedReceipt signer expected content plaintext).exec store.handle s
      (run.calls = [.record expected] ↔ WellFormed plaintext ∧ Signed signer plaintext ∧
        Confirms plaintext expected ∧ ∀ bytes ∈ content, Covers plaintext bytes) ∧
      (run.calls = [.record expected] → ∃ receipt,
        verifyAppliedReceipt signer plaintext = .ok receipt ∧
        run.result = ((store.record expected s).fst.mapError .store).map (receipt, ·) ∧
        run.state = (store.record expected s).snd) ∧
      (run.calls ≠ [.record expected] → run.calls = [] ∧ run.state = s) ∧
      -- The first check which fails determines the error.
      (¬WellFormed plaintext → run.result = .error (.crypto .malformed)) ∧
      (WellFormed plaintext → ¬Signed signer plaintext →
        run.result = .error (.crypto .authenticationFailed)) ∧
      (WellFormed plaintext → Signed signer plaintext → ¬Confirms plaintext expected →
        run.result = .error .objectMismatch) ∧
      (WellFormed plaintext → Signed signer plaintext → Confirms plaintext expected →
        ¬(∀ bytes ∈ content, Covers plaintext bytes) → run.result = .error .contentMismatch) := by
  refine ⟨Crypto.verifyAppliedReceipt_buildAppliedReceipt, ?_⟩
  intro σ store s signer expected content plaintext
  by_cases hw : WellFormed plaintext
  case neg =>
    rw [verifyAndRecord_of_error (Crypto.verifyAppliedReceipt_malformed hw)]
    simp [hw, Program.exec]
  case pos =>
    by_cases hs : Signed signer plaintext
    case neg =>
      rw [verifyAndRecord_of_error ((hw.verifyAppliedReceipt_eq hw.length).right hs)]
      simp [hw, hs, Program.exec]
    case pos =>
      have hr := (hw.verifyAppliedReceipt_eq hw.length).left hs
      have hc : (∀ bytes ∈ content, Covers plaintext bytes) ↔ ¬∃ bytes ∈ content,
          (AppliedReceipt.read plaintext hw.length).appliedContentDigest ≠ Crypto.contentDigest bytes := by
        simp [covers_iff hw.length]
      rw [verifyAndRecord_of_ok hr, confirms_iff hw.length, hr]
      generalize (∀ bytes ∈ content, Covers plaintext bytes) = covered at hc
      by_cases ho : (AppliedReceipt.read plaintext hw.length).confirmed = expected
      case neg => simp [hw, hs, ho, Program.exec]
      case pos =>
        rw [if_neg (not_not.mpr ho)]
        by_cases hd : covered
        case pos =>
          rw [if_neg (hc.mp hd)]
          simp [hw, hs, ho, hd, Program.exec, ReceiptStore.handle]
        case neg =>
          rw [if_pos (not_not.mp (hc.not.mp hd))]
          simp [hw, hs, ho, hd, Program.exec]

namespace Confirmed

-- A store which keeps what it has recorded.
def listStore : ReceiptStore (List ConfirmedObject) where
  record confirmed s := (.ok .recorded, s ++ [confirmed])

def key : ByteVec 32 := .replicate 32 5

def object : ConfirmedObject :=
  ⟨⟨.replicate 32 1⟩, ⟨.replicate 32 2⟩, ⟨.replicate 32 3⟩, ⟨.replicate 32 4⟩⟩

end Confirmed

open Confirmed in
attribute [local instance] Toy.ed25519 Toy.lawfulEd25519 Toy.sha256 in
-- The receipt for a single byte is built, verified and recorded.
theorem built_receipt_recorded :
    ∃ plaintext, plaintext = buildAppliedReceipt key object [7] 5 ∧
      verifyAppliedReceipt (principalOf key) plaintext = .ok ⟨object, Sha256.digest [7], 5⟩ ∧
      ((verifyAndRecordAppliedReceipt (principalOf key) object (some [7]) plaintext).exec
        listStore.handle []).state = [object] := by
  obtain ⟨hv, hr⟩ := receipts_accepted_exactly
  have hw : WellFormed (buildAppliedReceipt key object [7] 5) := ⟨by decide +kernel, rfl, rfl⟩
  have hs : Signed (principalOf key) (buildAppliedReceipt key object [7] 5) :=
    ⟨key, Toy.signature key (Crypto.receiptDomain ++ (buildAppliedReceipt key object [7] 5).take 173),
      rfl, by decide +kernel, decide_eq_true rfl⟩
  have hc : Confirms (buildAppliedReceipt key object [7] 5) object :=
    ⟨by decide +kernel, by decide +kernel, by decide +kernel, by decide +kernel⟩
  have hd : Covers (buildAppliedReceipt key object [7] 5) [7] := by
    unfold Covers
    decide +kernel
  obtain ⟨ha, ho, _⟩ := hr listStore [] (principalOf key) object (some [7])
    (buildAppliedReceipt key object [7] 5)
  obtain ⟨_, _, _, hl⟩ := ho (ha.mpr ⟨hw, hs, hc, by rintro _ ⟨⟩; exact hd⟩)
  exact ⟨_, rfl, hv key object [7] 5, hl⟩

end Client
end Cofferwire
