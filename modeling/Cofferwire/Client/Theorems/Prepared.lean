import Cofferwire.Client.Theorems.Poll
import Cofferwire.Service.Exchange

namespace Cofferwire.Client

open Codec (decodeRequest decodeRequest_eq_ok encodeAuthenticatedRequest encodeRequest
  encodeRequest_length_le)

section

variable [Ed25519]

theorem verifyRequest_eq_ok :
    verifyRequest principal authenticated auth = .ok () ↔
      verifyProof relayAuthDomain principal.asBytes authenticated auth := by
  unfold verifyRequest
  split <;> simp_all

-- The frame is decoded as the request which is meant, and has been signed by the principal which the
-- relay takes from it.
structure Acceptable (requestId : RequestId) (request : Request) (frame : Bytes) : Prop where
  bounded : frame.length ≤ maxFrameBytes
  decoded : ∃ auth,
    decodeRequest frame =
      .ok ⟨⟨requestId, request, auth⟩, encodeAuthenticatedRequest requestId request⟩ ∧
    verifyRequest (requestPrincipal request) (encodeAuthenticatedRequest requestId request) auth =
      .ok ()

theorem acceptable_iff :
    Acceptable requestId request frame ↔ ∃ auth, frame = encodeRequest ⟨requestId, request, auth⟩ ∧
      verifyRequest (requestPrincipal request) (encodeAuthenticatedRequest requestId request) auth =
        .ok () where
  mp h := by
    have ⟨auth, hd, hv⟩ := h.decoded
    exact ⟨auth, (decodeRequest_eq_ok.mp hd).left, hv⟩
  mpr := by
    rintro ⟨auth, rfl, hv⟩
    exact ⟨encodeRequest_length_le, auth, decodeRequest_eq_ok.mpr ⟨rfl, rfl⟩, hv⟩

theorem acceptable_signedFrame [LawfulEd25519] {key : Ed25519.SigningKey}
    (h : requestPrincipal request = principalOf key) :
    Acceptable requestId request (signedFrame key requestId request) := by
  refine acceptable_iff.mpr ⟨_, rfl, ?_⟩
  rw [h]
  exact verifyRequest_eq_ok.mpr (verifyProof_signProof key)

variable [Hpke] {sender : Sender}

theorem of_prepare_eq_ok
    (h : sender.prepare requestId messageId plaintext ttl rng = .ok prepared) :
    ∃ payload,
      sealMessage sender.encryptionKey sender.recipientEncryptionKey (sender.context messageId)
        plaintext rng = .ok payload ∧
      prepared = ⟨requestId, messageId, signedFrame sender.signingKey requestId
        (.send ⟨sender.queueId, sender.sender, messageId, payload, ttl⟩)⟩ := by
  unfold Sender.prepare at h
  split at h <;> cases h
  case h_2 payload hs => exact ⟨payload, hs, rfl⟩

-- Exactly the acceptable frames which send a message of the sender are restored.
theorem restore_eq_ok :
    sender.restore bytes = .ok prepared ↔ prepared.asBytes = bytes ∧ ∃ send : SendRequest,
      send.queueId = sender.queueId ∧ send.sender = sender.sender ∧
      send.messageId = prepared.messageId ∧ Acceptable prepared.requestId (.send send) bytes where
  mp h := by
    unfold Sender.restore at h
    split at h
    case h_1 => cases h
    case h_2 decoded hd =>
      split at h
      case h_1 => cases h
      case h_2 hv =>
        split at h
        case h_2 => cases h
        case h_1 send hs =>
          split at h <;> cases h
          case isTrue hq =>
            obtain ⟨rfl, ha⟩ := decodeRequest_eq_ok.mp hd
            obtain ⟨⟨requestId, request, auth⟩, authenticated⟩ := decoded
            dsimp only at ha hs hv
            subst ha hs
            rw [←hq.right] at hv
            exact ⟨rfl, send, hq.left, hq.right, rfl, acceptable_iff.mpr ⟨auth, rfl, hv⟩⟩
  mpr := by
    rintro ⟨rfl, send, hq, hs, hm, ha⟩
    obtain ⟨auth, hd, hv⟩ := ha.decoded
    rw [requestPrincipal, hs] at hv
    simp only [Sender.restore, hd, hv, hq, hs, and_self, if_true, hm]
    rfl

theorem restore_eq_error (h : sender.restore bytes = .error e) : e = .invalidPreparedSend := by
  unfold Sender.restore at h
  split at h
  case h_1 => exact (Except.error.inj h).symm
  case h_2 =>
    split at h
    case h_1 => exact (Except.error.inj h).symm
    case h_2 =>
      split at h
      case h_2 => exact (Except.error.inj h).symm
      case h_1 =>
        split at h
        case isTrue  => cases h
        case isFalse => exact (Except.error.inj h).symm

-- Prepared messages are restored as they were, and nothing else is.
theorem prepared_sends_restored [LawfulEd25519] (sender : Sender) :
    (∀ requestId messageId plaintext ttl rng prepared,
      sender.prepare requestId messageId plaintext ttl rng = .ok prepared →
      sender.restore prepared.asBytes = .ok prepared) ∧
    (∀ bytes prepared, sender.restore bytes = .ok prepared ↔
      prepared.asBytes = bytes ∧ ∃ (send : SendRequest) (auth : Auth),
        bytes = encodeRequest ⟨prepared.requestId, .send send, auth⟩ ∧
        send.messageId = prepared.messageId ∧
        send.queueId = sender.queueId ∧
        send.sender = sender.sender ∧
        verifyRequest sender.sender (encodeAuthenticatedRequest prepared.requestId (.send send)) auth =
          .ok ()) ∧
    (∀ bytes, (∀ prepared, sender.restore bytes ≠ .ok prepared) →
      sender.restore bytes = .error .invalidPreparedSend) := by
  refine ⟨?_, ?_, ?_⟩
  · intro requestId messageId plaintext ttl rng prepared h
    obtain ⟨payload, _, rfl⟩ := of_prepare_eq_ok h
    exact restore_eq_ok.mpr ⟨rfl, _, rfl, rfl, rfl, acceptable_signedFrame sender.principal.symm⟩
  · intro bytes prepared
    simp only [restore_eq_ok, acceptable_iff, requestPrincipal]
    refine and_congr_right fun _ => exists_congr fun send => ?_
    constructor
    · rintro ⟨hq, hs, hm, auth, hb, hv⟩
      exact ⟨auth, hb, hm, hq, hs, hs ▸ hv⟩
    · rintro ⟨auth, hb, hm, hq, hs, hv⟩
      exact ⟨hq, hs, hm, auth, hb, hs ▸ hv⟩
  · intro bytes h
    cases hr : sender.restore bytes
    case error e => rw [restore_eq_error hr]
    case ok q    => exact absurd hr (h q)

end

namespace Persisted

attribute [local instance] Toy.ed25519 Toy.hpke

def key : ByteVec 32 := .replicate 32 1

def sender : Sender where
  queueId                := ⟨key⟩
  sender                 := ⟨key⟩
  recipient              := ⟨key⟩
  signingKey             := key
  encryptionKey          := ⟨key⟩
  recipientEncryptionKey := ⟨key⟩
  principal              := rfl

end Persisted

open Persisted in
attribute [local instance] Toy.ed25519 Toy.hpke Toy.lawfulEd25519 in
-- A message of one byte with the longest lifetime.
theorem prepared_byte_restored :
    ∃ prepared, sender.prepare ⟨.replicate 16 0⟩ ⟨key⟩ [7] (.ofNat (2 ^ 64 - 1)) () =
      .ok prepared ∧ sender.restore prepared.asBytes = .ok prepared := by
  have hs : (sealMessage sender.encryptionKey sender.recipientEncryptionKey
      (sender.context ⟨key⟩) [7] ()).toOption.isSome := by
    decide +kernel
  cases hp : sender.prepare ⟨.replicate 16 0⟩ ⟨key⟩ [7] (.ofNat (2 ^ 64 - 1)) ()
  case ok prepared => exact ⟨prepared, rfl, (prepared_sends_restored sender).left _ _ _ _ _ _ hp⟩
  case error =>
    unfold Sender.prepare at hp
    split at hp
    case h_1 he => rw [he] at hs; cases hs
    case h_2 => cases hp

end Cofferwire.Client
