import Cofferwire.Codec.Theorems.Blob
import Cofferwire.Codec.Theorems.Queue
import Cofferwire.Crypto.Blob
import Cofferwire.Crypto.Message
import Cofferwire.Crypto.Receipt
import Cofferwire.Toy

namespace Cofferwire.Crypto

open Codec (encodeAuthenticatedRequest encodeAuthenticatedRequest_inj)
open Codec.Blob (encodeBlobAuthenticatedRequest encodeBlobAuthenticatedRequest_inj)

-- Two domains of which none continues the other one.
theorem append_ne_append {domain domain' : Bytes} (h : ¬domain <+: domain') (h' : ¬domain' <+: domain)
    (bytes bytes' : Bytes) : domain ++ bytes ≠ domain' ++ bytes' := by
  intro he
  have hp : domain' <+: domain ++ bytes := he ▸ List.prefix_append ..
  rcases List.prefix_or_prefix_of_prefix (List.prefix_append domain bytes) hp with hp | hp
  · exact h hp
  · exact h' hp

theorem relay_ne_blob (bytes bytes' : Bytes) : relayAuthDomain ++ bytes ≠ blobRequestDomain ++ bytes' :=
  append_ne_append (by decide) (by decide) _ _

theorem relay_ne_receipt (bytes bytes' : Bytes) : relayAuthDomain ++ bytes ≠ receiptDomain ++ bytes' :=
  append_ne_append (by decide) (by decide) _ _

theorem blob_ne_receipt (bytes bytes' : Bytes) : blobRequestDomain ++ bytes ≠ receiptDomain ++ bytes' :=
  append_ne_append (by decide) (by decide) _ _

-- The contexts for the key and for the data have different domains.
theorem info_ne_aad (context context' : MessageContext) :
    contextBytes hpkeInfoDomain context ≠ contextBytes hpkeAadDomain context' := by
  simp only [contextBytes, List.append_assoc]
  exact append_ne_append (by decide) (by decide) _ _

theorem aad_inj (h : aad salt size chunkSize count index = aad salt' size' chunkSize' count' index') :
    salt = salt' ∧ size = size' ∧ chunkSize = chunkSize' ∧ count = count' ∧ index = index' := by
  have hl {w m n} : (BigEndian.encode w m).length = (BigEndian.encode w n).length := by
    rw [BigEndian.encode_length, BigEndian.encode_length]
  simp only [aad, List.append_assoc, List.append_cancel_left_eq] at h
  obtain ⟨hs, h⟩ := List.append_inj h (salt.size.trans salt'.size.symm)
  obtain ⟨hp, h⟩ := List.append_inj h hl
  obtain ⟨hz, h⟩ := List.append_inj h hl
  obtain ⟨hc, hi⟩ := List.append_inj h hl
  have hv {v v' : UInt32} (h : BigEndian.encode 4 v.toNat = BigEndian.encode 4 v'.toNat) : v = v' :=
    UInt32.toNat_inj.mp (BigEndian.encode_inj v.toNat_lt v'.toNat_lt h)
  have hp := UInt64.toNat_inj.mp (BigEndian.encode_inj size.toNat_lt size'.toNat_lt hp)
  exact ⟨ByteVec.ext hs, hp, hv hz, hv hc, hv hi⟩

namespace AppliedReceipt

theorem signedFields_inj {receipt receipt' : AppliedReceipt}
    (h : receipt.signedFields = receipt'.signedFields) : receipt = receipt' := by
  obtain ⟨⟨⟨q⟩, ⟨s⟩, ⟨r⟩, ⟨m⟩⟩, d, t⟩ := receipt
  obtain ⟨⟨⟨q'⟩, ⟨s'⟩, ⟨r'⟩, ⟨m'⟩⟩, d', t'⟩ := receipt'
  simp only [signedFields, List.append_assoc, List.append_cancel_left_eq] at h
  obtain ⟨hq, h⟩ := List.append_inj h (q.size.trans q'.size.symm)
  obtain ⟨hs, h⟩ := List.append_inj h (s.size.trans s'.size.symm)
  obtain ⟨hr, h⟩ := List.append_inj h (r.size.trans r'.size.symm)
  obtain ⟨hm, h⟩ := List.append_inj h (m.size.trans m'.size.symm)
  obtain ⟨hd, ht⟩ := List.append_inj h (d.size.trans d'.size.symm)
  have ht := UInt64.toNat_inj.mp (BigEndian.encode_inj t.toNat_lt t'.toNat_lt ht)
  rw [ByteVec.ext hq, ByteVec.ext hs, ByteVec.ext hr, ByteVec.ext hm, ByteVec.ext hd, ht]

theorem take_append_slice {bytes : Bytes} (h : i ≤ j) : bytes.take i ++ slice bytes i j = bytes.take j := by
  obtain ⟨n, rfl⟩ := Nat.exists_eq_add_of_le h
  rw [slice, Nat.add_sub_cancel_left, List.take_add]

-- The fields which are read from a receipt are all of what has been signed.
theorem signedFields_read (h : plaintext.length = receiptLen) (hm : plaintext.take 4 = receiptMagic)
    (ht : plaintext[4]? = some appliedType) :
    (read plaintext h).signedFields = plaintext.take signedLen := by
  have h5 : receiptMagic ++ [appliedType] = plaintext.take 5 := by
    rw [List.take_add_one, ht, hm]
    rfl
  have h8 : BigEndian.encode 8 (UInt64.ofNat (BigEndian.decode (slice plaintext 165 173))).toNat =
      slice plaintext 165 173 :=
    ((BlobManifest.ofNat_decode_eq_iff₈ (slice_length (by rw [h, receiptLen]; omega))).mp rfl).symm
  have ha (i : Fin 5) : plaintext.take (5 + 32 * i) ++ (read32 plaintext h i).toBytes =
      plaintext.take (5 + 32 * i + 32) :=
    take_append_slice (by omega)
  have h0 : plaintext.take 5 ++ _ = plaintext.take 37 := ha 0
  have h1 : plaintext.take 37 ++ _ = plaintext.take 69 := ha 1
  have h2 : plaintext.take 69 ++ _ = plaintext.take 101 := ha 2
  have h3 : plaintext.take 101 ++ _ = plaintext.take 133 := ha 3
  have h4 : plaintext.take 133 ++ _ = plaintext.take 165 := ha 4
  simp only [signedFields, read, h5, h0, h1, h2, h3, h4, h8]
  exact take_append_slice (by decide)

end AppliedReceipt

-- What a signature can be asked to prove.
inductive Statement
  | request (requestId : RequestId) (request : Request)
  | blobRequest (requestId : RequestId) (request : BlobRequest)
  | receipt (receipt : AppliedReceipt)

namespace Statement

-- The bytes which are signed for it.
def message : Statement → Bytes
  | request requestId r     => relayAuthDomain ++ encodeAuthenticatedRequest requestId r
  | blobRequest requestId r => blobRequestDomain ++ encodeBlobAuthenticatedRequest requestId r
  | receipt r               => receiptDomain ++ r.signedFields

theorem message_inj {s s' : Statement} (h : s.message = s'.message) : s = s' := by
  cases s <;> cases s'
  case request.request =>
    obtain ⟨rfl, rfl⟩ := encodeAuthenticatedRequest_inj (List.append_cancel_left h)
    rfl
  case blobRequest.blobRequest =>
    obtain ⟨rfl, rfl⟩ := encodeBlobAuthenticatedRequest_inj (List.append_cancel_left h)
    rfl
  case receipt.receipt =>
    cases AppliedReceipt.signedFields_inj (List.append_cancel_left h)
    rfl
  case request.blobRequest => exact absurd h (relay_ne_blob _ _)
  case blobRequest.request => exact absurd h.symm (relay_ne_blob _ _)
  case request.receipt     => exact absurd h (relay_ne_receipt _ _)
  case receipt.request     => exact absurd h.symm (relay_ne_receipt _ _)
  case blobRequest.receipt => exact absurd h (blob_ne_receipt _ _)
  case receipt.blobRequest => exact absurd h.symm (blob_ne_receipt _ _)

variable [Ed25519] {key : Ed25519.SigningKey} {signature : ByteVec 64}

-- The signature passes as the proof of a statement under the public part of the key.
def Accepts (key : Ed25519.SigningKey) (signature : ByteVec 64) : Statement → Prop
  | request requestId r => ∃ auth : Auth, auth.asBytes.drop 4 = signature.toBytes ∧
    verifyRequest (principalOf key) (encodeAuthenticatedRequest requestId r) auth = .ok ()
  | blobRequest requestId r => ∃ auth : Auth, auth.asBytes.drop 4 = signature.toBytes ∧
    verifyBlobRequest (capability key) (encodeBlobAuthenticatedRequest requestId r) auth = .ok ()
  | receipt r => ∃ plaintext, plaintext.drop signedLen = signature.toBytes ∧
    verifyAppliedReceipt (principalOf key) plaintext = .ok r

theorem of_verifyProof {auth : Auth} (hs : auth.asBytes.drop 4 = signature.toBytes)
    (h : verifyProof domain (Ed25519.toBytes (Ed25519.verifyingKey key)) authenticated auth) :
    ∃ verifyingKey, Ed25519.fromBytes (Ed25519.toBytes (Ed25519.verifyingKey key)) = some verifyingKey ∧
      Ed25519.verifyStrict verifyingKey (domain ++ authenticated) signature := by
  unfold verifyProof at h
  dsimp only at h
  rw [hs, ByteVec.tryFrom_eq_some.mpr rfl] at h
  split at h
  case isTrue => cases h
  case isFalse =>
    split at h
    case h_1 hk hv =>
      cases hv
      exact ⟨_, hk, h⟩
    case h_2 => cases h

theorem of_verifyAppliedReceipt {plaintext : Bytes} (hs : plaintext.drop signedLen = signature.toBytes)
    (h : verifyAppliedReceipt (principalOf key) plaintext = .ok r) :
    ∃ verifyingKey, Ed25519.fromBytes (Ed25519.toBytes (Ed25519.verifyingKey key)) = some verifyingKey ∧
      Ed25519.verifyStrict verifyingKey (receiptDomain ++ r.signedFields) signature := by
  unfold verifyAppliedReceipt at h
  rw [hs, ByteVec.tryFrom_eq_some.mpr rfl] at h
  split at h
  case isFalse => cases h
  case isTrue hl =>
    obtain ⟨hm, h⟩ := Except.ite_error_eq_ok.mp h
    obtain ⟨hm, ht⟩ := not_or.mp hm
    split at h
    case h_2 => cases h
    case h_1 hk hv =>
      obtain rfl := Option.some.inj hv
      split at h <;> cases h
      case isTrue hv =>
        rw [AppliedReceipt.signedFields_read hl (not_not.mp hm) (not_not.mp ht)]
        exact ⟨_, hk, hv⟩

-- Whatever is verified, it is the message of the statement.
theorem Accepts.verifyStrict {s : Statement} (h : s.Accepts key signature) :
    ∃ verifyingKey, Ed25519.fromBytes (Ed25519.toBytes (Ed25519.verifyingKey key)) = some verifyingKey ∧
      Ed25519.verifyStrict verifyingKey s.message signature := by
  cases s
  case request =>
    obtain ⟨auth, hs, h⟩ := h
    unfold verifyRequest at h
    split at h <;> cases h
    case isTrue h => exact of_verifyProof hs h
  case blobRequest =>
    obtain ⟨auth, hs, h⟩ := h
    unfold verifyBlobRequest at h
    split at h <;> cases h
    case isTrue h => exact of_verifyProof hs h
  case receipt =>
    obtain ⟨plaintext, hs, h⟩ := h
    exact of_verifyAppliedReceipt hs h

end Statement

-- Among some messages, signatures are only accepted for the message which has been signed.
def Unforged [Ed25519] (key : Ed25519.SigningKey) (messages : Set Bytes) : Prop :=
  ∀ verifyingKey, Ed25519.fromBytes (Ed25519.toBytes (Ed25519.verifyingKey key)) = some verifyingKey →
    ∀ m ∈ messages, ∀ m' ∈ messages,
      Ed25519.verifyStrict verifyingKey m (Ed25519.sign key m') → m = m'

-- A signature means one thing.
theorem signature_unambiguous [Ed25519] [Sha256] :
    (∀ bytes bytes' : Bytes, relayAuthDomain ++ bytes ≠ blobRequestDomain ++ bytes' ∧
      relayAuthDomain ++ bytes ≠ receiptDomain ++ bytes' ∧
      blobRequestDomain ++ bytes ≠ receiptDomain ++ bytes') ∧
    (∀ s s' : Statement, s.message = s'.message → s = s') ∧
    (∀ context context', contextBytes hpkeInfoDomain context ≠ contextBytes hpkeAadDomain context') ∧
    (∀ context context', contextBytes hpkeInfoDomain context = contextBytes hpkeInfoDomain context' →
      context = context') ∧
    (∀ context context', contextBytes hpkeAadDomain context = contextBytes hpkeAadDomain context' →
      context = context') ∧
    (∀ salt size chunkSize count index salt' size' chunkSize' count' index',
      aad salt size chunkSize count index = aad salt' size' chunkSize' count' index' →
      salt = salt' ∧ size = size' ∧ chunkSize = chunkSize' ∧ count = count' ∧ index = index') ∧
    -- The messages are those which are signed.
    (∀ key requestId request, (signRequest key (encodeAuthenticatedRequest requestId request)).asBytes =
      profileId ++ ed25519Id ++ (Ed25519.sign key (Statement.request requestId request).message).toBytes) ∧
    (∀ key requestId request,
      (signBlobRequest key (encodeBlobAuthenticatedRequest requestId request)).asBytes = profileId ++
        ed25519Id ++ (Ed25519.sign key (Statement.blobRequest requestId request).message).toBytes) ∧
    (∀ key confirmed plaintext time,
      let receipt : AppliedReceipt := ⟨confirmed, contentDigest plaintext, time⟩
      buildAppliedReceipt key confirmed plaintext time =
        receipt.signedFields ++ (Ed25519.sign key (Statement.receipt receipt).message).toBytes) ∧
    -- A signature for one of them does not pass for another one.
    (∀ key messages, Unforged key messages → ∀ s s' : Statement, s.message ∈ messages →
      s'.message ∈ messages → s.Accepts key (Ed25519.sign key s'.message) → s = s') := by
  refine ⟨fun _ _ => ⟨relay_ne_blob _ _, relay_ne_receipt _ _, blob_ne_receipt _ _⟩,
    fun _ _ => Statement.message_inj, info_ne_aad, fun _ _ => contextBytes_inj.mp,
    fun _ _ => contextBytes_inj.mp, fun _ _ _ _ _ _ _ _ _ _ => aad_inj, fun _ _ _ => rfl, fun _ _ _ => rfl,
    fun _ _ _ _ => rfl, fun key messages hu s s' hs hs' ha => ?_⟩
  obtain ⟨verifyingKey, hk, hv⟩ := ha.verifyStrict
  exact Statement.message_inj (hu verifyingKey hk _ hs _ hs' hv)

-- Requests for a queue and for a blob, and a receipt are signed with the same key.
namespace Shared

attribute [local instance] Toy.ed25519 Toy.sha256

def key : ByteVec 32 := .replicate 32 1

def fetch (byte : UInt8) : Statement :=
  .request ⟨.replicate 16 byte⟩ (.fetch ⟨⟨.replicate 32 0⟩, principalOf key⟩)

def getManifest : Statement :=
  .blobRequest ⟨.replicate 16 0⟩ (.getManifest ⟨.replicate 32 0⟩ (capability key))

def receipt : Statement :=
  .receipt ⟨⟨⟨.replicate 32 0⟩, principalOf key, principalOf key, ⟨.replicate 32 0⟩⟩, .replicate 32 0, 0⟩

def statements : List Statement :=
  [fetch 0, fetch 1, getManifest, receipt]

def messages : Set Bytes :=
  {bytes | bytes ∈ statements.map Statement.message}

theorem unforged : Unforged key messages := by
  rintro _ ⟨⟩ m hm m' hm' hv
  have hs : Toy.signature key m' = Toy.signature key m := of_decide_eq_true hv
  have hd : Toy.digest m = Toy.digest m' :=
    ByteVec.ext (List.append_cancel_left (congrArg ByteVec.toBytes hs)).symm
  have hn : ((statements.map Statement.message).map Toy.digest).Nodup := by decide +kernel
  exact List.inj_on_of_nodup_map hn hm hm' hd

attribute [local instance] Toy.lawfulEd25519 in
theorem signature_accepted_once :
    (fetch 0).Accepts key (Ed25519.sign key (fetch 0).message) ∧
    ∀ s ∈ statements, s.Accepts key (Ed25519.sign key (fetch 0).message) → s = fetch 0 := by
  refine ⟨⟨_, rfl, if_pos (verifyProof_signProof _)⟩, fun s hs ha => ?_⟩
  obtain ⟨_, _, _, _, _, _, _, _, _, h⟩ := signature_unambiguous
  exact h key messages unforged s (fetch 0) (List.mem_map_of_mem hs) (.head _) ha

end Shared
end Cofferwire.Crypto
