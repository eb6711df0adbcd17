import Cofferwire.Codec.Theorems.Blob
import Cofferwire.Codec.Theorems.Queue
import Cofferwire.Relay.Theorems.QueueAccess
import Cofferwire.Service.Theorems.History

namespace Cofferwire

open Codec (encodeBytes decodeRequest)
open Codec.Blob (decodeBlobRequest)

namespace DurableRelay

-- The principal under which a request has to be verified in order to change a queue.
inductive Permits (tables : QueueTables) (q : QueueId) : Request → Principal → Prop
  | createQueue (new : queue tables q = none) (h : create.queueId = q) :
    Permits tables q (.createQueue create) create.sender
  | send (found : queue tables q = some row) (h : send.queueId = q) :
    Permits tables q (.send send) ⟨row.sender⟩
  | fetch (found : queue tables q = some row) (h : fetch.queueId = q) :
    Permits tables q (.fetch fetch) ⟨row.recipient⟩
  | ack {ack : AckRequest} (found : queue tables q = some row) (h : ack.queueId = q) :
    Permits tables q (.ack ack) ⟨row.recipient⟩
  | deleteQueue (found : queue tables q = some row) (h : delete.queueId = q) :
    Permits tables q (.deleteQueue delete) ⟨row.recipient⟩

-- The tables agree on an upload and its staged chunks.
structure BlobTables.AgreeOn (tables tables' : BlobTables) (id : UploadId) : Prop where
  upload : DurableRelay.upload tables' id = DurableRelay.upload tables id
  staged : tables'.uploadChunks.filter (·.uploadId = id.asBytes) =
    tables.uploadChunks.filter (·.uploadId = id.asBytes)

def grant (tables : BlobTables) (id : UploadId) : Option GrantRow :=
  Table.lookup GrantRow.grantId id.asBytes tables.grants

-- The capability under which a request has to be verified in order to change an upload.
inductive PermitsUpload (tables : BlobTables) (id : UploadId) : BlobRequest → CapabilityId → Prop
  | beginUpload (new : upload tables id = none) :
    PermitsUpload tables id (.beginUpload id capabilities manifest ttl) capabilities.upload
  | putChunk (found : upload tables id = some row) :
    PermitsUpload tables id (.putChunk id cap index ciphertext) ⟨row.uploadCap⟩
  | commit (found : upload tables id = some row) :
    PermitsUpload tables id (.commit id cap blobId) ⟨row.uploadCap⟩

-- The same for a grant, which has the identifier of its upload.
inductive PermitsGrant (tables : BlobTables) (id : UploadId) : BlobRequest → CapabilityId → Prop
  | commit (new : grant tables id = none) (found : upload tables id = some row) :
    PermitsGrant tables id (.commit id cap blobId) ⟨row.uploadCap⟩
  | renew (found : grant tables id = some row) :
    PermitsGrant tables id (.renew ⟨row.blobId⟩ cap ttl) ⟨row.renewCap⟩
  | delete (found : grant tables id = some row) :
    PermitsGrant tables id (.delete ⟨row.blobId⟩ cap) ⟨row.deleteCap⟩

theorem executeQueueRequest_permits {tables : QueueTables} (hv : tables.Valid)
    (h : executeQueueRequest request now tables = .ok (body, tables')) (q : QueueId) :
    tables.AgreeOn tables' q ∨ Permits tables q request (requestPrincipal request) := by
  cases request <;> simp only [executeQueueRequest, requestPrincipal] at h ⊢
  case createQueue create =>
    split at h
    case h_1 => cases h
    case h_2 =>
      obtain ⟨_, hx, h⟩ := Except.bind_eq_ok.mp h
      cases h
      obtain rfl | ⟨hn, ho⟩ := createQueueTx_eq_ok hx
      · exact .inl .refl
      · by_cases hq : create.queueId = q
        case pos => exact .inr (.createQueue (hq ▸ hn) hq)
        case neg => exact .inl (ho q (Ne.symm hq))
  case send send =>
    split at h
    case h_1 => cases h
    case h_2 =>
      obtain ⟨_, hx, h⟩ := Except.bind_eq_ok.mp h
      cases h
      obtain ha | ⟨hq, _, hf, hp⟩ := (sendTx_accessed hx).agreeOn_or_permitted q
      · exact .inl ha
      · exact .inr (hp ▸ .send hf hq)
  case fetch fetch =>
    obtain ⟨⟨delivery, tables''⟩, hx, h⟩ := Except.bind_eq_ok.mp h
    obtain rfl : tables'' = tables' := by
      split at h
      case h_1 => cases h; rfl
      case h_2 => split at h <;> cases h; rfl
    obtain ha | ⟨hq, _, hf, hp⟩ := (fetchTx_accessed hv hx).agreeOn_or_permitted q
    · exact .inl ha
    · exact .inr (hp ▸ .fetch hf hq)
  case ack ack =>
    obtain ⟨_, hx, h⟩ := Except.bind_eq_ok.mp h
    cases h
    obtain ha | ⟨hq, _, hf, hp⟩ := (acknowledgeTx_accessed hv hx).agreeOn_or_permitted q
    · exact .inl ha
    · exact .inr (hp ▸ .ack hf hq)
  case deleteQueue delete =>
    obtain ⟨_, hx, h⟩ := Except.bind_eq_ok.mp h
    cases h
    obtain ha | ⟨hq, _, hf, hp⟩ := (deleteQueueTx_accessed hx).agreeOn_or_permitted q
    · exact .inl ha
    · exact .inr (hp ▸ .deleteQueue hf hq)

variable {tables tables' : BlobTables}

theorem found_of_opens (h : Opens tables uploadId cap now row) (hk : tables.Keyed) :
    upload tables uploadId = some row ∧ cap = ⟨row.uploadCap⟩ :=
  ⟨(Table.lookup_eq_some hk.uploads).mpr ⟨h.mem, h.uploadId⟩,
    congrArg CapabilityId.fromBytes h.cap.symm⟩

theorem uploadId_asBytes_ne {id id' : UploadId} (h : id ≠ id') : id.asBytes ≠ id'.asBytes :=
  mt (congrArg UploadId.fromBytes) h

-- An update only changes the grants which match it.
theorem grant_update {f : GrantRow → GrantRow} {blobId : BlobId} {id : UploadId}
    (hf : ∀ row, (f row).grantId = row.grantId)
    (hp : ∀ row, p row → row.matches column blobId cap) :
    grant { tables with grants := Table.update p f tables.grants } id = grant tables id ∨
      ∃ row, grant tables id = some row ∧ blobId = ⟨row.blobId⟩ ∧ cap = ⟨column row⟩ := by
  simp only [grant, Table.lookup_update hf]
  cases hl : Table.lookup GrantRow.grantId id.asBytes tables.grants
  case none => exact .inl rfl
  case some row =>
    by_cases h : p row
    case neg => exact .inl (by simp [h])
    case pos =>
      have hm := hp row h
      simp only [GrantRow.matches, decide_eq_true_eq] at hm
      exact .inr ⟨row, rfl, congrArg BlobId.fromBytes hm.left.symm,
        congrArg CapabilityId.fromBytes hm.right.symm⟩

variable [Sha256]

theorem upload_publish_of_ne (hi : row.uploadId ≠ uploadId.asBytes) :
    upload (tables.publish row manifest) uploadId = upload tables uploadId := by
  simp only [upload, BlobTables.publish]
  rw [Table.lookup_update (by simp)]
  cases hl : Table.lookup UploadRow.uploadId uploadId.asBytes tables.uploads
  case none => rfl
  case some row' =>
    have hk := Table.key_of_lookup hl
    simp [hk, hi.symm]

theorem Change.agreeOn_or_permits (h : Change tables now request tables') (hk : tables.Keyed)
    (id : UploadId) :
    tables.AgreeOn tables' id ∨ PermitsUpload tables id request request.capability := by
  cases h
  case read   => exact .inl ⟨rfl, rfl⟩
  case renew  => exact .inl ⟨rfl, rfl⟩
  case delete => exact .inl ⟨rfl, rfl⟩
  case begin _ _ uploadId _ _ new _ =>
    by_cases hi : uploadId = id
    case pos => exact .inr (hi ▸ .beginUpload (Table.lookup_eq_none.mpr new))
    case neg => exact .inl ⟨Table.lookup_append_of_ne (uploadId_asBytes_ne hi), rfl⟩
  case put uploadId _ _ _ _ _ opens _ _ _ =>
    have ⟨hf, hc⟩ := found_of_opens opens hk
    by_cases hi : uploadId = id
    case pos => exact .inr (hc ▸ hi ▸ .putChunk hf)
    case neg => exact .inl ⟨rfl, by simp [uploadId_asBytes_ne hi]⟩
  case commit uploadId _ row _ opens _ _ =>
    have ⟨hf, hc⟩ := found_of_opens opens hk
    by_cases hi : uploadId = id
    case pos => exact .inr (hc ▸ hi ▸ .commit hf)
    case neg =>
      have hr := opens.uploadId.trans_ne (uploadId_asBytes_ne hi)
      exact .inl ⟨upload_publish_of_ne hr, rfl⟩

theorem Change.grant_or_permits (h : Change tables now request tables') (hk : tables.Keyed)
    (id : UploadId) :
    grant tables' id = grant tables id ∨ PermitsGrant tables id request request.capability := by
  cases h
  case read  => exact .inl rfl
  case begin => exact .inl rfl
  case put   => exact .inl rfl
  case commit uploadId _ row _ opens _ new =>
    have ⟨hf, hc⟩ := found_of_opens opens hk
    by_cases hi : uploadId = id
    case pos =>
      have hn : grant tables uploadId = none := Table.lookup_eq_none.mpr (opens.uploadId ▸ new)
      exact .inr (hc ▸ hi ▸ .commit hn hf)
    case neg =>
      have hr := opens.uploadId.trans_ne (uploadId_asBytes_ne hi)
      exact .inl (Table.lookup_append_of_ne hr)
  case renew =>
    refine Or.imp_right ?_ (grant_update (fun _ => rfl) fun _ h => (of_decide_eq_true h).left)
    rintro ⟨row, hf, rfl, rfl⟩
    exact .renew hf
  case delete =>
    refine Or.imp_right ?_ (grant_update (fun _ => rfl) fun _ h => h)
    rintro ⟨row, hf, rfl, rfl⟩
    exact .delete hf

end DurableRelay

namespace RelayService

open DurableRelay (Permits PermitsUpload PermitsGrant)

variable [Ed25519]

-- The frame decodes to a request, and its proof verifies under a given key over all the bytes which
-- precede the proof.
def SignedBy (bytes : Bytes) (request : Request) (principal : Principal) : Prop :=
  ∃ decoded, decodeRequest bytes = .ok decoded ∧ decoded.frame.request = request ∧
    bytes = decoded.authenticatedBytes ++ encodeBytes decoded.frame.auth.asBytes ∧
    verifyRequest principal decoded.authenticatedBytes decoded.frame.auth = .ok ()

def BlobSignedBy (bytes : Bytes) (request : BlobRequest) (capability : CapabilityId) : Prop :=
  ∃ decoded, decodeBlobRequest bytes = .ok decoded ∧ decoded.frame.request = request ∧
    bytes = decoded.authenticatedBytes ++ encodeBytes decoded.frame.auth.asBytes ∧
    verifyBlobRequest capability decoded.authenticatedBytes decoded.frame.auth = .ok ()

theorem Admissible.signedBy (h : Admissible bytes decoded) :
    SignedBy bytes decoded.frame.request (requestPrincipal decoded.frame.request) := by
  have ⟨hb, ha⟩ := Codec.decodeRequest_eq_ok.mp h.decode
  exact ⟨decoded, h.decode, rfl, ha ▸ hb, h.verify⟩

theorem AdmissibleBlob.signedBy (h : AdmissibleBlob bytes decoded) :
    BlobSignedBy bytes decoded.frame.request decoded.frame.request.capability := by
  have ⟨_, hb, ha⟩ := Codec.Blob.decodeBlobRequest_eq_ok.mp h.decode
  exact ⟨decoded, h.decode, rfl, ha ▸ hb, h.verify⟩

variable [Profile] [Sha256]

theorem exchangeAt_authorized {service : RelayService} (hv : Store.Valid service.relay.store)
    (hq : ¬service.relay.store.queue.AgreeOn
      (service.exchangeAt bytes now fault).snd.relay.store.queue q) :
    ∃ request principal, SignedBy bytes request principal ∧
      Permits service.relay.store.queue q request principal := by
  obtain he | ⟨_, _, _, decoded, _, _, hi, ha, he, hs⟩ | ⟨_, _, _, _, _, _, hi, _⟩ :=
    (step_step (.exchange bytes now fault) service).store_cases
  · exact absurd (congrArg DurableRelay.Store.queue he ▸ .refl) hq
  · cases hi
    obtain h | hp := DurableRelay.executeQueueRequest_permits hv.queue he q
    · exact absurd ((congrArg DurableRelay.Store.queue hs :) ▸ h) hq
    · exact ⟨_, _, ha.signedBy, hp⟩
  · cases hi

theorem exchangeBlobAt_cases (service : RelayService) (bytes : Bytes) (now : Timestamp)
    (fault : Bool) :
    (service.exchangeBlobAt bytes now fault).snd.relay.store.blob = service.relay.store.blob ∨
    ∃ request, BlobSignedBy bytes request request.capability ∧
      DurableRelay.Change service.relay.store.blob now request
        (service.exchangeBlobAt bytes now fault).snd.relay.store.blob := by
  obtain he | ⟨_, _, _, _, _, _, hi, _⟩ | ⟨_, _, _, decoded, _, _, hi, ha, he, hs⟩ :=
    (step_step (.exchangeBlob bytes now fault) service).store_cases
  · exact .inl (congrArg DurableRelay.Store.blob he)
  · cases hi
  · cases hi
    have hc := DurableRelay.executeBlobRequest_change he
    exact .inr ⟨_, ha.signedBy, (congrArg DurableRelay.Store.blob hs :) ▸ hc⟩

theorem state_changes_are_authorized (inputs : Nat → Input) (n : Nat) (bytes : Bytes)
    (now : Timestamp) (fault : Bool) :
    (∀ q, ¬(machine.state inputs n).relay.store.queue.AgreeOn
        ((machine.state inputs n).exchangeAt bytes now fault).snd.relay.store.queue q →
      ∃ request principal, SignedBy bytes request principal ∧
        Permits (machine.state inputs n).relay.store.queue q request principal) ∧
    (∀ id, ¬(machine.state inputs n).relay.store.blob.AgreeOn
        ((machine.state inputs n).exchangeBlobAt bytes now fault).snd.relay.store.blob id →
      ∃ request capability, BlobSignedBy bytes request capability ∧
        PermitsUpload (machine.state inputs n).relay.store.blob id request capability) ∧
    (∀ id, DurableRelay.grant
        ((machine.state inputs n).exchangeBlobAt bytes now fault).snd.relay.store.blob id ≠
        DurableRelay.grant (machine.state inputs n).relay.store.blob id →
      ∃ request capability, BlobSignedBy bytes request capability ∧
        PermitsGrant (machine.state inputs n).relay.store.blob id request capability) := by
  have hv := store_valid inputs n
  refine ⟨fun q => exchangeAt_authorized hv, fun id hu => ?_, fun id hg => ?_⟩
  · obtain he | ⟨request, hs, hc⟩ := exchangeBlobAt_cases (machine.state inputs n) bytes now fault
    · exact absurd (he ▸ ⟨rfl, rfl⟩) hu
    · obtain h | hp := hc.agreeOn_or_permits hv.blob.keyed id
      · exact absurd h hu
      · exact ⟨request, _, hs, hp⟩
  · obtain he | ⟨request, hs, hc⟩ := exchangeBlobAt_cases (machine.state inputs n) bytes now fault
    · exact absurd (congrArg (DurableRelay.grant · id) he) hg
    · obtain h | hp := hc.grant_or_permits hv.blob.keyed id
      · exact absurd h hg
      · exact ⟨request, _, hs, hp⟩

end RelayService
end Cofferwire
