import Cofferwire.Relay.Theorems.Exchange

namespace Cofferwire
namespace DurableRelay

open Replay (Database Call EffectError)

def MessageRow.key (row : MessageRow) : ByteVec 32 × ByteVec 32 :=
  (row.queueId, row.messageId)

namespace QueueTables

-- The identifiers of queues, and those of messages within a queue, are unique.
structure Keyed (tables : QueueTables) : Prop where
  queues   : Table.Keyed QueueRow.queueId tables.queues
  messages : Table.Keyed MessageRow.key tables.messages

theorem empty_keyed : empty.Keyed where
  queues   := List.nodup_nil
  messages := List.nodup_nil

end QueueTables

section Queue

variable {tables : QueueTables}

theorem discardExpired_keyed (h : tables.Keyed) : (discardExpired tables q now).Keyed where
  queues   := h.queues
  messages := h.messages.filter

theorem createQueueTx_keyed (h : tables.Keyed)
    (hc : createQueueTx tables q config = .ok (outcome, tables')) : tables'.Keyed := by
  unfold createQueueTx at hc
  split at hc
  case h_1 =>
    split at hc <;> cases hc
    exact h
  case h_2 hn =>
    obtain ⟨_, hi, hc⟩ := Except.bind_eq_ok.mp hc
    cases hc
    unfold insertQueue at hi
    split at hi <;> cases hi
    case h_1 hi =>
      obtain ⟨hn, rfl⟩ := Table.insert_eq_some.mp hi
      exact { h with queues := h.queues.append (Table.lookup_eq_none.mp hn) }

theorem insertMessage_keyed (h : tables.Keyed) (hi : insertMessage tables row = .ok tables') :
    tables'.Keyed := by
  simp only [insertMessage, Except.ite_error_eq_ok] at hi
  obtain ⟨-, hi⟩ := hi
  split at hi <;> cases hi
  case h_1 hi =>
    obtain ⟨hn, rfl⟩ := Table.insert_eq_some.mp hi
    exact { h with messages := h.messages.append (Table.lookup_eq_none.mp hn) }

theorem enqueueTx_keyed (h : tables.Keyed)
    (he : enqueueTx tables config q messageId payload now ttl = .ok (outcome, tables')) :
    tables'.Keyed := by
  unfold enqueueTx at he
  split at he
  case h_1 =>
    split at he <;> cases he
    exact h
  case h_2 =>
    simp only [Except.ite_error_eq_ok] at he
    obtain ⟨-, -, he⟩ := he
    split at he
    case h_1 => cases he
    case h_2 =>
      obtain ⟨_, hi, he⟩ := Except.bind_eq_ok.mp he
      cases he
      exact insertMessage_keyed h hi

theorem sendTx_keyed (h : tables.Keyed)
    (hs : sendTx tables q sender messageId payload now ttl = .ok (outcome, tables')) :
    tables'.Keyed := by
  obtain ⟨config, _, hs⟩ := Except.bind_eq_ok.mp hs
  cases config
  case none => cases hs
  case some =>
    obtain ⟨-, hs⟩ := Except.ite_error_eq_ok.mp hs
    exact enqueueTx_keyed (discardExpired_keyed h) hs

theorem fetchTx_keyed (h : tables.Keyed)
    (hf : fetchTx tables q recipient now = .ok (delivery, tables')) : tables'.Keyed := by
  obtain ⟨_, _, hf⟩ := Except.bind_eq_ok.mp hf
  have h : (discardExpired tables q now).Keyed := discardExpired_keyed h
  dsimp only at hf
  split at hf <;> cases hf
  case h_1 => exact h
  case h_2 => exact { h with messages := h.messages.update fun _ => rfl }

theorem acknowledgeTx_keyed (h : tables.Keyed)
    (ha : acknowledgeTx tables q recipient messageId now = .ok (u, tables')) : tables'.Keyed := by
  obtain ⟨_, _, ha⟩ := Except.bind_eq_ok.mp ha
  have h : (discardExpired tables q now).Keyed := discardExpired_keyed h
  dsimp only at ha
  split at ha
  case h_1 => cases ha
  case h_2 =>
    simp only [Except.ite_error_eq_ok] at ha
    obtain ⟨-, -, ha⟩ := ha
    cases ha
    exact { h with messages := h.messages.filter }

theorem deleteQueueTx_keyed (h : tables.Keyed)
    (hd : deleteQueueTx tables q recipient = .ok (u, tables')) : tables'.Keyed := by
  obtain ⟨_, _, hd⟩ := Except.bind_eq_ok.mp hd
  cases hd
  exact ⟨h.queues.filter, h.messages.filter⟩

theorem executeQueueRequest_keyed (h : tables.Keyed)
    (he : executeQueueRequest request now tables = .ok (body, tables')) : tables'.Keyed := by
  cases request
  case createQueue create =>
    simp only [executeQueueRequest] at he
    split at he
    case h_1 => cases he
    case h_2 =>
      obtain ⟨⟨_, _⟩, ht, he⟩ := Except.bind_eq_ok.mp he
      cases he
      exact createQueueTx_keyed h ht
  case send send =>
    simp only [executeQueueRequest] at he
    split at he
    case h_1 => cases he
    case h_2 =>
      obtain ⟨⟨_, _⟩, ht, he⟩ := Except.bind_eq_ok.mp he
      cases he
      exact sendTx_keyed h ht
  case fetch fetch =>
    obtain ⟨⟨delivery, _⟩, ht, he⟩ := Except.bind_eq_ok.mp he
    cases delivery
    case none =>
      cases he
      exact fetchTx_keyed h ht
    case some =>
      simp only at he
      split at he <;> cases he
      exact fetchTx_keyed h ht
  case ack ack =>
    obtain ⟨⟨_, _⟩, ht, he⟩ := Except.bind_eq_ok.mp he
    cases he
    exact acknowledgeTx_keyed h ht
  case deleteQueue delete =>
    obtain ⟨⟨_, _⟩, ht, he⟩ := Except.bind_eq_ok.mp he
    cases he
    exact deleteQueueTx_keyed h ht

theorem Refines.error_eq (h : Refines tx reference) (he : tx = .error e) : ∃ error, e = .relay error := by
  cases h <;> cases he
  exact ⟨_, rfl⟩

-- A request on valid tables is only rejected for reasons of the protocol.
theorem executeQueueRequest_error (hv : tables.Valid)
    (he : executeQueueRequest request now tables = .error e) : ∃ error, e = .relay error := by
  cases request
  case createQueue create =>
    simp only [executeQueueRequest] at he
    split at he
    case h_1 =>
      cases he
      exact ⟨_, rfl⟩
    case h_2 =>
      obtain he | ⟨_, _, he⟩ := Except.bind_eq_error.mp he
      · exact (createQueueTx_refines hv).error_eq he
      · cases he
  case send send =>
    simp only [executeQueueRequest] at he
    split at he
    case h_1 =>
      cases he
      exact ⟨_, rfl⟩
    case h_2 =>
      obtain he | ⟨_, _, he⟩ := Except.bind_eq_error.mp he
      · exact (sendTx_refines hv).error_eq he
      · cases he
  case fetch fetch =>
    obtain he | ⟨⟨delivery, _⟩, _, he⟩ := Except.bind_eq_error.mp he
    · exact (fetchTx_refines hv).error_eq he
    · cases delivery
      case none => cases he
      case some =>
        simp only at he
        split at he <;> cases he
        exact ⟨_, rfl⟩
  case ack ack =>
    obtain he | ⟨_, _, he⟩ := Except.bind_eq_error.mp he
    · exact (acknowledgeTx_refines hv).error_eq he
    · cases he
  case deleteQueue delete =>
    obtain he | ⟨_, _, he⟩ := Except.bind_eq_error.mp he
    · exact (deleteQueueTx_refines hv).error_eq he
    · cases he

end Queue

section Blob

-- A computation which does not fail for reasons of storage.
def Sound (x : Except BlobDurableError α) : Prop :=
  ∀ error, x ≠ .error (.storage error)

theorem Sound.ok {a : α} : Sound (.ok a) := by
  intro _ h
  cases h

theorem Sound.protocol : Sound (.error (.protocol error) : Except BlobDurableError α) := by
  intro _ h
  cases h

theorem Sound.bind {x : Except BlobDurableError α} {f : α → Except BlobDurableError β} (hx : Sound x)
    (hf : ∀ a, x = .ok a → Sound (f a)) : Sound (x >>= f) := by
  intro error h
  obtain h | ⟨a, ha, h⟩ := Except.bind_eq_error.mp h
  · exact hx error h
  · exact hf a ha error h

theorem ensure_sound [Decidable p] : Sound (ensure p error) := by
  unfold ensure
  split
  · exact .ok
  · exact .protocol

theorem okOr_sound : Sound (okOr value error) := by
  unfold okOr
  split
  · exact .ok
  · exact .protocol

theorem parseManifest_sound : Sound (parseManifest bytes) := by
  unfold parseManifest
  cases BlobManifest.parse bytes
  · exact .protocol
  · exact .ok

theorem authorizeGrant_sound {id : BlobId} : Sound (authorizeGrant tables id column cap now) := by
  unfold authorizeGrant
  split
  · split <;> exact .protocol
  · exact ensure_sound.bind fun _ _ => ensure_sound.bind fun _ _ => .ok

theorem insertUpload_sound (h : Table.lookup UploadRow.uploadId row.uploadId tables.uploads = none) :
    Sound (insertUpload tables row) := by
  simp only [insertUpload, Table.insert_eq_some.mpr ⟨h, rfl⟩]
  exact .ok

theorem insertUploadChunk_sound {row : UploadChunkRow}
    (hu : Table.lookup UploadRow.uploadId row.uploadId tables.uploads = some owner)
    (hc : Table.lookup UploadChunkRow.key row.key tables.uploadChunks = none) :
    Sound (insertUploadChunk tables row) := by
  simp only [insertUploadChunk, hu, Option.isNone_some, Table.insert_eq_some.mpr ⟨hc, rfl⟩]
  exact .ok

theorem beginBlobUploadTx_sound :
    Sound (beginBlobUploadTx tables uploadId caps manifest now ttl) := by
  refine okOr_sound.bind fun expiry _ => ?_
  split
  case h_1 => exact ensure_sound.bind fun _ _ => .ok
  case h_2 hn =>
    refine Sound.bind ?_ fun _ _ => .ok
    exact insertUpload_sound hn

variable [Sha256] {tables : BlobTables}

theorem putBlobChunkTx_sound : Sound (putBlobChunkTx tables uploadId cap index ciphertext now) := by
  refine okOr_sound.bind fun row hu => ensure_sound.bind fun _ _ => ensure_sound.bind fun _ _ =>
    parseManifest_sound.bind fun _ _ => okOr_sound.bind fun _ _ => ensure_sound.bind fun _ _ => ?_
  split
  case h_1 => exact ensure_sound.bind fun _ _ => .ok
  case h_2 hn =>
    refine Sound.bind ?_ fun _ _ => .ok
    have hu := okOr_eq_ok.mp hu
    exact insertUploadChunk_sound hu hn

theorem verifyChunk_sound : Sound (verifyChunk tables uploadId manifest index) :=
  ensure_sound.bind fun _ _ => okOr_sound.bind fun _ _ => ensure_sound

theorem verifyChunks_sound : Sound (verifyChunks tables uploadId manifest) := by
  unfold verifyChunks
  induction List.range manifest.chunkCount
  case nil => exact .ok
  case cons hi => exact verifyChunk_sound.bind fun _ _ => hi

variable (hv : tables.Valid)
include hv

-- A grant only exists once its upload has been committed.
theorem BlobTables.Valid.grantId_ne (hu : row ∈ tables.uploads) (hp : row.committedBlob = none) :
    ∀ grant ∈ tables.grants, grant.grantId ≠ row.uploadId := by
  intro grant hg he
  obtain ⟨upload, hm, hi, hc⟩ := hv.grants grant hg
  obtain rfl := hv.keyed.uploads.eq hm hu (hi.trans he)
  cases hp.symm.trans hc

theorem commitBlobTx_sound : Sound (commitBlobTx tables uploadId cap requested now) := by
  refine okOr_sound.bind fun row hu => ensure_sound.bind fun _ _ => ensure_sound.bind fun _ _ => ?_
  split
  case h_1 => exact ensure_sound.bind fun _ _ => .ok
  case h_2 hp =>
    refine parseManifest_sound.bind fun manifest _ => ensure_sound.bind fun _ hi =>
      ensure_sound.bind fun _ _ => verifyChunks_sound.bind fun _ _ => ensure_sound.bind fun _ _ => ?_
    obtain rfl := ensure_eq_ok.mp hi
    have hu := okOr_eq_ok.mp hu
    have hn := hv.grantId_ne (Table.mem_of_lookup hu) hp
    rw [(publishTx_eq_ok (Table.key_of_lookup hu)).mpr ⟨hn, rfl⟩]
    exact .ok

theorem objectManifest_sound {id : BlobId} (h : authorizeGrant tables id column cap now = .ok expiry) :
    Sound (objectManifest tables id) := by
  obtain ⟨_, _, _, manifest, _, _, ho⟩ := hv.object_of_authorizeGrant h
  rw [ho]
  exact .ok

theorem executeBlobRequest_sound : Sound (executeBlobRequest request now tables) := by
  cases request
  case beginUpload => exact beginBlobUploadTx_sound.bind fun _ _ => .ok
  case putChunk    => exact putBlobChunkTx_sound.bind fun _ _ => .ok
  case commit      => exact (commitBlobTx_sound hv).bind fun _ _ => .ok
  case getManifest =>
    refine Sound.bind ?_ fun _ _ => .ok
    refine authorizeGrant_sound.bind fun _ ha => (objectManifest_sound hv ha).bind fun _ _ => ?_
    exact ensure_sound.bind fun _ _ => .ok
  case getChunk =>
    refine Sound.bind ?_ fun _ _ => .ok
    refine authorizeGrant_sound.bind fun _ ha => (objectManifest_sound hv ha).bind fun _ _ => ?_
    exact okOr_sound.bind fun _ _ => okOr_sound.bind fun _ _ => ensure_sound.bind fun _ _ => .ok
  case renew =>
    refine Sound.bind ?_ fun _ _ => .ok
    exact okOr_sound.bind fun _ _ => authorizeGrant_sound.bind fun _ _ => .ok
  case delete =>
    refine Sound.bind ?_ fun _ _ => .ok
    exact authorizeGrant_sound.bind fun _ _ => .ok

end Blob

section Granted

variable [Sha256] {tables : BlobTables}

-- Every committed upload has a grant.
def BlobTables.Granted (tables : BlobTables) : Prop :=
  ∀ upload ∈ tables.uploads, upload.committedBlob.isSome →
    ∃ grant ∈ tables.grants, grant.grantId = upload.uploadId

theorem Step.granted (hv : tables.Valid) (hg : tables.Granted) (hs : Step tables tables') :
    tables'.Granted := by
  intro upload hu hc
  cases hs
  case read => exact hg upload hu hc
  case put  => exact hg upload hu hc
  case begin pending _ =>
    rcases List.mem_append.mp hu with hu | hu
    · exact hg upload hu hc
    · cases List.mem_singleton.mp hu
      simp [pending] at hc
  case publish publishable _ =>
    rcases publishable.cases_publish_uploads hv hu with hu | rfl
    · obtain ⟨grant, hm, hi⟩ := hg upload hu hc
      exact ⟨grant, List.mem_append_left _ hm, hi⟩
    · exact ⟨_, List.mem_append_right _ (List.mem_singleton_self _), rfl⟩
  case update grantId _ =>
    obtain ⟨grant, hm, hi⟩ := hg upload hu hc
    refine ⟨_, Table.mem_update.mpr ⟨grant, hm, rfl⟩, ?_⟩
    split
    · exact (grantId grant).trans hi
    · exact hi

theorem exists_grant_iff (hv : tables.Valid) (hg : tables.Granted) :
    (∃ grant ∈ tables.grants, grant.grantId = uploadId) ↔
      ∃ upload ∈ tables.uploads, upload.uploadId = uploadId ∧ upload.committedBlob.isSome where
  mp := by
    rintro ⟨grant, hm, rfl⟩
    obtain ⟨upload, hu, hi, hc⟩ := hv.grants grant hm
    exact ⟨upload, hu, hi, hc ▸ rfl⟩
  mpr := by
    rintro ⟨upload, hu, rfl, hc⟩
    exact hg upload hu hc

end Granted

namespace Store

-- The keys and references of the schema. Its other constraints hold by the types of the columns.
structure Constrained (store : Store) : Prop where
  queues           : Table.Keyed QueueRow.queueId store.queue.queues
  messages         : Table.Keyed MessageRow.sequence store.queue.messages
  messageIds       : Table.Keyed MessageRow.key store.queue.messages
  messageQueue     : Table.References MessageRow.queueId store.queue.messages
    QueueRow.queueId store.queue.queues
  uploads          : Table.Keyed UploadRow.uploadId store.blob.uploads
  uploadChunks     : Table.Keyed UploadChunkRow.key store.blob.uploadChunks
  uploadChunkOwner : Table.References UploadChunkRow.uploadId store.blob.uploadChunks
    UploadRow.uploadId store.blob.uploads
  objects          : Table.Keyed ObjectRow.blobId store.blob.objects
  chunks           : Table.Keyed ChunkRow.key store.blob.chunks
  chunkObject      : Table.References ChunkRow.blobId store.blob.chunks
    ObjectRow.blobId store.blob.objects
  grants           : Table.Keyed GrantRow.grantId store.blob.grants
  grantObject      : Table.References GrantRow.blobId store.blob.grants
    ObjectRow.blobId store.blob.objects

variable [Sha256]

structure Valid (store : Store) : Prop where
  queue   : store.queue.Valid
  keyed   : store.queue.Keyed
  blob    : store.blob.Valid
  granted : store.blob.Granted

theorem empty_valid : empty.Valid where
  queue   := QueueTables.empty_valid
  keyed   := QueueTables.empty_keyed
  blob    := BlobTables.empty_valid
  granted := by simp [BlobTables.Granted, empty, BlobTables.empty]

theorem Valid.constrained {store : Store} (h : store.Valid) : store.Constrained where
  queues       := h.keyed.queues
  messages     := List.pairwise_map.mpr (h.queue.ordered.imp Nat.ne_of_lt)
  messageIds   := h.keyed.messages
  messageQueue := by
    intro row hr
    obtain ⟨queue, hq⟩ := Option.isSome_iff_exists.mp (h.queue.owned row hr)
    exact ⟨queue, Table.mem_of_lookup hq, Table.key_of_lookup hq⟩
  uploads      := h.blob.keyed.uploads
  uploadChunks := h.blob.keyed.uploadChunks
  uploadChunkOwner := by
    intro chunk hc
    obtain ⟨upload, hu, hi, _⟩ := h.blob.staged chunk hc
    exact ⟨upload, hu, hi⟩
  objects      := h.blob.keyed.objects
  chunks       := h.blob.keyed.chunks
  chunkObject  := by
    intro chunk hc
    obtain ⟨upload, hu, hi, _⟩ := h.blob.chunks chunk hc
    exact ⟨_, h.blob.published upload hu _ hi, rfl⟩
  grants       := h.blob.keyed.grants
  grantObject  := fun _ hg => h.blob.object_of_grant hg

-- The result of an effect which is not due to a failure of the storage.
inductive Settled : Except (EffectError ε) (α × Store) → Prop
  | ok {store : Store} (valid : store.Valid) : Settled (.ok (value, store))
  | protocol : Settled (.error (.protocol error))

theorem Settled.conclude {result : Except (EffectError ε) (α × Store)} (h : Settled result)
    (hv : Valid store) :
    (∀ error, (conclude store result).fst ≠ .failed error) ∧ (conclude store result).snd.Valid := by
  cases h
  case ok valid => exact ⟨fun _ => Verdict.noConfusion, valid⟩
  case protocol => exact ⟨fun _ => Verdict.noConfusion, hv⟩

variable {store : Store}

theorem Valid.queueEffect (h : store.Valid) :
    Settled (queueEffect (executeQueueRequest request now) store) := by
  unfold DurableRelay.queueEffect
  split
  case h_1 he =>
    obtain ⟨hv, _⟩ := executeQueueRequest_relay h.queue he
    exact .ok { h with queue := hv, keyed := executeQueueRequest_keyed h.keyed he }
  case h_2 => exact .protocol
  case h_3 hr he =>
    obtain ⟨error, rfl⟩ := executeQueueRequest_error h.queue he
    exact absurd rfl (hr error)

theorem Valid.blobEffect (h : store.Valid) :
    Settled (blobEffect (executeBlobRequest request now) store) := by
  unfold DurableRelay.blobEffect
  split
  case h_1 he =>
    have hs := (executeBlobRequest_change he).step
    exact .ok { h with blob := hs.valid h.blob, granted := hs.granted h.blob h.granted }
  case h_2 => exact .protocol
  case h_3 he => exact absurd he (executeBlobRequest_sound h.blob _)

theorem Valid.execute (h : store.Valid) (command : StoreCommand) (now : Timestamp) :
    (∀ error, (command.execute now store).fst ≠ .failed error) ∧
      (command.execute now store).snd.Valid := by
  cases command
  case queue request => exact h.queueEffect.conclude h
  case blob request  => exact h.blobEffect.conclude h

end Store

-- The calls with which commands are exchanged.
inductive Requests [Sha256] : Call Store → Prop
  | queue : Requests (queueRequestCall principal requestId bytes request now encode)
  | blob : Requests (blobRequestCall capability requestId bytes request now encode)

-- A call is answered and recorded unless its key is in use, which is the only obstacle to recording it.
structure Recorded (database : Database Store) (call : Call Store) : Prop where
  fresh : database.Fresh call → ∃ response transaction,
    Replay.Answered (Replay.Rejects database) database call response transaction ∧
    Replay.exchange database call = (.ok (.respond response), transaction.record call response)
  used  : ¬database.Fresh call → ∃ answer, Replay.exchange database call = (.ok answer, database)
  insert (transaction : Database Store) (response : Bytes) (h : transaction.replays = database.replays) :
    Replay.insert transaction call response = none ↔
      ∃ row ∈ database.replays call.ns, row.key = call.key

theorem Store.Settled.recorded [Sha256] {database : Database Store}
    (h : Settled (call.effect database.store)) : Recorded database call where
  fresh hf := by
    obtain ⟨error, he, _⟩ | h := Replay.exchange_fresh hf
    · rw [he] at h
      cases h
    · exact h
  used hu := by
    have hn {transaction response} (ht : transaction.replays = database.replays) :
        Replay.exchange.record database call transaction response =
          (Replay.replay database call, database) := by
      have hi : Replay.insert transaction call response = none :=
        Replay.insert_eq_none.mpr (by simpa [Database.Fresh, ht] using hu)
      simp only [Replay.exchange.record, hi]
    obtain ⟨answer, ha⟩ : ∃ answer, Replay.replay database call = .ok answer := by
      obtain ⟨row, hr⟩ := Option.ne_none_iff_exists'.mp (mt Replay.lookup_eq_none.mp hu)
      simp only [Replay.replay, hr]
      split
      · exact ⟨_, rfl⟩
      · exact ⟨_, rfl⟩
    refine ⟨answer, ?_⟩
    rw [←ha]
    unfold Replay.exchange
    cases he : call.effect database.store
    case ok    => exact hn rfl
    case error e =>
      rw [he] at h
      cases h
      exact hn rfl
  insert transaction response ht := by rw [Replay.insert_eq_none, ht]

theorem Store.Valid.recorded [Sha256] {database : Database Store} (h : database.store.Valid)
    (hr : Requests call) : Recorded database call := by
  cases hr
  case queue => exact Settled.recorded h.queueEffect
  case blob  => exact Settled.recorded h.blobEffect

theorem commandMachine_valid [Sha256] {inputs : Nat → StoreCommand × Timestamp} :
    (commandMachine.state inputs n).Valid :=
  Machine.invariant Store.empty_valid (fun input _ h => (h.execute input.fst input.snd).right) n

-- After any commands at any times, the next one meets no constraint and fails for no other reason of
-- the storage, so that it is answered and recorded.
theorem commands_meet_no_constraint [Sha256] (inputs : Nat → StoreCommand × Timestamp) (n : Nat) :
    (commandMachine.state inputs n).Constrained ∧
    (∀ error, commandMachine.output inputs n ≠ .failed error) ∧
    (∀ replays call, Requests call → Recorded ⟨commandMachine.state inputs n, replays⟩ call) ∧
    (∀ uploadId,
      (∃ grant ∈ (commandMachine.state inputs n).blob.grants, grant.grantId = uploadId) ↔
        ∃ upload ∈ (commandMachine.state inputs n).blob.uploads,
          upload.uploadId = uploadId ∧ upload.committedBlob.isSome) := by
  have hv : (commandMachine.state inputs n).Valid := commandMachine_valid
  refine ⟨hv.constrained, ?_, ?_, ?_⟩
  · exact (hv.execute (inputs n).fst (inputs n).snd).left
  · exact fun replays call hr => Store.Valid.recorded hv hr
  · exact fun uploadId => exists_grant_iff hv.blob hv.granted

end DurableRelay
end Cofferwire
