import Cofferwire.Relay.Theorems.BlobLeases

namespace Cofferwire
namespace DurableRelay

-- One of the four capabilities of a grant. The first one is only known to its upload.
inductive GrantRow.Holds (tables : BlobTables) (grant : GrantRow) (cap : CapabilityId) : Prop
  | upload (mem : row ∈ tables.uploads) (owner : row.uploadId = grant.grantId)
    (h : row.uploadCap = cap.asBytes)
  | download (h : grant.downloadCap = cap.asBytes)
  | renew (h : grant.renewCap = cap.asBytes)
  | delete (h : grant.deleteCap = cap.asBytes)

-- A request which presents a capability for the upload or the object of a grant.
inductive GrantRow.Addressed (grant : GrantRow) (cap : CapabilityId) : BlobRequest → Prop
  | putChunk    : Addressed grant cap (.putChunk ⟨grant.grantId⟩ cap index ciphertext)
  | commit      : Addressed grant cap (.commit ⟨grant.grantId⟩ cap requested)
  | getManifest : Addressed grant cap (.getManifest ⟨grant.blobId⟩ cap)
  | getChunk    : Addressed grant cap (.getChunk ⟨grant.blobId⟩ cap index)
  | renew       : Addressed grant cap (.renew ⟨grant.blobId⟩ cap ttl)
  | delete      : Addressed grant cap (.delete ⟨grant.blobId⟩ cap)

-- The capability also belongs to another live grant on the same object.
def GrantRow.Shared (tables : BlobTables) (grant : GrantRow) (cap : CapabilityId) (now : Timestamp) :
    Prop :=
  ∃ other ∈ tables.grants, other.grantId ≠ grant.grantId ∧ other.blobId = grant.blobId ∧
    other.Live now ∧ other.Holds tables cap

def BlobTables.remove (tables : BlobTables) (grant : GrantRow) : BlobTables :=
  { tables with
    grants := Table.update (·.grantId = grant.grantId) ({ · with deleted := true }) tables.grants }

-- An upload does not notice that its grant has been deleted.
inductive Reopens (tables : BlobTables) (grant : GrantRow) (cap : CapabilityId) (now : Timestamp) :
    BlobRequest → Prop
  | commit (opens : Opens tables ⟨grant.grantId⟩ cap now row) :
    Reopens tables grant cap now (.commit ⟨grant.grantId⟩ cap ⟨grant.blobId⟩)
  | putChunk (opens : Opens tables ⟨grant.grantId⟩ cap now row)
    (staged : ⟨grant.grantId, index, ciphertext⟩ ∈ tables.uploadChunks) :
    Reopens tables grant cap now (.putChunk ⟨grant.grantId⟩ cap index ciphertext)

theorem Reopens.holds (h : Reopens tables grant cap now request) : grant.Holds tables cap := by
  cases h
  case commit opens     => exact .upload opens.mem opens.uploadId opens.cap
  case putChunk opens _ => exact .upload opens.mem opens.uploadId opens.cap

theorem Reopens.addressed (h : Reopens tables grant cap now request) :
    grant.Addressed cap request := by
  cases h
  case commit   => exact .commit
  case putChunk => exact .putChunk

section Runs

variable [Sha256]

def Refused (tables : BlobTables) (request : BlobRequest) (now : Timestamp) : Prop :=
  ∃ e, executeBlobRequest request now tables = .error e

-- If the `n`-th request of a run is a deletion, it removes exactly one grant or fails. Whoever
-- presents a capability of the removed grant to the `k`-th state is refused.
structure DeletesForGood (requests : Nat → BlobRequest × Timestamp) (n k : Nat)
    (request : BlobRequest) (now' : Timestamp) : Prop where
  ok    : ∀ id cap now, requests n = (.delete id cap, now) →
    blobMachine.output requests n = .ok .delete →
    ∃ grant ∈ (blobMachine.state requests n).grants,
      grant.matches GrantRow.deleteCap id cap ∧ grant.Live now ∧
      blobMachine.state requests (n + 1) = (blobMachine.state requests n).remove grant ∧
      (n < k → ∀ cap', grant.Holds (blobMachine.state requests k) cap' →
        grant.Addressed cap' request → ¬grant.Shared (blobMachine.state requests k) cap' now' →
        Refused (blobMachine.state requests k) request now')
  error : ∀ id cap now e, requests n = (.delete id cap, now) →
    blobMachine.output requests n = .error e →
    blobMachine.state requests (n + 1) = blobMachine.state requests n

variable {tables : BlobTables} {id : BlobId} {requests : Nat → BlobRequest × Timestamp}

-- All chunks of a committed upload have been staged.
def BlobTables.Complete (tables : BlobTables) : Prop :=
  ∀ upload ∈ tables.uploads, upload.committedBlob ≠ none → ∀ manifest,
    BlobManifest.parse upload.manifest = .ok manifest → ∀ index < manifest.chunkCount,
      ∃ chunk ∈ tables.uploadChunks, chunk.key = (upload.uploadId, .ofNat index)

theorem Step.complete (hv : tables.Valid) (hc : tables.Complete) (hs : Step tables tables') :
    tables'.Complete := by
  intro upload hu hb manifest hm index hi
  cases hs
  case read   => exact hc upload hu hb manifest hm index hi
  case update => exact hc upload hu hb manifest hm index hi
  case begin pending _ =>
    rcases List.mem_append.mp hu with hu | hu
    · exact hc upload hu hb manifest hm index hi
    · cases List.mem_singleton.mp hu
      contradiction
  case put =>
    have ⟨chunk, hm, hk⟩ := hc upload hu hb manifest hm index hi
    exact ⟨chunk, List.mem_append_left _ hm, hk⟩
  case publish publishable _ =>
    rcases publishable.cases_publish_uploads hv hu with hu | rfl
    · exact hc upload hu hb manifest hm index hi
    · cases hm.symm.trans publishable.parsed
      exact publishable.chunks index hi

theorem blobMachine_complete : (blobMachine.state requests n).Complete :=
  (Machine.invariant (P := fun tables : BlobTables => tables.Valid ∧ tables.Complete)
    ⟨BlobTables.empty_valid, by simp [BlobTables.Complete, blobMachine, BlobTables.empty]⟩
    (fun _ _ ⟨hv, hc⟩ => ⟨applyBlob_change.step.valid hv, applyBlob_change.step.complete hv hc⟩)
    n).right

theorem Change.deleted (h : Change tables now request tables') (hg : grant ∈ tables.grants)
    (hd : grant.deleted) : grant ∈ tables'.grants := by
  cases h
  case read   => exact hg
  case begin  => exact hg
  case put    => exact hg
  case commit => exact List.mem_append_left _ hg
  case renew  => exact Table.mem_update.mpr ⟨grant, hg, if_neg (by simp [hd])⟩
  case delete =>
    refine Table.mem_update.mpr ⟨grant, hg, ?_⟩
    rw [←hd, ite_self]

-- Deleted grants never come back.
theorem blobMachine_deleted (h : n ≤ k) (hg : grant ∈ (blobMachine.state requests n).grants)
    (hd : grant.deleted) : grant ∈ (blobMachine.state requests k).grants :=
  Machine.monotone (R := fun s t : BlobTables => ∀ grant ∈ s.grants, grant.deleted → grant ∈ t.grants)
    (fun _ _ hg _ => hg) (fun _ _ _ h h' grant hg hd => h' grant (h grant hg hd) hd)
    (fun _ _ _ => applyBlob_change.deleted) h grant hg hd

section Deleted

variable {grant : GrantRow} (hv : tables.Valid)
  (hd : { grant with deleted := true } ∈ tables.grants)
include hv hd

theorem shared_of_authorizeGrant
    (h : authorizeGrant tables ⟨grant.blobId⟩ column cap now = .ok expiry)
    (hc : ∀ other : GrantRow, column other = cap.asBytes → other.Holds tables cap) :
    grant.Shared tables cap now := by
  have ⟨other, hf, hl, _⟩ := authorizeGrant_eq_ok.mp h
  have hm := List.mem_of_find?_eq_some hf
  have hp := List.find?_some hf
  simp only [GrantRow.matches, decide_eq_true_eq] at hp
  refine ⟨other, hm, fun hi => ?_, hp.left, hl, hc other hp.right⟩
  cases hv.keyed.grants.eq hm hd hi
  exact hl.left rfl

theorem exists_committed_upload :
    ∃ row ∈ tables.uploads, row.uploadId = grant.grantId ∧ row.committedBlob = some grant.blobId :=
  hv.grants { grant with deleted := true } hd

theorem reopens_of_commitBlobTx
    (h : commitBlobTx tables ⟨grant.grantId⟩ cap requested now = .ok result) :
    Reopens tables grant cap now (.commit ⟨grant.grantId⟩ cap requested) := by
  have ⟨row, hr, hi, hb⟩ := exists_committed_upload hv hd
  simp only [commitBlobTx, Except.bind_eq_ok, okOr_eq_ok, ensure_eq_ok] at h
  obtain ⟨row', hu, -, hc, -, hl, h⟩ := h
  cases hv.keyed.uploads.eq (Table.mem_of_lookup hu) hr ((Table.key_of_lookup hu).trans hi.symm)
  simp only [hb, Except.bind_eq_ok, ensure_eq_ok] at h
  obtain ⟨requested⟩ := requested
  obtain ⟨-, rfl, -⟩ := h
  exact .commit ⟨hr, hi, hc, hl⟩

-- As the upload is complete, the chunk must be one of those which are already staged.
theorem reopens_of_putBlobChunkTx (hc : tables.Complete)
    (h : putBlobChunkTx tables ⟨grant.grantId⟩ cap index ciphertext now = .ok result) :
    Reopens tables grant cap now (.putChunk ⟨grant.grantId⟩ cap index ciphertext) := by
  obtain ⟨row, hr, hi, hb⟩ := exists_committed_upload hv hd
  simp only [putBlobChunkTx, Except.bind_eq_ok, okOr_eq_ok, ensure_eq_ok, parseManifest_eq_ok] at h
  obtain ⟨row', hu, -, hcap, -, hl, manifest, hm, digest, hdig, -, -, h⟩ := h
  cases hv.keyed.uploads.eq (Table.mem_of_lookup hu) hr ((Table.key_of_lookup hu).trans hi.symm)
  refine .putChunk ⟨hr, hi, hcap, hl⟩ ?_
  split at h
  case h_1 existing hx =>
    simp only [Except.bind_eq_ok, ensure_eq_ok] at h
    obtain ⟨-, rfl, -⟩ := h
    have hk : existing.key = (grant.grantId, index) := Table.key_of_lookup hx
    have : existing = ⟨grant.grantId, index, existing.ciphertext⟩ := by
      cases existing
      cases hk
      rfl
    exact this ▸ Table.mem_of_lookup hx
  case h_2 hn =>
    obtain ⟨hlt, _⟩ := List.getElem?_eq_some_iff.mp hdig
    obtain ⟨chunk, hm, hk⟩ := hc row hr (by simp [hb]) manifest hm index.toNat hlt
    exact absurd (hk.trans (by simp [hi])) (Table.lookup_eq_none.mp hn chunk hm)

-- Requests which do not address the upload need another grant.
theorem reopens_or_shared (hc : tables.Complete) (ha : grant.Addressed cap request)
    (h : executeBlobRequest request now tables = .ok result) :
    Reopens tables grant cap now request ∨ grant.Shared tables cap now := by
  cases ha
  all_goals
    simp only [executeBlobRequest] at h
    obtain ⟨⟨_, _⟩, h, _⟩ := Except.bind_eq_ok.mp h
  case putChunk => exact .inl <| reopens_of_putBlobChunkTx hv hd hc h
  case commit   => exact .inl <| reopens_of_commitBlobTx hv hd h
  case getManifest =>
    obtain ⟨_, h, _⟩ := Except.bind_eq_ok.mp h
    exact .inr <| shared_of_authorizeGrant hv hd h fun _ => .download
  case getChunk =>
    obtain ⟨_, h, _⟩ := Except.bind_eq_ok.mp h
    exact .inr <| shared_of_authorizeGrant hv hd h fun _ => .download
  case renew =>
    simp only [renewBlobTx, Except.bind_eq_ok] at h
    obtain ⟨_, _, _, h, _⟩ := h
    exact .inr <| shared_of_authorizeGrant hv hd h fun _ => .renew
  case delete =>
    obtain ⟨_, h, _⟩ := Except.bind_eq_ok.mp h
    exact .inr <| shared_of_authorizeGrant hv hd h fun _ => .delete

theorem Reopens.accepted (h : Reopens tables grant cap now request) :
    ∃ body, executeBlobRequest request now tables = .ok (body, tables) := by
  obtain ⟨row, hr, hi, hb⟩ := exists_committed_upload hv hd
  cases h
  case commit row' opens =>
    cases hv.keyed.uploads.eq opens.mem hr (opens.uploadId.trans hi.symm)
    have hu : upload tables ⟨grant.grantId⟩ = some row :=
      (Table.lookup_eq_some hv.keyed.uploads).mpr ⟨hr, hi⟩
    refine ⟨.commit (fromBeBytes row.expiresAt), ?_⟩
    simp [executeBlobRequest, commitBlobTx, hu, okOr, ensure, opens.cap, opens.live, hb, bind,
      Except.bind, pure, Except.pure]
  case putChunk row' index ciphertext opens staged =>
    cases hv.keyed.uploads.eq opens.mem hr (opens.uploadId.trans hi.symm)
    have hu : upload tables ⟨grant.grantId⟩ = some row :=
      (Table.lookup_eq_some hv.keyed.uploads).mpr ⟨hr, hi⟩
    have hx : uploadChunk tables ⟨grant.grantId⟩ index = some ⟨grant.grantId, index, ciphertext⟩ :=
      (Table.lookup_eq_some hv.keyed.uploadChunks).mpr ⟨staged, rfl⟩
    obtain ⟨row', hr', hi', manifest, hm, hf⟩ := hv.staged _ staged
    cases hv.keyed.uploads.eq hr' hr (hi'.trans hi.symm)
    have hm := parseManifest_eq_ok.mpr hm
    refine ⟨.putChunk .duplicate, ?_⟩
    simp [executeBlobRequest, putBlobChunkTx, hu, okOr, ensure, opens.cap, opens.live, hm, hx,
      hf.digest, hf.size, bind, Except.bind, pure, Except.pure]

end Deleted

section Delete

variable (hr : requests n = (.delete id cap, now))
include hr

theorem blobMachine_delete_ok (ha : authorizeGrant (blobMachine.state requests n) id
      GrantRow.deleteCap cap now = .ok expiry) :
    blobMachine.output requests n = .ok .delete ∧
    blobMachine.state requests (n + 1) =
      { blobMachine.state requests n with
        grants := Table.update (GrantRow.matches GrantRow.deleteCap id cap)
          ({ · with deleted := true }) (blobMachine.state requests n).grants } := by
  simp only [Machine.output, Machine.state, blobMachine, applyBlob, transact, hr, executeBlobRequest,
    deleteBlobTx] at *
  simp [ha, bind, Except.bind, pure, Except.pure]

theorem blobMachine_delete_error (ha : authorizeGrant (blobMachine.state requests n) id
      GrantRow.deleteCap cap now = .error e) :
    blobMachine.output requests n = .error e ∧
    blobMachine.state requests (n + 1) = blobMachine.state requests n := by
  simp only [Machine.output, Machine.state, blobMachine, applyBlob, transact, hr, executeBlobRequest,
    deleteBlobTx] at *
  simp [ha, bind, Except.bind]

end Delete

theorem update_eq_remove_iff (hv : tables.Valid) (hg : grant ∈ tables.grants)
    (hm : grant.matches GrantRow.deleteCap id cap) :
    { tables with
      grants := Table.update (GrantRow.matches GrantRow.deleteCap id cap) ({ · with deleted := true })
        tables.grants } = tables.remove grant ↔
    ∀ other ∈ tables.grants, other.matches GrantRow.deleteCap id cap → ¬other.deleted →
      other = grant := by
  simp only [BlobTables.remove, BlobTables.mk.injEq, true_and, Table.update, List.map_inj_left,
    decide_eq_true_eq]
  have hs {other : GrantRow} (h : other.deleted) : { other with deleted := true } = other := by
    rw [←h]
  constructor
  · intro h other ho hm' hd'
    have he := h other ho
    by_cases hi : other.grantId = grant.grantId
    case pos => exact hv.keyed.grants.eq ho hg hi
    case neg =>
      rw [if_pos hm', if_neg hi] at he
      exact absurd (congrArg GrantRow.deleted he).symm hd'
  · intro h other ho
    by_cases hm' : other.matches GrantRow.deleteCap id cap
    case pos =>
      by_cases hd' : other.deleted
      case pos => simp only [hs hd', ite_self]
      case neg => rw [if_pos hm', if_pos (h other ho hm' hd' ▸ rfl)]
    case neg =>
      rw [if_neg hm', if_neg fun hi => hm' (hv.keyed.grants.eq ho hg hi ▸ hm)]

-- A deletion is for good as long as it does not hit further grants and nobody comes back to the
-- upload.
theorem deletes_for_good_iff (requests : Nat → BlobRequest × Timestamp) (n k : Nat)
    (request : BlobRequest) (now' : Timestamp) :
    DeletesForGood requests n k request now' ↔
      ∀ id cap now grant, requests n = (.delete id cap, now) →
        (blobMachine.state requests n).grants.find? (GrantRow.matches GrantRow.deleteCap id cap) =
          some grant →
        grant.Live now →
        (∀ other ∈ (blobMachine.state requests n).grants,
          other.matches GrantRow.deleteCap id cap → ¬other.deleted → other = grant) ∧
        (n < k → ∀ cap', Reopens (blobMachine.state requests k) grant cap' now' request →
          grant.Shared (blobMachine.state requests k) cap' now') := by
  have hv : (blobMachine.state requests n).Valid := blobMachine_valid
  have hvk : (blobMachine.state requests k).Valid := blobMachine_valid
  constructor
  case mp =>
    intro h id cap now grant hr hf hl
    have hm := List.mem_of_find?_eq_some hf
    have ⟨ho, hs⟩ := blobMachine_delete_ok hr (authorizeGrant_eq_ok.mpr ⟨grant, hf, hl, rfl⟩)
    have ⟨grant', hm', hp', hl', hs', hk⟩ := h.ok id cap now hr ho
    have hu := (update_eq_remove_iff hv hm' hp').mp (hs.symm.trans hs')
    cases hu grant hm (List.find?_some hf) hl.left
    refine ⟨hu, fun hn cap' hc => ?_⟩
    by_contra hx
    have hd : { grant with deleted := true } ∈ (blobMachine.state requests k).grants :=
      blobMachine_deleted hn (hs' ▸ Table.mem_update.mpr ⟨grant, hm, by simp⟩) rfl
    have ⟨e, he⟩ := hk hn cap' hc.holds hc.addressed hx
    have ⟨_, ha⟩ := hc.accepted hvk hd
    cases he.symm.trans ha
  case mpr =>
    intro h
    constructor
    case ok =>
      intro id cap now hr ho
      cases ha : authorizeGrant (blobMachine.state requests n) id GrantRow.deleteCap cap now
      case error => cases ho.symm.trans (blobMachine_delete_error hr ha).left
      case ok =>
        have ⟨_, hs⟩ := blobMachine_delete_ok hr ha
        have ⟨grant, hf, hl, _⟩ := authorizeGrant_eq_ok.mp ha
        have hm := List.mem_of_find?_eq_some hf
        have hp := List.find?_some hf
        have ⟨hu, hk⟩ := h id cap now grant hr hf hl
        have hs := hs.trans <| (update_eq_remove_iff hv hm hp).mpr hu
        refine ⟨grant, hm, hp, hl, hs, fun hn cap' _ ha hx => ?_⟩
        have hd : { grant with deleted := true } ∈ (blobMachine.state requests k).grants :=
          blobMachine_deleted hn (hs ▸ Table.mem_update.mpr ⟨grant, hm, by simp⟩) rfl
        cases he : executeBlobRequest request now' (blobMachine.state requests k)
        case error e => exact ⟨e, he⟩
        case ok =>
          rcases reopens_or_shared hvk hd blobMachine_complete ha he with hc | hc
          · exact absurd (hk hn cap' hc) hx
          · exact absurd hc hx
    case error =>
      intro id cap now e hr ho
      cases ha : authorizeGrant (blobMachine.state requests n) id GrantRow.deleteCap cap now
      case error => exact (blobMachine_delete_error hr ha).right
      case ok    => cases ho.symm.trans (blobMachine_delete_ok hr ha).left

end Runs

namespace Twins

-- The first upload is deleted before the second one is committed.
def deletion [Sha256] : Nat → BlobRequest × Timestamp
  | 5 => (.delete (identify manifest) cap, 0)
  | n => requests n

theorem deletion_state₅ [Sha256] : blobMachine.state deletion 5 = blobMachine.state requests 5 :=
  rfl

end Twins

-- At time 50, the deleted upload is committed once more.
theorem deleted_upload_commits_again :
    ¬∃ _ : Sha256, DeletesForGood Twins.deletion 5 6
      (.commit (Twins.upload 0) Twins.cap (identify Twins.manifest)) 50 := by
  rintro ⟨_, h⟩
  have hs := Twins.deletion_state₅.trans Twins.state₅
  have hg : (blobMachine.state Twins.deletion 5).grants = [Twins.grant 0 100] := by rw [hs]; rfl
  have hp : (Twins.grant 0 100).matches GrantRow.deleteCap (identify Twins.manifest) Twins.cap := by
    simp [GrantRow.matches, Twins.grant, UploadRow.grant, Twins.row]
  have hl : (Twins.grant 0 100).Live 0 := Twins.grant_live.mpr (by decide)
  have ha : authorizeGrant (blobMachine.state Twins.deletion 5) (identify Twins.manifest)
      GrantRow.deleteCap Twins.cap 0 = .ok 100 :=
    authorizeGrant_eq_ok.mpr ⟨Twins.grant 0 100, by simp [hg, hp], hl, Twins.grant_expiry⟩
  obtain ⟨grant, hm, _, _, hs', hk⟩ := h.ok _ _ _ rfl (blobMachine_delete_ok rfl ha).left
  rw [hg] at hm
  cases List.mem_singleton.mp hm
  have hg' : (blobMachine.state Twins.deletion 6).grants =
      [{ Twins.grant 0 100 with deleted := true }] := by
    rw [hs']
    simp [BlobTables.remove, hg, Table.update]
  have hu : Twins.row 0 100 (identify Twins.manifest) ∈
      (blobMachine.state Twins.deletion 6).uploads := by
    rw [hs', BlobTables.remove, hs]
    exact .head _
  have hx : fromBeBytes (Twins.row 0 100 (identify Twins.manifest)).expiresAt = 100 :=
    fromBeBytes_toBeBytes _
  have hr : Reopens (blobMachine.state Twins.deletion 6) (Twins.grant 0 100) Twins.cap 50
      (.commit (Twins.upload 0) Twins.cap (identify Twins.manifest)) :=
    .commit ⟨hu, rfl, rfl, by rw [hx]; decide⟩
  obtain ⟨_, he⟩ := hk (by decide) Twins.cap hr.holds hr.addressed (by simp [GrantRow.Shared, hg'])
  obtain ⟨_, ha⟩ := hr.accepted blobMachine_valid (hg' ▸ .head _)
  cases he.symm.trans ha

end DurableRelay
end Cofferwire
