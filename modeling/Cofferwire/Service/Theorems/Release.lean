import Cofferwire.Codec.Theorems.Blob
import Cofferwire.Codec.Theorems.Queue
import Cofferwire.Service.Theorems.History

namespace Cofferwire.RelayService

open Codec (encodeResponse decodeRequest decodeResponse decodeResponse_eq_ok)
open Codec.Blob (encodeBlobResponse decodeBlobRequest decodeBlobResponse ResponseWellFormed
  BodyWellFormed bodyCommand decodeBlobResponse_eq_ok)
open DurableRelay

theorem Refusal.exists_error (h : Refusal response) (hr : decodeResponse response = .ok frame) :
    ∃ error, frame.response = .error error := by
  obtain ⟨requestId, error, rfl⟩ := h
  cases hr.symm.trans (decodeResponse_eq_ok.mpr rfl)
  exact ⟨error, rfl⟩

theorem BlobRefusal.body_eq_none (h : BlobRefusal response)
    (hr : decodeBlobResponse response = .ok frame) : frame.response.body = none := by
  obtain ⟨requestId, command, status, hs, rfl⟩ := h
  have hw : ResponseWellFormed { command, status, body := none } := ⟨by simpa, by simp, by simp⟩
  cases hr.symm.trans (decodeBlobResponse_eq_ok.mpr ⟨hw, rfl⟩)
  rfl

variable [Sha256] {tables : BlobTables}

-- The response to a blob request can be decoded.
theorem executeBlobRequest_wellFormed (hv : tables.Valid)
    (h : executeBlobRequest request now tables = .ok (body, tables')) :
    ResponseWellFormed { command := request.command, status := .ok, body } := by
  cases request
  all_goals
    simp only [executeBlobRequest] at h
    obtain ⟨⟨_, _⟩, ht, h⟩ := Except.bind_eq_ok.mp h
    cases h
  case getChunk =>
    have hc := (getBlobChunkTx_available ht).right
    exact ⟨by simp, by simp [BlobRequest.command, bodyCommand],
      by simpa [BodyWellFormed] using hv.chunk_length_le hc⟩
  all_goals
    exact ⟨by simp, by simp [BlobRequest.command, bodyCommand], by simp [BodyWellFormed]⟩

variable [Profile] [Ed25519] {inputs : Nat → Input}

-- An answer with a body goes back to the execution of the request.
theorem blob_released (ha : Answers inputs n .blob bytes now response)
    (hd : decodeBlobRequest bytes = .ok decoded) (hr : decodeBlobResponse response = .ok frame)
    (hb : frame.response.body = some body) :
    ∃ m ≤ n, ∃ t, FirstAnswers inputs m .blob bytes t response ∧
      executeBlobRequest decoded.frame.request t (blobTables inputs m) =
        .ok (body, blobTables inputs (m + 1)) := by
  have hn {response} (h : BlobRefusal response) (hr : decodeBlobResponse response = .ok frame) :=
    Option.some_ne_none _ (hb.symm.trans (h.body_eq_none hr))
  obtain hf | ⟨m, hm, call, t, hp, hf, hs, rfl⟩ := ha.exists_performs
  case inl =>
    have hi := ha.input
    generalize inputs n = input at hi hf
    cases input <;> cases hi
    exact absurd hr (hn hf)
  case inr =>
    refine ⟨m, hm, t, hf, ?_⟩
    obtain ⟨now', _, decoded', hi, had, ⟨hrf, _⟩ | ⟨body', tables, he, rfl, ht⟩⟩ := hp.of_blob hs
    · exact absurd hr (hn hrf)
    · have hf := hf.input
      rw [hi] at hf
      cases hf
      cases hd.symm.trans had.decode
      have hw := executeBlobRequest_wellFormed (store_valid inputs m).blob he
      cases hr.symm.trans (decodeBlobResponse_eq_ok.mpr ⟨hw, rfl⟩)
      cases hb
      rw [show blobTables inputs (m + 1) = tables from congrArg Store.blob ht]
      exact he

theorem queue_released (ha : Answers inputs n .queue bytes now response)
    (hd : decodeRequest bytes = .ok decoded) (hr : decodeResponse response = .ok frame)
    (hb : frame.response = .success body) :
    ∃ m ≤ n, ∃ t, FirstAnswers inputs m .queue bytes t response ∧ ∃ tables,
      executeQueueRequest decoded.frame.request t (database inputs m).store.queue =
        .ok (body, tables) := by
  have hn {response} (h : Refusal response) (hr : decodeResponse response = .ok frame) : False := by
    obtain ⟨_, he⟩ := h.exists_error hr
    cases hb.symm.trans he
  obtain hf | ⟨m, hm, call, t, hp, hf, hs, rfl⟩ := ha.exists_performs
  case inl =>
    have hi := ha.input
    generalize inputs n = input at hi hf
    cases input <;> cases hi
    exact absurd hr (hn hf)
  case inr =>
    refine ⟨m, hm, t, hf, ?_⟩
    obtain ⟨now', _, decoded', hi, had, ⟨hrf, _⟩ | ⟨body', tables, he, rfl, _⟩⟩ := hp.of_queue hs
    · exact absurd hr (hn hrf)
    · have hf := hf.input
      rw [hi] at hf
      cases hf
      cases hd.symm.trans had.decode
      cases hr.symm.trans (decodeResponse_eq_ok.mpr rfl)
      cases hb
      exact ⟨tables, he⟩

-- Content is only released by frames which were first answered while it was available, and every
-- later answer to such a frame repeats the first one.
theorem content_released_only_if_available (inputs : Nat → Input) (n : Nat) (bytes : Bytes)
    (now : Timestamp) (response : Bytes) :
    (∀ decoded frame body,
      Answers inputs n .blob bytes now response →
      decodeBlobRequest bytes = .ok decoded → decodeBlobResponse response = .ok frame →
      frame.response.status = .ok → frame.response.body = some body →
      (∀ blobId cap, decoded.frame.request = .getManifest blobId cap →
        ∃ m ≤ n, ∃ t, FirstAnswers inputs m .blob bytes t response ∧
          (∃ grant ∈ (blobTables inputs m).grants,
            grant.matches GrantRow.downloadCap blobId cap ∧ grant.Live t) ∧
          ∃ manifest expiry, body = .getManifest manifest expiry ∧
            ⟨blobId.asBytes, manifest.asBytes⟩ ∈ (blobTables inputs m).objects) ∧
      (∀ blobId cap index, decoded.frame.request = .getChunk blobId cap index →
        ∃ m ≤ n, ∃ t, FirstAnswers inputs m .blob bytes t response ∧
          (∃ grant ∈ (blobTables inputs m).grants,
            grant.matches GrantRow.downloadCap blobId cap ∧ grant.Live t) ∧
          ∃ ciphertext expiry, body = .getChunk ciphertext expiry ∧
            ⟨blobId.asBytes, index, ciphertext⟩ ∈ (blobTables inputs m).chunks)) ∧
    (∀ decoded frame queueId recipient delivery,
      Answers inputs n .queue bytes now response →
      decodeRequest bytes = .ok decoded → decodeResponse response = .ok frame →
      decoded.frame.request = .fetch ⟨queueId, recipient⟩ →
      frame.response = .success (.fetch (some delivery)) →
      ∃ m ≤ n, ∃ t, FirstAnswers inputs m .queue bytes t response ∧
        ∃ i, (history inputs).Current m queueId t i delivery.toRelay) := by
  refine ⟨fun decoded frame body ha hd hr _ hb => ?_,
    fun decoded frame queueId recipient delivery ha hd hr hq hb => ?_⟩
  · obtain ⟨m, hm, t, hf, he⟩ := blob_released ha hd hr hb
    refine ⟨fun blobId cap hq => ⟨m, hm, t, hf, ?_⟩, fun blobId cap index hq => ⟨m, hm, t, hf, ?_⟩⟩
    all_goals
      rw [hq] at he
      generalize blobTables inputs (m + 1) = tables at he
      obtain ⟨⟨_, expiry⟩, ht, he⟩ := Except.bind_eq_ok.mp he
      cases he
    · have ⟨hg, ho⟩ := getBlobManifestTx_available ht
      exact ⟨hg, _, _, rfl, ho⟩
    · have ⟨hg, hc⟩ := getBlobChunkTx_available ht
      exact ⟨hg, _, _, rfl, hc⟩
  · obtain ⟨m, hm, t, hf, tables, he⟩ := queue_released ha hd hr hb
    refine ⟨m, hm, t, hf, ?_⟩
    rw [hq] at he
    obtain ⟨_, op, ho, ha⟩ := executeQueueRequest_relay (store_valid inputs m).queue he
    cases ho
    obtain ⟨_, hf, he⟩ := Except.map_eq_ok.mp (congrArg Prod.fst ha)
    cases he
    obtain ⟨i, _, he, hc⟩ | ⟨he, _⟩ := (history_valid inputs).fetch_current m hf
    · cases he
      exact ⟨i, hc⟩
    · cases he

end Cofferwire.RelayService
