import Cofferwire.Client.Basic
import Cofferwire.Codec.Theorems.Errors
import Cofferwire.Service.Theorems.Release

namespace Cofferwire

def Response.body : Response → Option ResponseBody
  | success body => some body
  | error _      => none

namespace RelayService

open Codec (DecodedRequest RequestFrame preambleBytes encodePreamble encodeRequest encodeResponse
  decodeRequest decodeResponse decodeRequest_eq_ok decodeResponse_eq_ok)
open Codec.Blob (DecodedBlobRequest encodeBlobRequest encodeBlobResponse decodeBlobRequest
  decodeBlobResponse ResponseWellFormed decodeBlobRequest_eq_ok decodeBlobResponse_eq_ok)
open DurableRelay (Store executeQueueRequest executeBlobRequest)
open Replay (Database Answered Rejects)

-- The part of a frame which identifies its response.
def correlationId (bytes : Bytes) : Bytes :=
  if bytes.length < preambleBytes then .replicate 16 0 else slice bytes 1 17

theorem requestId_eq {id id' : RequestId} (h : id.asBytes.toBytes = id'.asBytes.toBytes) : id = id' := by
  cases id
  cases id'
  exact congrArg _ (ByteVec.ext h)

theorem requestIdFromPrefix_toBytes {bytes : Bytes} :
    (requestIdFromPrefix bytes).asBytes.toBytes = correlationId bytes := by
  unfold correlationId
  split
  case isTrue h =>
    have hl : (slice bytes 1 17).length ≠ 16 := by
      simp only [slice, preambleBytes, List.length_take, List.length_drop] at *
      omega
    simp [requestIdFromPrefix, ByteVec.tryFrom, hl, ByteVec.replicate]
  case isFalse h =>
    have hl : (slice bytes 1 17).length = 16 := slice_length (Nat.not_lt.mp h)
    simp [requestIdFromPrefix, ByteVec.tryFrom, hl]

theorem requestIdFromPrefix_encodePreamble :
    requestIdFromPrefix (encodePreamble requestId ++ rest) = requestId := by
  obtain ⟨id⟩ := requestId
  have hs : slice (encodePreamble ⟨id⟩ ++ rest) 1 17 = id.toBytes := by
    have hl : 17 - 1 = id.toBytes.length := id.size.symm
    simp only [slice, encodePreamble, List.cons_append, List.drop_succ_cons, List.drop_zero]
    rw [hl, List.take_left]
  simp [requestIdFromPrefix, ByteVec.tryFrom_eq_some.mpr hs.symm]

theorem requestId_eq_leading (h : decodeRequest bytes = .ok decoded) :
    decoded.frame.requestId = requestIdFromPrefix bytes := by
  obtain ⟨rfl, _⟩ := decodeRequest_eq_ok.mp h
  simp only [encodeRequest, Codec.encodeAuthenticatedRequest, List.append_assoc]
  exact requestIdFromPrefix_encodePreamble.symm

theorem blobRequestId_eq_leading (h : decodeBlobRequest bytes = .ok decoded) :
    decoded.frame.requestId = requestIdFromPrefix bytes := by
  obtain ⟨_, rfl, _⟩ := decodeBlobRequest_eq_ok.mp h
  simp only [encodeBlobRequest, Codec.Blob.encodeBlobAuthenticatedRequest, List.append_assoc]
  exact requestIdFromPrefix_encodePreamble.symm

-- The request id which an error tells is the same as that from the frame.
theorem decodeErrorRequestId_eq
    (h : Codec.decodePreambleWithin maxBytes bytes = .error error ∨ error.Malformed) :
    decodeErrorRequestId bytes error = requestIdFromPrefix bytes := by
  cases error
  case unsupportedVersion received requestId =>
    obtain h | h := h
    · obtain ⟨hl, hr⟩ := Codec.decodePreambleWithin_unsupportedVersion h
      have ht : (requestIdFromPrefix bytes).asBytes.toBytes = _ := requestIdFromPrefix_toBytes
      rw [correlationId, if_neg (Nat.not_lt.mpr hl)] at ht
      exact requestId_eq (hr.trans ht.symm)
    · cases h
  all_goals rfl

-- A response which can be decoded and belongs to the frame.
def Correlated (bytes response : Bytes) : Prop :=
  ∃ frame, decodeResponse response = .ok frame ∧
    frame.requestId.asBytes.toBytes = correlationId bytes ∧
    (frame.response.status ≠ .ok → frame.response.body = none) ∧
    ∀ decoded, decodeRequest bytes = .ok decoded →
      frame.response.command = some decoded.frame.request.command

def BlobCorrelated (bytes response : Bytes) : Prop :=
  ∃ frame, decodeBlobResponse response = .ok frame ∧
    frame.requestId.asBytes.toBytes = correlationId bytes ∧
    (frame.response.status ≠ .ok → frame.response.body = none) ∧
    ∀ decoded, decodeBlobRequest bytes = .ok decoded →
      frame.response.command = some decoded.frame.request.command

section Correlated

variable {decoded : DecodedRequest}

theorem correlated_of_decodeRequest_ok (hd : decodeRequest bytes = .ok decoded)
    (hc : response.command = some decoded.frame.request.command) :
    Correlated bytes (encodeResponse ⟨decoded.frame.requestId, response⟩) := by
  refine ⟨_, decodeResponse_eq_ok.mpr rfl, ?_, ?_, ?_⟩
  · rw [requestId_eq_leading hd]
    exact requestIdFromPrefix_toBytes
  · cases response
    case success => exact fun h => absurd rfl h
    case error   => exact fun _ => rfl
  · intro decoded' hd'
    cases hd.symm.trans hd'
    exact hc

theorem correlated_of_decodeRequest_error (hd : decodeRequest bytes = .error error) :
    Correlated bytes (decodeErrorResponse bytes error) := by
  have hi := decodeErrorRequestId_eq (Codec.decodeRequest_error hd)
  have hc (status) (hs : status ≠ .ok) :
      Correlated bytes (errorResponse (decodeErrorRequestId bytes error) none status hs) := by
    refine ⟨_, decodeResponse_eq_ok.mpr rfl, ?_, fun _ => rfl, ?_⟩
    · rw [hi]
      exact requestIdFromPrefix_toBytes
    · intro decoded hd'
      cases hd.symm.trans hd'
  unfold decodeErrorResponse
  split <;> exact hc _ _

theorem screen_correlated [Profile] [Ed25519] {service : RelayService}
    (h : (service.screen bytes now).fst = .error (.ok response)) : Correlated bytes response := by
  unfold screen at h
  split at h
  case h_1 hd =>
    cases h
    exact correlated_of_decodeRequest_error hd
  case h_2 decoded hd =>
    dsimp only at h
    split at h
    case h_1 =>
      cases h
      exact correlated_of_decodeRequest_ok hd rfl
    case h_2 =>
      split at h
      case h_1 => cases h
      case h_2 => cases h
      case h_3 =>
        split at h <;> cases h
        exact correlated_of_decodeRequest_ok hd rfl

theorem executeQueueRequest_command (h : executeQueueRequest request now tables = .ok (body, tables')) :
    body.command = request.command := by
  cases request
  case createQueue create =>
    simp only [executeQueueRequest] at h
    split at h
    case h_1 => cases h
    case h_2 =>
      obtain ⟨_, _, h⟩ := Except.bind_eq_ok.mp h
      cases h
      rfl
  case send send =>
    simp only [executeQueueRequest] at h
    split at h
    case h_1 => cases h
    case h_2 =>
      obtain ⟨_, _, h⟩ := Except.bind_eq_ok.mp h
      cases h
      rfl
  case fetch fetch =>
    obtain ⟨⟨delivery, _⟩, _, h⟩ := Except.bind_eq_ok.mp h
    cases delivery
    case none =>
      cases h
      rfl
    case some =>
      simp only at h
      split at h <;> cases h
      rfl
  all_goals
    obtain ⟨_, _, h⟩ := Except.bind_eq_ok.mp h
    cases h
    rfl

theorem answered_correlated {database : Database Store} (hd : decodeRequest bytes = .ok decoded)
    (h : Answered (Rejects database) database (queueCall bytes now decoded) response transaction) :
    Correlated bytes response := by
  cases h
  case rejection h =>
    obtain ⟨error, _, rfl⟩ := h
    exact correlated_of_decodeRequest_ok hd rfl
  case success h =>
    obtain ⟨_, he, _⟩ := DurableRelay.queueEffect_eq_ok.mp h
    exact correlated_of_decodeRequest_ok hd (congrArg some (executeQueueRequest_command he))

end Correlated

section BlobCorrelated

variable {decoded : DecodedBlobRequest}

theorem blobCorrelated_of_decodeBlobRequest_ok (hd : decodeBlobRequest bytes = .ok decoded)
    (hw : ResponseWellFormed response)
    (hc : response.command = some decoded.frame.request.command) :
    BlobCorrelated bytes (encodeBlobResponse ⟨decoded.frame.requestId, response⟩) := by
  refine ⟨_, decodeBlobResponse_eq_ok.mpr ⟨hw, rfl⟩, ?_, ?_, ?_⟩
  · rw [blobRequestId_eq_leading hd]
    exact requestIdFromPrefix_toBytes
  · intro hs
    exact Option.not_isSome_iff_eq_none.mp (mt hw.isSome_iff.mp hs)
  · intro decoded' hd'
    cases hd.symm.trans hd'
    exact hc

theorem wellFormed_of_status_ne_ok (h : status ≠ .ok) :
    ResponseWellFormed { command, status, body := none } :=
  ⟨by simpa, by simp, by simp⟩

theorem blobCorrelated_of_decodeBlobRequest_error (hd : decodeBlobRequest bytes = .error error) :
    BlobCorrelated bytes (blobDecodeErrorResponse bytes error) := by
  have hi := decodeErrorRequestId_eq (Codec.decodeBlobRequest_error hd)
  have hc {status} (hs : status ≠ .ok) :
      BlobCorrelated bytes (blobErrorResponse (decodeErrorRequestId bytes error) none status) := by
    refine ⟨_, decodeBlobResponse_eq_ok.mpr ⟨wellFormed_of_status_ne_ok hs, rfl⟩, ?_, fun _ => rfl, ?_⟩
    · rw [hi]
      exact requestIdFromPrefix_toBytes
    · intro decoded hd'
      cases hd.symm.trans hd'
  unfold blobDecodeErrorResponse
  split <;> exact hc (by decide)

theorem screenBlob_correlated [Profile] [Ed25519] {service : RelayService}
    (h : (service.screenBlob bytes now).fst = .error (.ok response)) : BlobCorrelated bytes response := by
  unfold screenBlob at h
  split at h
  case h_1 hd =>
    cases h
    exact blobCorrelated_of_decodeBlobRequest_error hd
  case h_2 decoded hd =>
    dsimp only at h
    split at h
    case h_1 =>
      cases h
      exact blobCorrelated_of_decodeBlobRequest_ok hd (wellFormed_of_status_ne_ok (by decide)) rfl
    case h_2 => split at h <;> cases h

theorem answered_blobCorrelated [Sha256] {database : Database Store} (hv : database.store.blob.Valid)
    (hd : decodeBlobRequest bytes = .ok decoded)
    (h : Answered (Rejects database) database (blobCall bytes now decoded) response transaction) :
    BlobCorrelated bytes response := by
  cases h
  case rejection h =>
    obtain ⟨error, _, rfl⟩ := h
    exact blobCorrelated_of_decodeBlobRequest_ok hd (wellFormed_of_status_ne_ok (blobStatus_ne_ok error)) rfl
  case success h =>
    obtain ⟨_, he, _⟩ := DurableRelay.blobEffect_eq_ok.mp h
    exact blobCorrelated_of_decodeBlobRequest_ok hd (executeBlobRequest_wellFormed hv he) rfl

end BlobCorrelated

section Run

variable [Profile] [Ed25519] [Sha256] {inputs : Nat → Input}

-- Recorded responses belong to the recorded requests.
theorem record_correlated (h : row ∈ (database inputs n).replays .queue) :
    Correlated row.request row.response := by
  obtain ⟨m, _, call, response, hp, hn, rfl⟩ := performs_of_mem h
  obtain ⟨_, hc⟩ := hp.calls
  obtain ⟨_, ha, -⟩ := hp.answered
  generalize inputs m = input at hc
  cases hc
  case blob => cases hn
  case queue hq => exact answered_correlated hq.decode ha

theorem record_blobCorrelated (h : row ∈ (database inputs n).replays .blob) :
    BlobCorrelated row.request row.response := by
  obtain ⟨m, _, call, response, hp, hn, rfl⟩ := performs_of_mem h
  obtain ⟨_, hc⟩ := hp.calls
  obtain ⟨_, ha, -⟩ := hp.answered
  generalize inputs m = input at hc
  cases hc
  case queue => cases hn
  case blob hq => exact answered_blobCorrelated (store_valid inputs m).blob hq.decode ha

theorem exchangeAt_correlated
    (h : ((machine.state inputs n).exchangeAt bytes now fault).fst = .ok response) :
    Correlated bytes response := by
  have hs := screen_screened (machine.state inputs n) bytes now
  have hr : ((machine.state inputs n).screen bytes now).snd.relay = database inputs n :=
    screen_relay ..
  have hc (response) (h : ((machine.state inputs n).screen bytes now).fst = .error (.ok response)) :
      Correlated bytes response := screen_correlated h
  unfold exchangeAt at h
  generalize (machine.state inputs n).screen bytes now = result at hs hr hc h
  obtain ⟨screened, service⟩ := result
  cases hs
  case refuse =>
    cases h
    exact hc _ rfl
  case limit => cases h
  case pass decoded ha =>
    have hs := submit_serves service (queueCall bytes now decoded)
      (errorResponse decoded.frame.requestId decoded.frame.request.command .authReplay) fault
    rw [h, hr] at hs
    generalize (service.submit ..).snd.relay = database' at hs
    cases hs
    case replay hm    => exact record_correlated hm
    case conflict     => exact correlated_of_decodeRequest_ok ha.decode rfl
    case perform _ hp => exact answered_correlated ha.decode hp

theorem exchangeBlobAt_correlated
    (h : ((machine.state inputs n).exchangeBlobAt bytes now fault).fst = .ok response) :
    BlobCorrelated bytes response := by
  have hs := screenBlob_screened (machine.state inputs n) bytes now
  have hr : ((machine.state inputs n).screenBlob bytes now).snd.relay = database inputs n :=
    screenBlob_relay ..
  have hc (response) (h : ((machine.state inputs n).screenBlob bytes now).fst = .error (.ok response)) :
      BlobCorrelated bytes response := screenBlob_correlated h
  unfold exchangeBlobAt at h
  generalize (machine.state inputs n).screenBlob bytes now = result at hs hr hc h
  obtain ⟨screened, service⟩ := result
  cases hs
  case refuse =>
    cases h
    exact hc _ rfl
  case limit => cases h
  case pass decoded ha =>
    have hs := submit_serves service (blobCall bytes now decoded)
      (blobErrorResponse decoded.frame.requestId decoded.frame.request.command .authReplay) fault
    rw [h, hr] at hs
    generalize (service.submit ..).snd.relay = database' at hs
    cases hs
    case replay hm => exact record_blobCorrelated hm
    case conflict =>
      exact blobCorrelated_of_decodeBlobRequest_ok ha.decode (wellFormed_of_status_ne_ok (by decide)) rfl
    case perform _ hp => exact answered_blobCorrelated (store_valid inputs n).blob ha.decode hp

end Run

-- A client accepts a response which belongs to its request.
theorem Correlated.checkedResponse {request : RequestFrame}
    (h : Correlated (encodeRequest request) response) :
    ∃ r, Client.checkedResponse response request.requestId request.request.command = .ok r := by
  obtain ⟨frame, hd, hi, _, hc⟩ := h
  have hr : decodeRequest (encodeRequest request) =
      .ok ⟨request, Codec.encodeAuthenticatedRequest request.requestId request.request⟩ :=
    decodeRequest_eq_ok.mpr ⟨rfl, rfl⟩
  have hi : frame.requestId = request.requestId := by
    rw [←requestIdFromPrefix_toBytes, ←requestId_eq_leading hr] at hi
    exact requestId_eq hi
  have hc : frame.response.command = some request.request.command := hc _ hr
  simp [Client.checkedResponse, hd, hi, hc]

-- After any run, every response to a frame belongs to that frame, so that a client which sent it does
-- not see a mismatch.
theorem responses_well_formed_and_correlated [Profile] [Ed25519] [Sha256] (inputs : Nat → Input)
    (n : Nat) (bytes : Bytes) (now : Timestamp) (fault : Bool) (response : Bytes) :
    (((machine.state inputs n).exchangeAt bytes now fault).fst = .ok response →
      Correlated bytes response ∧ ∀ request, bytes = encodeRequest request →
        ∃ r, Client.checkedResponse response request.requestId request.request.command = .ok r) ∧
    (((machine.state inputs n).exchangeBlobAt bytes now fault).fst = .ok response →
      BlobCorrelated bytes response) := by
  refine ⟨fun h => ?_, exchangeBlobAt_correlated⟩
  have hc := exchangeAt_correlated h
  refine ⟨hc, fun request hb => ?_⟩
  subst hb
  exact hc.checkedResponse

end RelayService
end Cofferwire
