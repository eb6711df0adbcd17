import Cofferwire.Service.Theorems.RateLimit
import Cofferwire.Service.Theorems.Release
import Cofferwire.Service.Theorems.Reuse
import Cofferwire.Strict.Exchange
import Cofferwire.Strict.Theorems.Codec

namespace Cofferwire.Strict

open Codec (DecodeError DecodedRequest)
open DurableRelay
open Replay (Call Database EffectError)

section Crypto

variable [Ed25519]

theorem verifyProof_eq_some (h : domain.length + authenticated.length < 2 ^ 64) :
    verifyProof domain key authenticated auth =
      some (Cofferwire.verifyProof domain key authenticated auth) := by
  unfold verifyProof Cofferwire.verifyProof
  by_cases hl : auth.asBytes.length = 68
  case neg => simp [hl]
  case pos =>
    have hr {i j : Nat} (hi : i ≤ j) (hj : j ≤ 68) :
        range auth.asBytes i j = some (slice auth.asBytes i j) :=
      range_eq_some hi (hl ▸ hj)
    have hd : slice auth.asBytes 4 68 = auth.asBytes.drop 4 := by
      rw [slice, List.take_of_length_le (by simp [hl])]
    by_cases hp : slice auth.asBytes 0 2 = profileId <;>
      by_cases hs : slice auth.asBytes 2 4 = ed25519Id <;>
      simp [hl, hr, hd, hp, hs]
    cases Ed25519.fromBytes key
    case none     => rfl
    case some key => cases ByteVec.tryFrom 64 (auth.asBytes.drop 4) <;> simp [add_eq_some h]

end Crypto

namespace RateLimiter

-- The entries at the front have left the window up to one for which the sum overflows.
def Overflows (windowSecs now : UInt64) (entries : List UInt64) : Prop :=
  ∃ front oldest rest, entries = front ++ oldest :: rest ∧
    (∀ t ∈ front, t.toNat + windowSecs.toNat ≤ now.toNat) ∧
    2 ^ 64 ≤ oldest.toNat + windowSecs.toNat

theorem Overflows.cons_iff :
    Overflows w now (t :: rest) ↔
      2 ^ 64 ≤ t.toNat + w.toNat ∨ t.toNat + w.toNat ≤ now.toNat ∧ Overflows w now rest where
  mp h := by
    obtain ⟨front, oldest, rest, he, hf, ho⟩ := h
    cases front
    case nil =>
      cases he
      exact .inl ho
    case cons t front =>
      cases he
      rw [List.forall_mem_cons] at hf
      exact .inr ⟨hf.left, front, oldest, rest, rfl, hf.right, ho⟩
  mpr h := by
    obtain ho | ⟨hf, front, oldest, rest, rfl, hf', ho⟩ := h
    · exact ⟨[], t, rest, rfl, nofun, ho⟩
    · exact ⟨t :: front, oldest, rest, rfl, List.forall_mem_cons.mpr ⟨hf, hf'⟩, ho⟩

theorem popFront_eq_none : popFront w now entries = none ↔ Overflows w now entries := by
  induction entries
  case nil => simp [popFront, Overflows]
  case cons t rest hi =>
    rw [Overflows.cons_iff, ←hi, popFront]
    cases hc : checkedAdd t w
    case none =>
      have ho : 2 ^ 64 ≤ t.toNat + w.toNat := by
        simpa [checkedAdd] using hc
      exact iff_of_true rfl (.inl ho)
    case some leaves =>
      have he := checkedAdd_eq_some.mp hc
      have hl := leaves.toNat_lt
      simp only [Option.bind_eq_bind, Option.bind_some, UInt64.le_iff_toNat_le, ←he]
      split
      case isTrue h  => simp [h]; omega
      case isFalse h => simp [h]; omega

variable [DecidableEq κ] {limiter : RateLimiter κ}

-- A poisoned limiter does not look at its windows.
def Exposed (limiter : RateLimiter κ) (a : κ) (now : UInt64) : Prop :=
  ¬limiter.poisoned ∧ ∃ window ∈ Table.lookup RateLimiter.Window.key a limiter.windows,
    Overflows limiter.windowSecs now window.entries

theorem admits_eq_none : admits limiter a now = none ↔ Exposed limiter a now := by
  unfold admits Exposed
  split
  case isTrue h => simp [h]
  case isFalse h =>
    cases Table.lookup RateLimiter.Window.key a limiter.windows
    case none =>
      dsimp only
      split <;> simp
    case some window =>
      cases hp : popFront limiter.windowSecs now window.entries
      case none =>
        have ho := popFront_eq_none.mp hp
        simp only [hp, Option.bind_eq_bind, Option.bind_none, true_iff]
        exact ⟨h, window, rfl, ho⟩
      case some entries =>
        have hn : ¬Overflows limiter.windowSecs now window.entries := by
          rw [←popFront_eq_none, hp]
          simp
        simp only [hp, Option.bind_eq_bind, Option.bind_some, Option.mem_def, Option.some.injEq,
          exists_eq_left', hn, and_false, iff_false]
        split <;> simp

variable [Profile]

-- As long as nothing overflows, the build profile does not matter.
theorem popFront_eq_some (h : popFront w now entries = some entries') :
    Cofferwire.RateLimiter.popFront w now entries = some entries' := by
  induction entries
  case nil => exact h
  case cons t rest hi =>
    rw [popFront] at h
    cases hc : checkedAdd t w
    case none => simp [hc] at h
    case some leaves =>
      have hs : t + w = leaves := Option.some.inj (Option.ite_none_right_eq_some.mp hc).right
      have hl : Cofferwire.RateLimiter.hasLeft w now t = some (decide (leaves ≤ now)) := by
        simp [Cofferwire.RateLimiter.hasLeft, hc, hs]
      simp only [hc, Option.bind_eq_bind, Option.bind_some] at h
      simp only [Cofferwire.RateLimiter.popFront, hl, Option.bind_eq_bind, Option.bind_some,
        decide_eq_true_eq]
      split at h
      case isTrue hn =>
        rw [if_pos hn]
        exact hi h
      case isFalse hn =>
        rw [if_neg hn]
        exact h

theorem admits_eq_some (h : admits limiter a now = some (admitted, limiter')) :
    limiter.admits a now = (some admitted, limiter') := by
  rw [admits] at h
  rw [Cofferwire.RateLimiter.admits]
  split at h
  case isTrue hp =>
    rw [if_pos hp]
    cases h
    rfl
  case isFalse hp =>
    rw [if_neg hp]
    cases hw : Table.lookup RateLimiter.Window.key a limiter.windows
    case none =>
      simp only [hw] at h ⊢
      split at h <;> cases h <;> simp [*]
    case some window =>
      simp only [hw] at h ⊢
      obtain ⟨entries, he, h⟩ := Option.bind_eq_some_iff.mp h
      simp only [popFront_eq_some he]
      split at h <;> cases h <;> simp [*]

end RateLimiter

section Store

theorem usizeToU64_eq_some : usizeToU64 value = some value :=
  if_pos value.toNat_lt

theorem createQueueTx_agrees :
    Checked.Agrees (createQueueTx tables q config) (DurableRelay.createQueueTx tables q config) :=
  .bind_some usizeToU64_eq_some <| .bind_some usizeToU64_eq_some <| .lift _

theorem sendTx_agrees :
    Checked.Agrees (sendTx tables q s m p now ttl)
      (DurableRelay.sendTx tables q s m p now ttl) := by
  refine Checked.Agrees.bind (.lift _) fun config _ => ?_
  cases config
  case none        => exact .throw _
  case some config => exact .ite (fun _ => .throw _) fun _ => .bind_some usizeToU64_eq_some (.lift _)

theorem executeQueueRequest_agrees :
    Checked.Agrees (executeQueueRequest request now tables)
      (DurableRelay.executeQueueRequest request now tables) := by
  cases request
  case createQueue create =>
    simp only [executeQueueRequest, DurableRelay.executeQueueRequest]
    cases Relay.QueueLimits.new create.limits.maxMessages create.limits.maxMessageBytes
    case none        => exact .throw _
    case some limits => exact createQueueTx_agrees.bind fun _ _ => .pure _
  case send send =>
    simp only [executeQueueRequest, DurableRelay.executeQueueRequest]
    cases Relay.Ttl.fromSecs send.ttl
    case none     => exact .throw _
    case some ttl => exact sendTx_agrees.bind fun _ _ => .pure _
  all_goals exact .lift _

theorem parseManifest_agrees :
    Checked.Agrees (parseManifest bytes) (DurableRelay.parseManifest bytes) := by
  rw [parseManifest, (Blob.parse_agrees bytes).adapt]
  exact .lift _

theorem objectManifest_agrees :
    Checked.Agrees (objectManifest tables b) (DurableRelay.objectManifest tables b) := by
  unfold objectManifest DurableRelay.objectManifest
  cases object tables b
  case none     => exact .throw _
  case some row => exact parseManifest_agrees

variable [Sha256]

-- The size of a chunk is a `u32`.
theorem putBlobChunkTx_agrees :
    Checked.Agrees (putBlobChunkTx tables u cap i bytes now)
      (DurableRelay.putBlobChunkTx tables u cap i bytes now) := by
  refine Checked.Agrees.bind (.lift _) fun row _ => Checked.Agrees.bind (.lift _) fun _ _ =>
    Checked.Agrees.bind (.lift _) fun _ _ => parseManifest_agrees.bind fun manifest _ =>
    Checked.Agrees.bind (.lift _) fun digest _ => ?_
  have hs := manifest.chunkSize.toNat_lt
  refine .bind_some (add_eq_some (by omega)) <| Checked.Agrees.bind (.lift _) fun _ _ => ?_
  cases uploadChunk tables u i
  case none          => exact Checked.Agrees.bind (.lift _) fun _ _ => .pure _
  case some existing => exact Checked.Agrees.bind (.lift _) fun _ _ => .pure _

theorem commitBlobTx_agrees :
    Checked.Agrees (commitBlobTx tables u cap requested now)
      (DurableRelay.commitBlobTx tables u cap requested now) := by
  refine Checked.Agrees.bind (.lift _) fun row _ => Checked.Agrees.bind (.lift _) fun _ _ =>
    Checked.Agrees.bind (.lift _) fun _ _ => ?_
  cases row.committedBlob
  case some committed => exact Checked.Agrees.bind (.lift _) fun _ _ => .pure _
  case none =>
    exact parseManifest_agrees.bind fun manifest _ => Checked.Agrees.bind (.lift _) fun _ _ =>
      Checked.Agrees.bind (.lift _) fun _ _ => Checked.Agrees.bind (.lift _) fun _ _ =>
      Checked.Agrees.bind (.lift _) fun _ _ => Checked.Agrees.bind (.lift _) fun _ _ => .pure _

theorem getBlobManifestTx_agrees :
    Checked.Agrees (getBlobManifestTx tables b cap now)
      (DurableRelay.getBlobManifestTx tables b cap now) :=
  Checked.Agrees.bind (.lift _) fun _ _ => objectManifest_agrees.bind fun _ _ =>
    Checked.Agrees.bind (.lift _) fun _ _ => .pure _

theorem getBlobChunkTx_agrees :
    Checked.Agrees (getBlobChunkTx tables b cap i now)
      (DurableRelay.getBlobChunkTx tables b cap i now) :=
  Checked.Agrees.bind (.lift _) fun _ _ => objectManifest_agrees.bind fun _ _ =>
    Checked.Agrees.bind (.lift _) fun _ _ => Checked.Agrees.bind (.lift _) fun _ _ =>
    Checked.Agrees.bind (.lift _) fun _ _ => .pure _

theorem executeBlobRequest_agrees :
    Checked.Agrees (executeBlobRequest request now tables)
      (DurableRelay.executeBlobRequest request now tables) := by
  cases request
  case putChunk    => exact putBlobChunkTx_agrees.bind fun _ _ => .pure _
  case commit      => exact commitBlobTx_agrees.bind fun _ _ => .pure _
  case getManifest => exact getBlobManifestTx_agrees.bind fun _ _ => .pure _
  case getChunk    => exact getBlobChunkTx_agrees.bind fun _ _ => .pure _
  all_goals exact .lift _

end Store

section Response

theorem errorResponse_eq_some (failed : status ≠ .ok) :
    errorResponse requestId command status =
      some (Cofferwire.errorResponse requestId command status failed) := by
  have hn : ErrorResponse.new command status = .ok ⟨command, status, failed⟩ := dif_neg failed
  simp [errorResponse, hn, Except.toOption, encodeResponse_eq_some, Cofferwire.errorResponse]

theorem blobErrorResponse_eq_some :
    blobErrorResponse requestId command status =
      some (Cofferwire.blobErrorResponse requestId command status) :=
  Blob.encodeBlobResponse_eq_some nofun

theorem encodeQueueOutcome_eq_some :
    encodeQueueOutcome requestId command result =
      some (Cofferwire.encodeQueueOutcome requestId command result) := by
  cases result
  case ok body     => exact encodeResponse_eq_some
  case error error => exact errorResponse_eq_some _

theorem requestIdFromPrefix_eq_some :
    requestIdFromPrefix bytes = some (Cofferwire.requestIdFromPrefix bytes) := by
  unfold requestIdFromPrefix Cofferwire.requestIdFromPrefix
  split
  case isTrue h =>
    have hl : (slice bytes 1 17).length = 16 := slice_length h
    have ht : ByteVec.tryFrom 16 (slice bytes 1 17) = some ⟨_, hl⟩ := copyFromSlice_eq_some hl
    simp [copyFromSlice, ht]
  case isFalse h =>
    have hl : (slice bytes 1 17).length ≠ 16 := by simp [slice]; omega
    have ht : ByteVec.tryFrom 16 (slice bytes 1 17) = none := dif_neg hl
    simp [ht]

theorem decodeErrorRequestId_eq_some :
    decodeErrorRequestId bytes error = some (Cofferwire.decodeErrorRequestId bytes error) := by
  cases error
  case unsupportedVersion => rfl
  all_goals exact requestIdFromPrefix_eq_some

theorem decodeErrorResponse_eq_some :
    decodeErrorResponse bytes error = some (Cofferwire.decodeErrorResponse bytes error) := by
  simp only [decodeErrorResponse, decodeErrorRequestId_eq_some, Option.bind_eq_bind, Option.bind_some]
  cases error <;> exact errorResponse_eq_some _

theorem blobDecodeErrorResponse_eq_some :
    blobDecodeErrorResponse bytes error = some (Cofferwire.blobDecodeErrorResponse bytes error) := by
  simp only [blobDecodeErrorResponse, decodeErrorRequestId_eq_some, Option.bind_eq_bind,
    Option.bind_some, Cofferwire.blobDecodeErrorResponse, blobErrorResponse_eq_some]
  split <;> simp

end Response

section Exchange

theorem queueEffect_agrees {effect : QueueTables → Except DurableRelayError (α × QueueTables)}
    (h : Checked.Agrees (effect' store.queue) (effect store.queue)) :
    Checked.Agrees (queueEffect effect' store) (DurableRelay.queueEffect effect store) :=
  .bind_some h (.lift _)

theorem blobEffect_agrees {effect : BlobTables → Except BlobDurableError (α × BlobTables)}
    (h : Checked.Agrees (effect' store.blob) (effect store.blob)) :
    Checked.Agrees (blobEffect effect' store) (DurableRelay.blobEffect effect store) :=
  .bind_some h (.lift _)

variable {call : Call Store} {effect : Store → Checked (EffectError call.ε) (call.α × Store)}
  {encode : Except call.ε call.α → Option Bytes}

theorem exchange_eq_some {database : Database Store}
    (he : Checked.Agrees (effect database.store) (call.effect database.store))
    (hv : ∀ value store, call.effect database.store = .ok (value, store) →
      encode (.ok value) = some (call.encode (.ok value)))
    (hr : ∀ error, encode (.error error) = some (call.encode (.error error))) :
    exchange database call effect encode = some (Replay.exchange database call) := by
  unfold exchange Replay.exchange
  rw [he]
  cases hc : call.effect database.store
  case error error => cases error <;> simp [hr]
  case ok result   => simp [hv result.fst result.snd hc]

theorem RelayService.submit_eq_some {service : RelayService}
    (h : exchange service.relay call effect encode = some (Replay.exchange service.relay call))
    (hc : conflict = some response) :
    submit service call effect encode conflict fault = some (service.submit call response fault) := by
  have ha : submit.answer service call effect encode conflict =
      some (service.submit call response false) := by
    unfold submit.answer Cofferwire.RelayService.submit
    cases Replay.lookup service.relay call.ns call.subject call.requestId
    case some row =>
      by_cases hr : row.request = call.request <;> simp [hr, hc]
    case none =>
      rw [h]
      rcases Replay.exchange service.relay call with ⟨_ | _ | _, relay⟩ <;> simp [hc]
  unfold submit
  rw [ha]
  cases fault <;> rfl

end Exchange

namespace RelayService

open Cofferwire.RelayService (Input)

variable {service : RelayService}

-- No sum of a rate limiter overflows.
structure Punctual (service : RelayService) : Prop where
  queue : service.queueRateLimiter.Fit queueRateLimitWindowSecs
  blob  : service.blobRateLimiter.Fit blobRateLimitWindowSecs

theorem Punctual.new : Punctual (.new relay) where
  queue := ⟨rfl, rfl, nofun⟩
  blob  := ⟨rfl, rfl, nofun⟩

-- The database does not matter to the rate limiters.
theorem Punctual.submit (h : Punctual service) :
    Punctual (service.submit call conflict fault).snd := by
  unfold Cofferwire.RelayService.submit
  split
  case isTrue => exact h
  case isFalse =>
    split
    case h_1 => exact h
    case h_2 => split <;> exact ⟨h.queue, h.blob⟩

variable [Ed25519]

-- A frame decodes and verifies, and then a sum of its rate limiter overflows.
def Overflows : Input → RelayService → Prop
  | .exchange bytes now _, service =>
    ∃ decoded, Codec.decodeRequest bytes = .ok decoded ∧
      Cofferwire.verifyRequest (requestPrincipal decoded.frame.request) decoded.authenticatedBytes
        decoded.frame.auth = .ok () ∧
      RateLimiter.Exposed service.queueRateLimiter (requestPrincipal decoded.frame.request) now
  | .exchangeBlob bytes now _, service =>
    ∃ decoded, Codec.Blob.decodeBlobRequest bytes = .ok decoded ∧
      Cofferwire.verifyBlobRequest decoded.frame.request.capability decoded.authenticatedBytes
        decoded.frame.auth = .ok () ∧
      RateLimiter.Exposed service.blobRateLimiter decoded.frame.request.capability now
  | .restart, _ => False

theorem Punctual.not_overflows (h : Punctual service) : ¬Overflows input service := by
  have hn {κ w a now} [DecidableEq κ] {limiter : RateLimiter κ} (hf : limiter.Fit w) :
      ¬RateLimiter.Exposed limiter a now := by
    rintro ⟨-, window, hw, front, oldest, rest, he, -, ho⟩
    have hb := hf.bounded window (Table.mem_of_lookup hw) oldest (he ▸ by simp)
    rw [hf.windowSecs] at ho
    omega
  cases input
  case exchange     => exact fun ⟨_, _, _, he⟩ => hn h.queue he
  case exchangeBlob => exact fun ⟨_, _, _, he⟩ => hn h.blob he
  case restart      => exact id

-- A proof binds a part of the frame, whose length is limited.
theorem verifyRequest_agrees (h : Codec.decodeRequest bytes = .ok decoded) :
    Checked.Agrees (verifyRequest p decoded.authenticatedBytes auth)
      (Cofferwire.verifyRequest p decoded.authenticatedBytes auth) := by
  obtain ⟨hb, ha⟩ := Codec.decodeRequest_eq_ok.mp h
  have hl : decoded.authenticatedBytes.length ≤ maxFrameBytes := by
    have he : (Codec.encodeRequest decoded.frame).length ≤ maxFrameBytes :=
      Codec.encodeRequest_length_le
    rw [Codec.encodeRequest, List.length_append] at he
    rw [ha]
    omega
  have hl : relayAuthDomain.length + decoded.authenticatedBytes.length < 2 ^ 64 :=
    (Nat.add_le_add_left hl _).trans_lt (by decide)
  exact .bind_some (verifyProof_eq_some hl) <| .ite (fun _ => .pure _) fun _ => .throw _

theorem verifyBlobRequest_agrees (h : Codec.Blob.decodeBlobRequest bytes = .ok decoded) :
    Checked.Agrees (verifyBlobRequest cap decoded.authenticatedBytes auth)
      (Cofferwire.verifyBlobRequest cap decoded.authenticatedBytes auth) := by
  obtain ⟨⟨hw, hp⟩, hb, ha⟩ := Codec.Blob.decodeBlobRequest_eq_ok.mp h
  have hl : decoded.authenticatedBytes.length ≤ maxBlobFrameBytes := by
    have he := Codec.Blob.encodeBlobRequest_length_le hw hp
    rw [Codec.Blob.encodeBlobRequest, List.length_append] at he
    rw [ha]
    omega
  have hl : blobRequestDomain.length + decoded.authenticatedBytes.length < 2 ^ 64 :=
    (Nat.add_le_add_left hl _).trans_lt (by decide)
  exact .bind_some (verifyProof_eq_some hl) <| .ite (fun _ => .pure _) fun _ => .throw _

theorem screen_eq_none (h : Overflows (.exchange bytes now fault) service) :
    screen service bytes now = none := by
  obtain ⟨decoded, hd, hv, ho⟩ := h
  unfold screen
  rw [decodeRequest_agrees, hd]
  simp [(verifyRequest_agrees hd).trans (congrArg some hv), RateLimiter.admits_eq_none.mpr ho]

theorem screenBlob_eq_none (h : Overflows (.exchangeBlob bytes now fault) service) :
    screenBlob service bytes now = none := by
  obtain ⟨decoded, hd, hv, ho⟩ := h
  unfold screenBlob
  rw [Blob.decodeBlobRequest_agrees, hd]
  simp [(verifyBlobRequest_agrees hd).trans (congrArg some hv), RateLimiter.admits_eq_none.mpr ho]

theorem step_eq_none [Sha256] (h : Overflows input service) : step input service = none := by
  cases input
  case exchange     => simp [step, exchangeAt, screen_eq_none h]
  case exchangeBlob => simp [step, exchangeBlobAt, screenBlob_eq_none h]
  case restart      => exact h.elim

variable [Profile]

theorem screen_eq_some (h : ¬Overflows (.exchange bytes now fault) service) :
    screen service bytes now = some (service.screen bytes now) := by
  unfold screen Cofferwire.RelayService.screen
  rw [decodeRequest_agrees]
  cases hd : Codec.decodeRequest bytes
  case error error => simp [decodeErrorResponse_eq_some]
  case ok decoded =>
    simp only [Option.bind_eq_bind, Option.bind_some]
    rw [verifyRequest_agrees hd]
    cases hv : Cofferwire.verifyRequest (requestPrincipal decoded.frame.request)
      decoded.authenticatedBytes decoded.frame.auth
    case error error => simp [errorResponse_eq_some]
    case ok =>
      cases ha : RateLimiter.admits service.queueRateLimiter
        (requestPrincipal decoded.frame.request) now
      case none => exact absurd ⟨decoded, hd, hv, RateLimiter.admits_eq_none.mp ha⟩ h
      case some verdict =>
        obtain ⟨admitted, limiter⟩ := verdict
        cases admitted
        case false => simp [RateLimiter.admits_eq_some ha]
        case true =>
          simp only [RateLimiter.admits_eq_some ha, not_true, if_false, Option.bind_some]
          split
          case h_1 hq =>
            split
            case h_1    => rfl
            case h_2 hs => cases hq.symm.trans hs
          case h_2 status hq =>
            rw [errorResponse_eq_some (validateQueueRequest_ne_ok hq)]
            split
            case h_1 hs => cases hq.symm.trans hs
            case h_2 hs =>
              cases hq.symm.trans hs
              rfl

theorem screenBlob_eq_some (h : ¬Overflows (.exchangeBlob bytes now fault) service) :
    screenBlob service bytes now = some (service.screenBlob bytes now) := by
  unfold screenBlob Cofferwire.RelayService.screenBlob
  rw [Blob.decodeBlobRequest_agrees]
  cases hd : Codec.Blob.decodeBlobRequest bytes
  case error error => simp [blobDecodeErrorResponse_eq_some]
  case ok decoded =>
    simp only [Option.bind_eq_bind, Option.bind_some]
    rw [verifyBlobRequest_agrees hd]
    cases hv : Cofferwire.verifyBlobRequest decoded.frame.request.capability
      decoded.authenticatedBytes decoded.frame.auth
    case error error => simp [blobErrorResponse_eq_some]
    case ok =>
      cases ha : RateLimiter.admits service.blobRateLimiter decoded.frame.request.capability now
      case none => exact absurd ⟨decoded, hd, hv, RateLimiter.admits_eq_none.mp ha⟩ h
      case some verdict =>
        obtain ⟨admitted, limiter⟩ := verdict
        cases admitted <;> simp [RateLimiter.admits_eq_some ha]

theorem Punctual.screen {now : Timestamp} (h : Punctual service) (hn : now.toNat + 60 < 2 ^ 64) :
    Punctual (service.screen bytes now).snd := by
  have hs (a : Principal) := (h.queue.admits hn a).left
  unfold Cofferwire.RelayService.screen
  split
  case h_1 => exact h
  case h_2 =>
    dsimp only
    split
    case h_1 => exact h
    case h_2 =>
      split
      case h_3 => split <;> exact ⟨hs _, h.blob⟩
      all_goals exact ⟨hs _, h.blob⟩

theorem Punctual.screenBlob {now : Timestamp} (h : Punctual service) (hn : now.toNat + 60 < 2 ^ 64) :
    Punctual (service.screenBlob bytes now).snd := by
  have hs (a : CapabilityId) := (h.blob.admits hn a).left
  unfold Cofferwire.RelayService.screenBlob
  split
  case h_1 => exact h
  case h_2 =>
    dsimp only
    split
    case h_1 => exact h
    case h_2 => split <;> exact ⟨h.queue, hs _⟩

theorem exchangeAt_eq_some (h : screen service bytes now = some (service.screen bytes now)) :
    exchangeAt service bytes now fault = some (service.exchangeAt bytes now fault) := by
  unfold exchangeAt Cofferwire.RelayService.exchangeAt
  rw [h]
  rcases service.screen bytes now with ⟨answer | decoded, service⟩
  case error => rfl
  case ok =>
    refine submit_eq_some (exchange_eq_some ?_ ?_ ?_) (errorResponse_eq_some _)
    · exact queueEffect_agrees executeQueueRequest_agrees
    · exact fun _ _ _ => encodeQueueOutcome_eq_some
    · exact fun _ => encodeQueueOutcome_eq_some

variable [Sha256]

-- Chunks which are stored are not too long for a response.
theorem exchangeBlobAt_eq_some (hv : service.relay.store.blob.Valid)
    (h : screenBlob service bytes now = some (service.screenBlob bytes now)) :
    exchangeBlobAt service bytes now fault = some (service.exchangeBlobAt bytes now fault) := by
  unfold exchangeBlobAt Cofferwire.RelayService.exchangeBlobAt
  rw [h]
  have hr := Cofferwire.RelayService.screenBlob_relay service bytes now
  rw [←hr] at hv
  generalize service.screenBlob bytes now = result at hv
  rcases result with ⟨answer | decoded, service⟩
  case error => rfl
  case ok =>
    refine submit_eq_some (exchange_eq_some ?_ ?_ ?_) blobErrorResponse_eq_some
    · exact blobEffect_agrees executeBlobRequest_agrees
    · intro body store he
      obtain ⟨tables, he, _⟩ := blobEffect_eq_ok.mp he
      have hw := Cofferwire.RelayService.executeBlobRequest_wellFormed hv he
      exact Blob.encodeBlobResponse_eq_some hw.body
    · exact fun _ => blobErrorResponse_eq_some

theorem step_eq_some (hv : service.relay.store.blob.Valid) (h : ¬Overflows input service) :
    step input service = some (Cofferwire.RelayService.step input service) := by
  cases input
  case exchange =>
    simp [step, exchangeAt_eq_some (screen_eq_some h), Cofferwire.RelayService.step]
  case exchangeBlob =>
    simp [step, exchangeBlobAt_eq_some hv (screenBlob_eq_some h), Cofferwire.RelayService.step]
  case restart => rfl

open Cofferwire.RelayService (machine blobTables_valid)

-- All operations on the path of an exchange are defined, except for the sums of the rate limiters.
-- If those are defined too, then the exchange is the one of the service.
theorem exchange_defined_iff (inputs : Nat → Input) (n : Nat) :
    ((step (inputs n) (machine.state inputs n)).isSome ↔
      ¬Overflows (inputs n) (machine.state inputs n)) ∧
    ∀ result ∈ step (inputs n) (machine.state inputs n),
      result = machine.step (inputs n) (machine.state inputs n) := by
  have hv := blobTables_valid inputs n
  by_cases h : Overflows (inputs n) (machine.state inputs n)
  case pos => simp [step_eq_none h, h]
  case neg =>
    rw [step_eq_some hv h]
    simp only [Option.isSome_some, h, not_false_eq_true, Option.mem_def, Option.some.injEq,
      true_and]
    exact fun _ hr => hr.symm

theorem Punctual.step (h : Punctual service)
    (hn : ∀ ns bytes now, input.frame = some (ns, bytes, now) → now.toNat + 60 < 2 ^ 64) :
    Punctual (Cofferwire.RelayService.step input service).snd := by
  cases input
  case exchange bytes now fault =>
    have hs : Punctual (service.screen bytes now).snd := h.screen (hn _ _ _ rfl)
    simp only [Cofferwire.RelayService.step, Cofferwire.RelayService.exchangeAt]
    generalize service.screen bytes now = result at hs
    rcases result with ⟨answer | decoded, service⟩
    case error => exact hs
    case ok    => exact hs.submit
  case exchangeBlob bytes now fault =>
    have hs : Punctual (service.screenBlob bytes now).snd := h.screenBlob (hn _ _ _ rfl)
    simp only [Cofferwire.RelayService.step, Cofferwire.RelayService.exchangeBlobAt]
    generalize service.screenBlob bytes now = result at hs
    rcases result with ⟨answer | decoded, service⟩
    case error => exact hs
    case ok    => exact hs.submit
  case restart => exact .new

-- The clock is early enough for the windows of the rate limiters to end.
theorem step_eq_some_of_early
    (h : ∀ n ns bytes now, (inputs n).frame = some (ns, bytes, now) → now.toNat + 60 < 2 ^ 64)
    (n : Nat) :
    step (inputs n) (machine.state inputs n) =
      some (machine.step (inputs n) (machine.state inputs n)) := by
  have hp : Punctual (machine.state inputs n) := by
    induction n
    case zero      => exact .new
    case succ n hi => exact hi.step (h n)
  exact step_eq_some (blobTables_valid inputs n) hp.not_overflows

end RelayService

namespace Late

open Cofferwire.RelayService (Input machine)

attribute [local instance] Toy.profile Toy.sha256 Toy.ed25519

def fetch : Request :=
  .fetch ⟨⟨.replicate 32 3⟩, Cofferwire.RelayService.Reused.principal⟩

-- The same request at the end of time, again and again.
def inputs (_ : Nat) : Input :=
  .exchange (Cofferwire.RelayService.Reused.frame fetch) 0xffffffffffffffff false

theorem exchange_undefined : RelayService.step (inputs 1) (machine.state inputs 1) = none := by
  decide +kernel

end Late
end Cofferwire.Strict
