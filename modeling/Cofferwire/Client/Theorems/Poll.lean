import Cofferwire.Client.Basic
import Cofferwire.Codec.Theorems.Queue
import Cofferwire.Toy

namespace Cofferwire.Client

open Codec (ResponseFrame decodeRequest decodeResponse encodeAuthenticatedRequest encodeRequest)
open Program (Runs)

theorem checkedResponse_eq_ok :
    checkedResponse bytes requestId command = .ok response ↔
      decodeResponse bytes = .ok ⟨requestId, response⟩ ∧ response.command = some command := by
  unfold checkedResponse
  split
  case h_1 h => simp [h]
  case h_2 frame h =>
    obtain ⟨id, response'⟩ := frame
    simp only [h, Except.ite_error_eq_ok, Except.ok.injEq, ResponseFrame.mk.injEq, ne_eq,
      Decidable.not_not]
    constructor
    · rintro ⟨rfl, hc, rfl⟩
      exact ⟨⟨rfl, rfl⟩, hc⟩
    · rintro ⟨⟨rfl, rfl⟩, hc⟩
      exact ⟨rfl, hc, rfl⟩

section Rules

variable {pre : List interface.Event → Call → Prop}
  {post : List interface.Event → Except ClientError α → Prop}

theorem guarantees_nextRequestId {f : RequestId → Program interface ClientError α}
    (hp : pre past .nextRequestId)
    (hf : ∀ requestId, (f requestId).Guarantees pre post (past ++ [⟨.nextRequestId, requestId⟩])) :
    (nextRequestId >>= f).Guarantees pre post past :=
  ⟨hp, hf⟩

theorem guarantees_exchange {f : Bytes → Program interface ClientError α}
    (hp : pre past (.exchange request)) (he : ∀ past e, post past (.error e))
    (hf : ∀ bytes, (f bytes).Guarantees pre post (past ++ [⟨.exchange request, .ok bytes⟩])) :
    (exchange request >>= f).Guarantees pre post past :=
  ⟨hp, fun | .error _ => he _ _ | .ok bytes => hf bytes⟩

theorem guarantees_commit {f : CommitOutcome → Program interface ClientError α}
    (hp : pre past (.commit m plaintext)) (he : ∀ past e, post past (.error e))
    (hf : ∀ outcome, (f outcome).Guarantees pre post (past ++ [⟨.commit m plaintext, .ok outcome⟩])) :
    (commit m plaintext >>= f).Guarantees pre post past :=
  ⟨hp, fun | .error _ => he _ _ | .ok outcome => hf outcome⟩

end Rules

theorem decodeRequest_signedFrame [Ed25519] {key : Ed25519.SigningKey} :
    decodeRequest (signedFrame key requestId request) = .ok decoded ↔
      decoded = ⟨⟨requestId, request, signRequest key (encodeAuthenticatedRequest requestId request)⟩,
        encodeAuthenticatedRequest requestId request⟩ := by
  have h : decodeRequest (signedFrame key requestId request) = .ok ⟨⟨requestId, request,
      signRequest key (encodeAuthenticatedRequest requestId request)⟩,
      encodeAuthenticatedRequest requestId request⟩ :=
    Codec.decodeRequest_eq_ok.mpr ⟨rfl, rfl⟩
  rw [h, Except.ok.injEq, eq_comm]

-- The frame is a request to acknowledge a message.
def AcksMessage (frame : Bytes) (messageId : MessageId) : Prop :=
  ∃ decoded ack, decodeRequest frame = .ok decoded ∧ decoded.frame.request = .ack ack ∧
    ack.messageId = messageId

namespace Recipient

section Poll

variable [Ed25519] [Hpke] {recipient : Recipient}

theorem acksMessage_ackFrame : AcksMessage (recipient.ackFrame ackId m) m' ↔ m' = m := by
  simp only [AcksMessage, ackFrame, decodeRequest_signedFrame]
  constructor
  · rintro ⟨_, _, rfl, ⟨⟩, rfl⟩
    rfl
  · rintro rfl
    exact ⟨_, _, rfl, rfl, rfl⟩

theorem not_acksMessage_fetchFrame : ¬AcksMessage (recipient.fetchFrame fetchId) m := by
  simp only [AcksMessage, fetchFrame, decodeRequest_signedFrame]
  rintro ⟨_, _, rfl, ⟨⟩, _⟩

-- The calls which `poll` makes after certain events.
inductive Justified (recipient : Recipient) (past : List interface.Event) : Call → Prop
  | nextRequestId : Justified recipient past .nextRequestId
  | fetch : Justified recipient past (.exchange (recipient.fetchFrame fetchId))
  | commit
    (hr : ⟨.exchange request, .ok bytes⟩ ∈ past)
    (hd : decodeResponse bytes = .ok ⟨fetchId, .success (.fetch (some delivery))⟩)
    (ho : openMessage recipient.encryptionKey recipient.senderEncryptionKey
      (recipient.context delivery.messageId) delivery.payload = .ok plaintext) :
    Justified recipient past (.commit delivery.messageId plaintext)
  | ack (hc : ⟨.commit m plaintext, .ok outcome⟩ ∈ past) :
    Justified recipient past (.exchange (recipient.ackFrame ackId m))

-- The message has been committed with an outcome and the relay has confirmed its acknowledgement.
def Acknowledged (recipient : Recipient) (past : List interface.Event) (m : MessageId)
    (outcome : CommitOutcome) : Prop :=
  ∃ plaintext ackId bytes,
    ⟨.commit m plaintext, .ok outcome⟩ ∈ past ∧
    ⟨.exchange (recipient.ackFrame ackId m), .ok bytes⟩ ∈ past ∧
    decodeResponse bytes = .ok ⟨ackId, .success .ack⟩

-- The results which `poll` returns after certain events.
def Reported (recipient : Recipient) (past : List interface.Event) :
    Except ClientError PollOutcome → Prop
  | .ok (.applied m)                => recipient.Acknowledged past m .applied
  | .ok (.redeliveryAcknowledged m) => recipient.Acknowledged past m .alreadyCommitted
  | _                               => True

theorem reported_error (past : List interface.Event) (e : ClientError) :
    recipient.Reported past (.error e) :=
  trivial

theorem acknowledge_guarantees (hc : ⟨.commit m plaintext, .ok outcome⟩ ∈ past) :
    (recipient.acknowledge m outcome).Guarantees recipient.Justified recipient.Reported past := by
  refine guarantees_nextRequestId .nextRequestId fun ackId => ?_
  refine guarantees_exchange (.ack (List.mem_append_left _ hc)) reported_error fun bytes => ?_
  refine .bind_except (fun _ _ => trivial) fun response hr => ?_
  have ⟨hd, _⟩ := checkedResponse_eq_ok.mp hr
  generalize hp : past ++ [_] ++ [_] = past'
  have hc : ⟨.commit m plaintext, .ok outcome⟩ ∈ past' := by simp [←hp, hc]
  have he : ⟨.exchange (recipient.ackFrame ackId m), .ok bytes⟩ ∈ past' := by simp [←hp]
  split
  case h_1 =>
    have ha : recipient.Acknowledged past' m outcome := ⟨plaintext, ackId, bytes, hc, he, hd⟩
    cases outcome <;> exact ha
  case h_2 => trivial
  case h_3 => trivial

theorem receive_guarantees (hr : ⟨.exchange request, .ok bytes⟩ ∈ past)
    (hd : decodeResponse bytes = .ok ⟨fetchId, .success (.fetch (some delivery))⟩) :
    (recipient.receive delivery).Guarantees recipient.Justified recipient.Reported past := by
  refine .bind_except (fun _ _ => trivial) fun plaintext ho => ?_
  have hj := Justified.commit hr hd (Except.mapError_eq_ok.mp ho)
  refine guarantees_commit hj reported_error fun outcome => ?_
  exact acknowledge_guarantees (List.mem_append_right _ List.mem_cons_self)

theorem poll_guarantees (recipient : Recipient) :
    recipient.poll.Guarantees recipient.Justified recipient.Reported [] := by
  refine guarantees_nextRequestId .nextRequestId fun fetchId => ?_
  refine guarantees_exchange .fetch reported_error fun bytes => ?_
  refine .bind_except (fun _ _ => trivial) fun response hr => ?_
  have ⟨hd, _⟩ := checkedResponse_eq_ok.mp hr
  split
  case h_1 => trivial
  case h_2 => exact receive_guarantees (List.mem_append_right _ List.mem_cons_self) hd
  case h_3 => trivial
  case h_4 => trivial

theorem sealed_of_openMessage {Sealed : MessageContext → Bytes → Prop} {c : MessageContext}
    (authentic : ∀ key, recipient.senderEncryptionKey.parse = .ok key →
      ∀ encapped info aad ciphertext plaintext,
        Hpke.openAuth recipient.encryptionKey.privateKey key encapped info aad ciphertext =
          some plaintext →
        ∃ context, Sealed context plaintext ∧ info = contextBytes hpkeInfoDomain context ∧
          aad = contextBytes hpkeAadDomain context)
    (h : openMessage recipient.encryptionKey recipient.senderEncryptionKey c payload =
      .ok plaintext) :
    Sealed c plaintext := by
  obtain ⟨key, _, _, hk, ho⟩ := of_openMessage_eq_ok h
  obtain ⟨c', hs, hi, _⟩ := authentic key hk _ _ _ _ _ ho
  exact contextBytes_inj.mp hi ▸ hs

-- The relay cannot make a recipient apply or acknowledge a message of its choice, as `Sealed` are
-- the plaintexts which have been sealed with the sender's key.
theorem poll_authentic (recipient : Recipient) (Sealed : MessageContext → Bytes → Prop)
    (authentic : ∀ key, recipient.senderEncryptionKey.parse = .ok key →
      ∀ encapped info aad ciphertext plaintext,
        Hpke.openAuth recipient.encryptionKey.privateKey key encapped info aad ciphertext =
          some plaintext →
        ∃ context, Sealed context plaintext ∧ info = contextBytes hpkeInfoDomain context ∧
          aad = contextBytes hpkeAadDomain context) :
    (∀ trace m plaintext next,
      Runs recipient.poll trace (.call (.commit m plaintext) next) →
      Sealed ⟨recipient.queueId, recipient.sender, recipient.recipient, m⟩ plaintext) ∧
    (∀ trace request next m,
      Runs recipient.poll trace (.call (.exchange request) next) → AcksMessage request m →
      ∃ plaintext outcome, ⟨.commit m plaintext, .ok outcome⟩ ∈ trace) ∧
    -- As long as the message has not been committed, no acknowledgement is sent.
    (∀ trace p m, Runs recipient.poll trace p →
      (∀ plaintext outcome, ⟨.commit m plaintext, .ok outcome⟩ ∉ trace) →
      ∀ request response, ⟨.exchange request, response⟩ ∈ trace → ¬AcksMessage request m) ∧
    (∀ trace m,
      Runs recipient.poll trace (.done (.ok (.applied m))) ∨
      Runs recipient.poll trace (.done (.ok (.redeliveryAcknowledged m))) →
      ∃ ackId request bytes response,
        ⟨.exchange request, .ok bytes⟩ ∈ trace ∧ request = recipient.ackFrame ackId m ∧
        decodeResponse bytes = .ok ⟨ackId, response⟩ ∧ response.command = some .ack) := by
  have hj {trace c next} (hr : Runs recipient.poll trace (.call c next)) :
      recipient.Justified trace c :=
    (recipient.poll_guarantees.runs hr).left
  have ha {trace request next m} (hr : Runs recipient.poll trace (.call (.exchange request) next))
      (ha : AcksMessage request m) :
      ∃ plaintext outcome, ⟨.commit m plaintext, .ok outcome⟩ ∈ trace := by
    have hj := hj hr
    generalize hc : Call.exchange request = c at hj
    cases hj <;> cases hc
    case fetch => exact absurd ha not_acksMessage_fetchFrame
    case ack hc => exact acksMessage_ackFrame.mp ha ▸ ⟨_, _, hc⟩
  refine ⟨?_, fun _ _ _ _ => ha, ?_, ?_⟩
  · intro trace m plaintext next hr
    cases hj hr
    case commit ho => exact sealed_of_openMessage authentic ho
  · intro trace p m hr hn request response he hm
    obtain ⟨past, next, hp, hr'⟩ := hr.exists_call he
    obtain ⟨_, _, hc⟩ := ha hr' hm
    exact hn _ _ (hp.subset hc)
  · intro trace m hr
    obtain ⟨_, _, ackId, bytes, _, he, hd⟩ : ∃ outcome, recipient.Acknowledged trace m outcome := by
      rcases hr with hr | hr
      · exact ⟨_, recipient.poll_guarantees.runs hr⟩
      · exact ⟨_, recipient.poll_guarantees.runs hr⟩
    exact ⟨ackId, _, bytes, _, he, rfl, hd, rfl⟩

-- A message which is delivered and can be opened is passed on to the inbox.
theorem poll_runs_commit
    (hd : decodeResponse bytes = .ok ⟨fetchId, .success (.fetch (some delivery))⟩)
    (ho : openMessage recipient.encryptionKey recipient.senderEncryptionKey
      (recipient.context delivery.messageId) delivery.payload = .ok plaintext) :
    Runs recipient.poll
      [⟨.nextRequestId, fetchId⟩, ⟨.exchange (recipient.fetchFrame fetchId), .ok bytes⟩]
      (commit delivery.messageId plaintext >>= recipient.acknowledge delivery.messageId) := by
  have hr : recipient.receive delivery = commit delivery.messageId plaintext >>=
      recipient.acknowledge delivery.messageId := by
    simp only [receive, ho]
    rfl
  have hc : checkedResponse bytes fetchId .fetch = .ok _ := checkedResponse_eq_ok.mpr ⟨hd, rfl⟩
  rw [←hr]
  refine .step (.step ?_)
  dsimp only [Except.mapError, Program.bind]
  rw [hc]
  exact .refl

end Poll

-- A sender which has sealed a single message, of one byte.
namespace Sample

def identifier : ByteVec 32 := .replicate 32 1

def context : MessageContext := ⟨⟨identifier⟩, ⟨identifier⟩, ⟨identifier⟩, ⟨identifier⟩⟩

attribute [local instance] Toy.ed25519

-- Only that message can be opened.
@[reducible]
def hpke : Hpke :=
  { Toy.hpke with
    openAuth _ _ _ info aad ciphertext :=
      if info = contextBytes hpkeInfoDomain context ∧ aad = contextBytes hpkeAadDomain context ∧
          ciphertext = 7 :: Toy.tag then
        some [7]
      else
        none }

attribute [local instance] hpke

def payload : Payload where
  asBytes := envelopeHeader ++ identifier.toBytes ++ 7 :: Toy.tag
  bounded := by decide

def poller : Recipient where
  queueId             := ⟨identifier⟩
  sender              := ⟨identifier⟩
  recipient           := ⟨identifier⟩
  signingKey          := identifier
  encryptionKey       := ⟨identifier⟩
  senderEncryptionKey := ⟨identifier⟩
  principal           := rfl

-- What the sender has sealed.
def Sealed (c : MessageContext) (plaintext : Bytes) : Prop :=
  c = context ∧ plaintext = [7]

theorem authentic {key key' : ByteVec 32} {encapped : Hpke.EncappedKey}
    (h : Hpke.openAuth key key' encapped info aad ciphertext = some plaintext) :
    ∃ c, Sealed c plaintext ∧ info = contextBytes hpkeInfoDomain c ∧
      aad = contextBytes hpkeAadDomain c := by
  obtain ⟨⟨hi, ha, _⟩, h⟩ := Option.ite_none_right_eq_some.mp h
  cases h
  exact ⟨context, ⟨rfl, rfl⟩, hi, ha⟩

def response : Bytes :=
  Codec.encodeResponse ⟨⟨.replicate 16 0⟩, .success (.fetch (some ⟨⟨identifier⟩, payload, 0⟩))⟩

end Sample

open Sample in
attribute [local instance] Toy.ed25519 hpke in
theorem poll_commits_sealed_message :
    ∃ trace next, Runs poller.poll trace (.call (.commit ⟨identifier⟩ [7]) next) ∧
      Sealed ⟨poller.queueId, poller.sender, poller.recipient, ⟨identifier⟩⟩ [7] := by
  have hd : decodeResponse response = .ok _ := Codec.decodeResponse_eq_ok.mpr rfl
  have ho : openMessage poller.encryptionKey poller.senderEncryptionKey
      (poller.context ⟨identifier⟩) payload = .ok [7] := by
    decide +kernel
  have hr := poll_runs_commit hd ho
  exact ⟨_, _, hr, (poll_authentic poller Sealed fun _ _ _ _ _ _ _ => authentic).left _ _ _ _ hr⟩

end Recipient
end Cofferwire.Client
