import Cofferwire.Client.Basic
import Cofferwire.Service.History

namespace Cofferwire.Client

open Codec (decodeRequest decodeResponse)

variable [Profile] [Ed25519] [Sha256] [Hpke]

-- The two ends of a queue.
structure Parties where
  sender          : Sender
  recipient       : Recipient
  queueId_eq      : recipient.queueId = sender.queueId
  sender_eq       : recipient.sender = sender.sender
  recipient_eq    : recipient.recipient = sender.recipient
  senderKey_eq    : recipient.senderEncryptionKey = sender.encryptionKey.publicKey
  recipientKey_eq : sender.recipientEncryptionKey = recipient.encryptionKey.publicKey

namespace Parties

variable (parties : Parties)

def queueId : QueueId :=
  parties.sender.queueId

-- Requests for which the parties use their keys apart from `prepare` and `poll`. Those on other
-- queues are arbitrary.
def Issuable : Request → Prop
  | .createQueue create => create.queueId = parties.queueId →
    create.recipient = parties.sender.recipient
  | .send send          => send.queueId ≠ parties.queueId
  | .ack ack            => ack.queueId ≠ parties.queueId
  | .fetch _            => True
  | .deleteQueue _      => True

-- A message which the sender has prepared.
structure Outgoing where
  requestId  : RequestId
  messageId  : MessageId
  plaintext  : Bytes
  ttl        : UInt64
  rng        : Hpke.Rng
  prepared   : PreparedSend
  isPrepared : parties.sender.prepare requestId messageId plaintext ttl rng = .ok prepared

-- The payload in which the message is sent.
def Outgoing.Carries {parties : Parties} (message : parties.Outgoing) (payload : Payload) : Prop :=
  sealMessage parties.sender.encryptionKey parties.sender.recipientEncryptionKey
    (parties.sender.context message.messageId) message.plaintext message.rng = .ok payload

end Parties

-- The contract of an `InboxStore` whose messages have been applied in the given order. If an error
-- is returned, the message may or may not have been applied.
inductive Commits (inbox : List (MessageId × Bytes)) (messageId : MessageId) (plaintext : Bytes) :
    Except StoreError CommitOutcome → List (MessageId × Bytes) → Prop
  | applied (h : ∀ message ∈ inbox, message.fst ≠ messageId) :
    Commits inbox messageId plaintext (.ok .applied) (inbox ++ [(messageId, plaintext)])
  | alreadyCommitted (h : ∃ message ∈ inbox, message.fst = messageId) :
    Commits inbox messageId plaintext (.ok .alreadyCommitted) inbox
  | failed : Commits inbox messageId plaintext (.error error) inbox
  | lost (h : ∀ message ∈ inbox, message.fst ≠ messageId) :
    Commits inbox messageId plaintext (.error error) (inbox ++ [(messageId, plaintext)])

-- The relay, the frames which have been sent so far, the messages of the sender and the recipient's
-- inbox, which is shared by any number of polls. As frames are never withdrawn, they can be delayed,
-- duplicated, reordered and sent again.
structure System (parties : Parties) (κ : Type) where
  relay  : RelayService
  frames : List Bytes
  outbox : List parties.Outgoing
  inbox  : List (MessageId × Bytes)
  polls  : κ → Option (Program interface ClientError PollOutcome)

namespace System

variable {parties : Parties} {κ : Type}

def init : System parties κ where
  relay   := RelayService.machine.init
  frames  := []
  outbox  := []
  inbox   := []
  polls _ := none

def Committed (s : System parties κ) (messageId : MessageId) : Prop :=
  ∃ message ∈ s.inbox, message.fst = messageId

-- The sender has prepared a message with the given payload.
def Prepared (s : System parties κ) (messageId : MessageId) (bytes : Bytes) : Prop :=
  ∃ message ∈ s.outbox, message.messageId = messageId ∧
    ∃ payload, message.Carries payload ∧ payload.asBytes = bytes

variable [DecidableEq κ]

def setPoll (s : System parties κ) (k : κ) (poll : Option (Program interface ClientError PollOutcome)) :
    System parties κ :=
  { s with polls := Function.update s.polls k poll }

-- Signatures of the parties cannot be forged: whatever verifies under one of their principals is the
-- authenticated part of a frame which has been sent.
def Unforged (s : System parties κ) : RelayService.Input → Prop
  | .exchange bytes _ _ => ∀ decoded, decodeRequest bytes = .ok decoded →
    let principal := requestPrincipal decoded.frame.request
    principal = parties.sender.sender ∨ principal = parties.sender.recipient →
    verifyRequest principal decoded.authenticatedBytes decoded.frame.auth = .ok () →
    ∃ frame ∈ s.frames, ∃ decoded', decodeRequest frame = .ok decoded' ∧
      decoded'.authenticatedBytes = decoded.authenticatedBytes
  | _ => True

-- Payloads cannot be forged: what opens for a message has been sealed by the sender for that message.
-- Apart from that, responses are arbitrary.
def Authentic (s : System parties κ) (bytes : Bytes) : Prop :=
  ∀ requestId delivery plaintext,
    decodeResponse bytes = .ok ⟨requestId, .success (.fetch (some delivery))⟩ →
    openMessage parties.recipient.encryptionKey parties.recipient.senderEncryptionKey
      (parties.recipient.context delivery.messageId) delivery.payload = .ok plaintext →
    ∃ message ∈ s.outbox, message.messageId = delivery.messageId ∧ message.Carries delivery.payload

-- A step of the system, and what the relay receives in it. Request ids are arbitrary.
inductive Step (s : System parties κ) : Option RelayService.Input → System parties κ → Prop
  | prepare (message : parties.Outgoing) (h : ∀ m ∈ s.outbox, m.messageId ≠ message.messageId) :
    Step s none { s with
      outbox := s.outbox ++ [message]
      frames := s.frames ++ [message.prepared.frame] }
  | issue (h : parties.Issuable request) :
    Step s none { s with frames := s.frames ++ [signedFrame key requestId request] }
  | relay (h : s.Unforged input) :
    Step s (some input) { s with relay := (RelayService.step input s.relay).snd }
  | start (k : κ) : Step s none (s.setPoll k (some parties.recipient.poll))
  | crash (k : κ) : Step s none (s.setPoll k none)
  | requestId (h : s.polls k = some (.call .nextRequestId next)) :
    Step s none (s.setPoll k (some (next requestId)))
  | transmit (h : s.polls k = some (.call (.exchange frame) next)) :
    Step s none { s with frames := s.frames ++ [frame] }
  | fail (h : s.polls k = some (.call (.exchange frame) next)) :
    Step s none (s.setPoll k (some (next (.error error))))
  | respond (h : s.polls k = some (.call (.exchange frame) next)) (ha : s.Authentic bytes) :
    Step s none (s.setPoll k (some (next (.ok bytes))))
  | commit (h : s.polls k = some (.call (.commit messageId plaintext) next))
    (hc : Commits s.inbox messageId plaintext result inbox') :
    Step s none { s.setPoll k (some (next result)) with inbox := inbox' }

end System

structure Run (parties : Parties) (κ : Type) [DecidableEq κ] where
  state : Nat → System parties κ
  input : Nat → Option RelayService.Input
  init  : state 0 = .init
  step  : ∀ n, (state n).Step (input n) (state (n + 1))

namespace Run

variable {parties : Parties} {κ : Type} [DecidableEq κ] (run : Run parties κ)

def history : Relay.History where
  relay t := (run.state t).relay.relay.store.queue.relay
  event t := (run.input t).bind fun input => RelayService.event input (run.state t).relay

-- The relay has accepted a message from the sender.
def Accepted (t : Nat) (m : Relay.Delivery) : Prop :=
  run.history.Accepts t parties.queueId m ∧ ∃ now ttl reply, run.history.event t =
    some (.send parties.queueId parties.sender.sender m.id m.payload now ttl, reply)

-- A message has expired if the queue has been accessed after its lifetime.
def Expired (t i : Nat) (m : Relay.Delivery) : Prop :=
  ∃ j op reply now, i < j ∧ j < t ∧ run.history.event j = some (op, reply) ∧
    Relay.Accesses (run.history.relay j) op parties.queueId now ∧ m.expiresAt ≤ now

def Deleted (t i : Nat) : Prop :=
  ∃ j recipient, i < j ∧ j < t ∧
    run.history.event j = some (.deleteQueue parties.queueId recipient, .ok .deleteQueue)

end Run
end Cofferwire.Client
