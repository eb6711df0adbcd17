import Cofferwire.Codec.Queue
import Cofferwire.Crypto.Message
import Cofferwire.Library.Program

namespace Cofferwire

open Codec (DecodeError decodeRequest decodeResponse encodeAuthenticatedRequest encodeRequest)

namespace Client

inductive TransportError
  | mk
deriving DecidableEq, Repr

inductive StoreError
  | mk
deriving DecidableEq, Repr

inductive CommitOutcome
  | applied
  | alreadyCommitted
deriving DecidableEq, Repr

inductive ClientError
  | principalKeyMismatch
  | transport (error : TransportError)
  | decode (error : DecodeError)
  | crypto (error : CryptoError)
  | responseRequestIdMismatch
  | responseCommandMismatch
  | relay (status : Status)
  | unexpectedResponse
  | store (error : StoreError)
  | invalidPreparedSend
deriving DecidableEq, Repr

-- The methods of `RequestIdSource`, `Transport` and `InboxStore`.
inductive Call
  | nextRequestId
  | exchange (request : Bytes)
  | commit (messageId : MessageId) (plaintext : Bytes)

def Call.Result : Call → Type
  | nextRequestId => RequestId
  | exchange _    => Except TransportError Bytes
  | commit _ _    => Except StoreError CommitOutcome

def interface : Interface where
  Call   := Call
  Result := Call.Result

def nextRequestId : Program interface ClientError RequestId :=
  .call .nextRequestId fun requestId => .done (.ok requestId)

def exchange (request : Bytes) : Program interface ClientError Bytes :=
  .call (.exchange request) fun response => .done (response.mapError .transport)

def commit (messageId : MessageId) (plaintext : Bytes) : Program interface ClientError CommitOutcome :=
  .call (.commit messageId plaintext) fun outcome => .done (outcome.mapError .store)

def checkedResponse (bytes : Bytes) (requestId : RequestId) (command : Command) :
    Except ClientError Response :=
  match decodeResponse bytes with
  | .error error => .error (.decode error)
  | .ok frame    =>
    if frame.requestId ≠ requestId then
      .error .responseRequestIdMismatch
    else if frame.response.command ≠ some command then
      .error .responseCommandMismatch
    else
      .ok frame.response

structure PreparedSend where
  requestId : RequestId
  messageId : MessageId
  frame     : Bytes
deriving DecidableEq, Repr

def PreparedSend.asBytes (prepared : PreparedSend) : Bytes :=
  prepared.frame

inductive SendCompletion
  | accepted
  | duplicate
deriving DecidableEq, Repr

inductive PollOutcome
  | empty
  | applied (messageId : MessageId)
  | redeliveryAcknowledged (messageId : MessageId)
deriving DecidableEq, Repr

variable [Ed25519]

def signedFrame (key : Ed25519.SigningKey) (requestId : RequestId) (request : Request) : Bytes :=
  let auth := signRequest key (encodeAuthenticatedRequest requestId request)
  encodeRequest ⟨requestId, request, auth⟩

variable [Hpke]

-- The key belongs to the principal, as checked on construction.
structure Sender where
  queueId                : QueueId
  sender                 : Principal
  recipient              : Principal
  signingKey             : Ed25519.SigningKey
  encryptionKey          : EncryptionSecretKey
  recipientEncryptionKey : EncryptionPublicKey
  principal              : principalOf signingKey = sender

structure Recipient where
  queueId             : QueueId
  sender              : Principal
  recipient           : Principal
  signingKey          : Ed25519.SigningKey
  encryptionKey       : EncryptionSecretKey
  senderEncryptionKey : EncryptionPublicKey
  principal           : principalOf signingKey = recipient

namespace Sender

def new (queueId : QueueId) (sender recipient : Principal) (signingKey : Ed25519.SigningKey)
    (encryptionKey : EncryptionSecretKey) (recipientEncryptionKey : EncryptionPublicKey) :
    Except ClientError Sender :=
  if principal : principalOf signingKey = sender then
    .ok { queueId, sender, recipient, signingKey, encryptionKey, recipientEncryptionKey, principal }
  else
    .error .principalKeyMismatch

def context (sender : Sender) (messageId : MessageId) : MessageContext where
  queueId   := sender.queueId
  sender    := sender.sender
  recipient := sender.recipient
  messageId := messageId

def prepare (sender : Sender) (requestId : RequestId) (messageId : MessageId) (plaintext : Bytes)
    (ttl : UInt64) (rng : Hpke.Rng) : Except ClientError PreparedSend :=
  match sealMessage sender.encryptionKey sender.recipientEncryptionKey (sender.context messageId)
    plaintext rng with
  | .error error    => .error (.crypto error)
  | .ok ciphertext =>
    let request := .send ⟨sender.queueId, sender.sender, messageId, ciphertext, ttl⟩
    .ok ⟨requestId, messageId, signedFrame sender.signingKey requestId request⟩

def restore (sender : Sender) (bytes : Bytes) : Except ClientError PreparedSend :=
  match decodeRequest bytes with
  | .error _    => .error .invalidPreparedSend
  | .ok decoded =>
    match verifyRequest sender.sender decoded.authenticatedBytes decoded.frame.auth with
    | .error _ => .error .invalidPreparedSend
    | .ok ()   =>
      match decoded.frame.request with
      | .send send =>
        if send.queueId = sender.queueId ∧ send.sender = sender.sender then
          .ok ⟨decoded.frame.requestId, send.messageId, bytes⟩
        else
          .error .invalidPreparedSend
      | _ => .error .invalidPreparedSend

def send (prepared : PreparedSend) : Program interface ClientError SendCompletion := do
  let response ← exchange prepared.frame
  let response ← checkedResponse response prepared.requestId .send
  match response with
  | .success (.send .accepted)  => return .accepted
  | .success (.send .duplicate) => return .duplicate
  | .error error                => .fail (.relay error.status)
  | .success _                  => .fail .unexpectedResponse

end Sender

namespace Recipient

def new (queueId : QueueId) (sender recipient : Principal) (signingKey : Ed25519.SigningKey)
    (encryptionKey : EncryptionSecretKey) (senderEncryptionKey : EncryptionPublicKey) :
    Except ClientError Recipient :=
  if principal : principalOf signingKey = recipient then
    .ok { queueId, sender, recipient, signingKey, encryptionKey, senderEncryptionKey, principal }
  else
    .error .principalKeyMismatch

def context (recipient : Recipient) (messageId : MessageId) : MessageContext where
  queueId   := recipient.queueId
  sender    := recipient.sender
  recipient := recipient.recipient
  messageId := messageId

def fetchFrame (recipient : Recipient) (fetchId : RequestId) : Bytes :=
  signedFrame recipient.signingKey fetchId (.fetch ⟨recipient.queueId, recipient.recipient⟩)

def ackFrame (recipient : Recipient) (ackId : RequestId) (messageId : MessageId) : Bytes :=
  signedFrame recipient.signingKey ackId (.ack ⟨recipient.queueId, recipient.recipient, messageId⟩)

-- The rest of `poll` once the commit has succeeded.
def acknowledge (recipient : Recipient) (messageId : MessageId) (outcome : CommitOutcome) :
    Program interface ClientError PollOutcome := do
  let ackId ← nextRequestId
  let response ← exchange (recipient.ackFrame ackId messageId)
  let response ← checkedResponse response ackId .ack
  match response with
  | .success .ack =>
    match outcome with
    | .applied          => return .applied messageId
    | .alreadyCommitted => return .redeliveryAcknowledged messageId
  | .error error => .fail (.relay error.status)
  | .success _   => .fail .unexpectedResponse

-- The rest of `poll` once a message has been delivered.
def receive (recipient : Recipient) (delivery : Delivery) :
    Program interface ClientError PollOutcome := do
  let messageId := delivery.messageId
  let plaintext ← (openMessage recipient.encryptionKey recipient.senderEncryptionKey
    (recipient.context messageId) delivery.payload).mapError ClientError.crypto
  let outcome ← commit messageId plaintext
  recipient.acknowledge messageId outcome

def poll (recipient : Recipient) : Program interface ClientError PollOutcome := do
  let fetchId ← nextRequestId
  let response ← exchange (recipient.fetchFrame fetchId)
  let response ← checkedResponse response fetchId .fetch
  match response with
  | .success (.fetch none)            => return .empty
  | .success (.fetch (some delivery)) => recipient.receive delivery
  | .error error                      => .fail (.relay error.status)
  | .success _                        => .fail .unexpectedResponse

end Recipient
end Client
end Cofferwire
