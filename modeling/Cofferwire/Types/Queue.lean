import Cofferwire.Types.Basic

namespace Cofferwire

def maxFrameBytes : Nat := 65536
def maxAuthBytes : Nat := 1024
def maxMessageBytes : Nat := 64374

inductive TypeError
  | reservedVersion
  | zeroValue (field : String)
  | tooLarge (field : String) (max actual : Nat)
  | successStatusForErrorResponse
  | unknownDiscriminant (typeName : String) (value : UInt8)
deriving DecidableEq, Repr

inductive Command
  | createQueue
  | send
  | fetch
  | ack
  | deleteQueue
deriving DecidableEq, Repr

namespace Command

def asU8 : Command → UInt8
  | createQueue => 1
  | send        => 2
  | fetch       => 3
  | ack         => 4
  | deleteQueue => 5

def tryFrom : UInt8 → Except TypeError Command
  | 1     => .ok createQueue
  | 2     => .ok send
  | 3     => .ok fetch
  | 4     => .ok ack
  | 5     => .ok deleteQueue
  | other => .error (.unknownDiscriminant "Command" other)

theorem tryFrom_eq_ok {c : Command} : tryFrom v = .ok c ↔ v = c.asU8 where
  mp h  := by unfold tryFrom at h; split at h <;> cases h <;> rfl
  mpr h := by cases c <;> subst h <;> rfl

theorem asU8_ne_zero {c : Command} : c.asU8.toUInt64 ≠ 0 := by
  cases c <;> decide

end Command

inductive Status
  | ok
  | unsupportedVersion
  | malformedFrame
  | frameTooLarge
  | unknownCommand
  | queueNotFound
  | unauthorized
  | queueIdConflict
  | messageIdConflict
  | messageTooLarge
  | queueFull
  | expiryOverflow
  | ackMismatch
  | notDelivered
  | authInvalid
  | limitOutOfRange
  | authReplay
deriving DecidableEq, Repr

namespace Status

def asU8 : Status → UInt8
  | ok                 => 0
  | unsupportedVersion => 1
  | malformedFrame     => 2
  | frameTooLarge      => 3
  | unknownCommand     => 4
  | queueNotFound      => 5
  | unauthorized       => 6
  | queueIdConflict    => 7
  | messageIdConflict  => 8
  | messageTooLarge    => 9
  | queueFull          => 10
  | expiryOverflow     => 11
  | ackMismatch        => 12
  | notDelivered       => 13
  | authInvalid        => 14
  | limitOutOfRange    => 15
  | authReplay         => 16

def isOk : Status → Bool
  | ok => true
  | _  => false

def tryFrom : UInt8 → Except TypeError Status
  | 0     => .ok ok
  | 1     => .ok unsupportedVersion
  | 2     => .ok malformedFrame
  | 3     => .ok frameTooLarge
  | 4     => .ok unknownCommand
  | 5     => .ok queueNotFound
  | 6     => .ok unauthorized
  | 7     => .ok queueIdConflict
  | 8     => .ok messageIdConflict
  | 9     => .ok messageTooLarge
  | 10    => .ok queueFull
  | 11    => .ok expiryOverflow
  | 12    => .ok ackMismatch
  | 13    => .ok notDelivered
  | 14    => .ok authInvalid
  | 15    => .ok limitOutOfRange
  | 16    => .ok authReplay
  | other => .error (.unknownDiscriminant "Status" other)

theorem tryFrom_eq_ok {s : Status} : tryFrom v = .ok s ↔ v = s.asU8 where
  mp h  := by unfold tryFrom at h; split at h <;> cases h <;> rfl
  mpr h := by cases s <;> subst h <;> rfl

theorem isOk_iff {s : Status} : s.isOk ↔ s = ok := by
  cases s <;> simp [isOk]

end Status

-- The wire bounds only the length of `auth`, verification is up to the cryptographic profile.
structure Auth where
  asBytes : Bytes
  bounded : asBytes.length ≤ maxAuthBytes
deriving DecidableEq, Repr

def Auth.new (bytes : Bytes) : Except TypeError Auth :=
  if h : bytes.length ≤ maxAuthBytes then
    .ok ⟨bytes, h⟩
  else
    .error (.tooLarge "auth" maxAuthBytes bytes.length)

theorem Auth.new_eq_ok {a : Auth} : Auth.new bytes = .ok a ↔ bytes = a.asBytes := by
  obtain ⟨_, h⟩ := a
  simp only [new]
  split <;> simp
  rintro rfl
  contradiction

-- The opaque message content carried by `SEND` and `FETCH`.
structure Payload where
  asBytes : Bytes
  bounded : asBytes.length ≤ maxMessageBytes
deriving DecidableEq, Repr

def Payload.new (bytes : Bytes) : Except TypeError Payload :=
  if h : bytes.length ≤ maxMessageBytes then
    .ok ⟨bytes, h⟩
  else
    .error (.tooLarge "payload" maxMessageBytes bytes.length)

theorem Payload.new_eq_ok {p : Payload} : Payload.new bytes = .ok p ↔ bytes = p.asBytes := by
  obtain ⟨_, h⟩ := p
  simp only [new]
  split <;> simp
  rintro rfl
  contradiction

-- The resource limits carried by `CREATE_QUEUE`.
structure QueueLimits where
  maxMessages     : UInt64
  maxMessageBytes : UInt64
  messages_pos    : maxMessages ≠ 0
  bytes_pos       : maxMessageBytes ≠ 0
  bytes_le        : maxMessageBytes.toNat ≤ Cofferwire.maxMessageBytes
deriving DecidableEq, Repr

def QueueLimits.new (maxMessages maxMessageBytes : UInt64) : Except TypeError QueueLimits :=
  if hm : maxMessages = 0 then
    .error (.zeroValue "max_messages")
  else if hb : maxMessageBytes = 0 then
    .error (.zeroValue "max_message_bytes")
  else if hl : maxMessageBytes.toNat > Cofferwire.maxMessageBytes then
    .error (.tooLarge "max_message_bytes" Cofferwire.maxMessageBytes maxMessageBytes.toNat)
  else
    .ok ⟨maxMessages, maxMessageBytes, hm, hb, Nat.le_of_not_lt hl⟩

theorem QueueLimits.new_eq_ok {l : QueueLimits} :
    QueueLimits.new m b = .ok l ↔ m = l.maxMessages ∧ b = l.maxMessageBytes := by
  obtain ⟨_, _, hm, hb, hl⟩ := l
  simp only [new]
  split <;> try split <;> try split
  all_goals
    simp
    try
      rintro rfl rfl
      first | contradiction | omega

structure CreateQueueRequest where
  queueId   : QueueId
  sender    : Principal
  recipient : Principal
  limits    : QueueLimits
deriving DecidableEq, Repr

inductive CreateQueueOutcome
  | created
  | alreadyExists
deriving DecidableEq, Repr

namespace CreateQueueOutcome

def asU8 : CreateQueueOutcome → UInt8
  | created       => 0
  | alreadyExists => 1

def tryFrom : UInt8 → Except TypeError CreateQueueOutcome
  | 0     => .ok created
  | 1     => .ok alreadyExists
  | other => .error (.unknownDiscriminant "CreateQueueOutcome" other)

theorem tryFrom_eq_ok {o : CreateQueueOutcome} : tryFrom v = .ok o ↔ v = o.asU8 where
  mp h  := by unfold tryFrom at h; split at h <;> cases h <;> rfl
  mpr h := by cases o <;> subst h <;> rfl

end CreateQueueOutcome

-- On the wire, a lifetime is any `u64`. That it is nonzero is up to the relay.
structure SendRequest where
  queueId   : QueueId
  sender    : Principal
  messageId : MessageId
  payload   : Payload
  ttl       : UInt64
deriving DecidableEq, Repr

inductive SendOutcome
  | accepted
  | duplicate
deriving DecidableEq, Repr

namespace SendOutcome

def asU8 : SendOutcome → UInt8
  | accepted  => 0
  | duplicate => 1

def tryFrom : UInt8 → Except TypeError SendOutcome
  | 0     => .ok accepted
  | 1     => .ok duplicate
  | other => .error (.unknownDiscriminant "SendOutcome" other)

theorem tryFrom_eq_ok {o : SendOutcome} : tryFrom v = .ok o ↔ v = o.asU8 where
  mp h  := by unfold tryFrom at h; split at h <;> cases h <;> rfl
  mpr h := by cases o <;> subst h <;> rfl

end SendOutcome

structure FetchRequest where
  queueId   : QueueId
  recipient : Principal
deriving DecidableEq, Repr

structure Delivery where
  messageId : MessageId
  payload   : Payload
  expiresAt : Timestamp
deriving DecidableEq, Repr

structure AckRequest where
  queueId   : QueueId
  recipient : Principal
  messageId : MessageId
deriving DecidableEq, Repr

structure DeleteQueueRequest where
  queueId   : QueueId
  recipient : Principal
deriving DecidableEq, Repr

inductive Request
  | createQueue (create : CreateQueueRequest)
  | send (send : SendRequest)
  | fetch (fetch : FetchRequest)
  | ack (ack : AckRequest)
  | deleteQueue (delete : DeleteQueueRequest)
deriving DecidableEq, Repr

def Request.command : Request → Command
  | createQueue _ => .createQueue
  | send _        => .send
  | fetch _       => .fetch
  | ack _         => .ack
  | deleteQueue _ => .deleteQueue

-- The body of a successful response. For `fetch`, `none` stands for "no message".
inductive ResponseBody
  | createQueue (outcome : CreateQueueOutcome)
  | send (outcome : SendOutcome)
  | fetch (delivery : Option Delivery)
  | ack
  | deleteQueue
deriving DecidableEq, Repr

def ResponseBody.command : ResponseBody → Command
  | createQueue _ => .createQueue
  | send _        => .send
  | fetch _       => .fetch
  | ack           => .ack
  | deleteQueue   => .deleteQueue

-- Without a command, the response has the command code 0 on the wire.
structure ErrorResponse where
  command : Option Command
  status  : Status
  failed  : status ≠ .ok
deriving DecidableEq, Repr

def ErrorResponse.new (command : Option Command) (status : Status) :
    Except TypeError ErrorResponse :=
  if h : status = .ok then
    .error .successStatusForErrorResponse
  else
    .ok ⟨command, status, h⟩

theorem ErrorResponse.new_eq_ok {e : ErrorResponse} :
    ErrorResponse.new c s = .ok e ↔ c = e.command ∧ s = e.status := by
  obtain ⟨_, _, h⟩ := e
  simp only [new]
  split <;> simp
  rintro _ rfl
  contradiction

inductive Response
  | success (body : ResponseBody)
  | error (error : ErrorResponse)
deriving DecidableEq, Repr

namespace Response

def command : Response → Option Command
  | success body => some body.command
  | error err    => err.command

def status : Response → Status
  | success _ => .ok
  | error err => err.status

end Response
end Cofferwire
