import Cofferwire.Relay.Basic

namespace Cofferwire.Relay

-- What operations and their replies mean for the messages of a queue `q`.
section Events

variable (relay : Relay) (op : Operation) (reply : Reply) (q : QueueId)

def Accepts (m : Delivery) : Prop :=
  ∃ sender now ttl,
    op = .send q sender m.id m.payload now ttl ∧
    reply = .ok (.send .accepted) ∧
    now.toNat + ttl.asSecs.toNat = m.expiresAt.toNat

-- The queue's sender sends or its recipient fetches or acknowledges.
inductive Accesses (now : Timestamp) : Prop
  | send (hq : relay.queues q = some queue)
    (h : op = .send q queue.config.sender messageId payload now ttl)
  | fetch (hq : relay.queues q = some queue) (h : op = .fetch q queue.config.recipient now)
  | acknowledge (hq : relay.queues q = some queue)
    (h : op = .acknowledge q queue.config.recipient messageId now)

inductive Removes (m : Delivery) : Prop
  | acknowledge (hq : relay.queues q = some queue)
    (h : op = .acknowledge q queue.config.recipient m.id now) (hr : reply = .ok .acknowledge)
  | expire (h : Accesses relay op q now) (he : m.expiresAt ≤ now)
  | delete (h : op = .deleteQueue q recipient) (hr : reply = .ok .deleteQueue)

end Events

-- The relay at each point of a run, and the operation and reply which take effect at that point.
structure History where
  relay : Nat → Relay
  event : Nat → Option (Operation × Reply)

namespace History

variable (history : History)

def Accepts (t : Nat) (q : QueueId) (m : Delivery) : Prop :=
  ∃ op reply, history.event t = some (op, reply) ∧ Relay.Accepts op reply q m

def Removes (t : Nat) (q : QueueId) (m : Delivery) : Prop :=
  ∃ op reply, history.event t = some (op, reply) ∧ Relay.Removes (history.relay t) op reply q m

-- A message which was accepted at `i` and has not been removed before `t`.
structure Queued (t : Nat) (q : QueueId) (i : Nat) (m : Delivery) : Prop where
  accepted : history.Accepts i q m
  lt       : i < t
  kept     : ∀ j, i < j → j < t → ¬history.Removes j q m

-- The message is the earliest accepted one in the queue which is not expired.
structure Current (t : Nat) (q : QueueId) (now : Timestamp) (i : Nat) (m : Delivery) : Prop where
  queued   : history.Queued t q i m
  live     : now < m.expiresAt
  earliest : ∀ i' m', history.Queued t q i' m' → now < m'.expiresAt → i ≤ i'

-- A fetch at `k` returns the message accepted at `i`.
def Fetched (k : Nat) (q : QueueId) (i : Nat) (m : Delivery) : Prop :=
  ∃ recipient now,
    history.event k = some (.fetch q recipient now, .ok (.fetch (some m))) ∧
    history.Current k q now i m

end History

-- In a run of the relay every operation takes effect.
def history (ops : Nat → Operation) : History where
  relay   := machine.state ops
  event t := some (ops t, machine.output ops t)

end Cofferwire.Relay
