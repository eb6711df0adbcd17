import Cofferwire.Relay.Theorems.History

namespace Cofferwire.Relay

-- The principal on whose behalf an operation is executed.
def Operation.principal : Operation → Principal
  | createQueue _ config => config.sender
  | send _ sender ..     => sender
  | fetch _ recipient _ | acknowledge _ recipient .. | deleteQueue _ recipient => recipient

-- The operations which may change a queue.
inductive Authorized (relay : Relay) (q : QueueId) : Operation → Prop
  | createQueue (h : relay.queues q = none) : Authorized relay q (.createQueue q config)
  | send (h : relay.queues q = some queue) :
    Authorized relay q (.send q queue.config.sender messageId payload now ttl)
  | fetch (h : relay.queues q = some queue) : Authorized relay q (.fetch q queue.config.recipient now)
  | acknowledge (h : relay.queues q = some queue) :
    Authorized relay q (.acknowledge q queue.config.recipient messageId now)
  | deleteQueue (h : relay.queues q = some queue) :
    Authorized relay q (.deleteQueue q queue.config.recipient)

-- What an operation does to the configuration of a queue.
inductive Reconfigures (op : Operation) (reply : Reply) (q : QueueId) :
    Option QueueConfig → Option QueueConfig → Prop
  | keep (h : ¬∃ recipient, op = .deleteQueue q recipient ∧ reply = .ok .deleteQueue) :
    Reconfigures op reply q config config
  | create (h : op = .createQueue q config) : Reconfigures op reply q none (some config)
  | delete (h : op = .deleteQueue q recipient) (hr : reply = .ok .deleteQueue) :
    Reconfigures op reply q config none

def config (relay : Relay) (q : QueueId) : Option QueueConfig :=
  (relay.queues q).map Queue.config

theorem config_eq_some {relay : Relay} :
    relay.config q = some c ↔ ∃ queue, relay.queues q = some queue ∧ queue.config = c := by
  simp [config]

theorem config_of_queues {relay : Relay} (h : relay.queues q = some queue) (now : Timestamp) :
    relay.config q = some (queue.discardExpired now).config :=
  congrArg (Option.map Queue.config) h

theorem config_insert : (insert relay p queue).config q =
    if q = p then some queue.config else relay.config q := by
  by_cases h : q = p <;> simp [config, insert, Function.update, h]

-- Operations on the messages of a queue leave its configuration as it is.
theorem enqueue_config : (Queue.enqueue queue messageId payload now ttl).snd.config = queue.config := by
  obtain ⟨_, _, _, _, _, h⟩ | ⟨_, _, h⟩ := enqueue_cases queue messageId payload now ttl <;> rw [h]

theorem front_config : (Queue.front queue).snd.config = queue.config := by
  obtain ⟨_, h⟩ | ⟨_, _, _, h⟩ := front_cases queue <;> rw [h]

theorem popFront_config : (Queue.popFront queue messageId).snd.config = queue.config := by
  obtain ⟨_, h⟩ | ⟨_, _, _, _, _, h⟩ := popFront_cases queue messageId <;> rw [h]

theorem reconfigures (relay : Relay) (op : Operation) (q : QueueId) :
    Reconfigures op (apply op relay).fst q (relay.config q) ((apply op relay).snd.config q) := by
  by_cases hq : op.queueId = q
  case neg =>
    have hc : (apply op relay).snd.config q = relay.config q := by
      simp only [config, apply_queues_of_ne hq]
    rw [hc]
    refine .keep ?_
    rintro ⟨_, rfl, _⟩
    exact hq rfl
  subst hq
  cases op <;> simp only [apply, answer, Operation.queueId]
  case createQueue id c =>
    unfold createQueue
    split
    case h_1 => split <;> exact .keep (by simp)
    case h_2 hq =>
      rw [show relay.config id = none by simp [config, hq], config_insert, if_pos rfl]
      exact .create rfl
  case send p sender messageId payload now ttl =>
    unfold send
    split
    case h_1 => exact .keep (by simp)
    case h_2 queue hq =>
      split
      case isTrue => exact .keep (by simp)
      case isFalse =>
        rw [config_insert, if_pos rfl, enqueue_config, config_of_queues hq now]
        exact .keep (by simp)
  case fetch p recipient now =>
    unfold fetch
    split
    case h_1 => exact .keep (by simp)
    case h_2 queue h =>
      obtain ⟨hq, _⟩ := recipientQueue_eq_ok.mp h
      rw [config_insert, if_pos rfl, front_config, config_of_queues hq now]
      exact .keep (by simp)
  case acknowledge p recipient messageId now =>
    unfold acknowledge
    split
    case h_1 => exact .keep (by simp)
    case h_2 queue h =>
      obtain ⟨hq, _⟩ := recipientQueue_eq_ok.mp h
      rw [config_insert, if_pos rfl, popFront_config, config_of_queues hq now]
      exact .keep (by simp)
  case deleteQueue p recipient =>
    unfold deleteQueue
    split
    case h_1 => exact .keep (by simp [Except.map])
    case h_2 =>
      simp only [config, remove, Function.update_self, Option.map_none]
      exact .delete rfl rfl

-- All other operations leave the queue as it is.
theorem authorized_of_ne (h : (apply op relay).snd.queues q ≠ relay.queues q) :
    Authorized relay q op := by
  have hq : op.queueId = q := Decidable.not_not.mp fun hq => h (apply_queues_of_ne hq)
  subst hq
  cases op <;> simp only [apply, answer, Operation.queueId] at h ⊢
  case createQueue id c =>
    unfold createQueue at h
    split at h
    case h_1 => split at h <;> exact absurd rfl h
    case h_2 hq => exact .createQueue hq
  case send p sender messageId payload now ttl =>
    unfold send at h
    split at h
    case h_1 => exact absurd rfl h
    case h_2 queue hq =>
      split at h
      case isTrue => exact absurd rfl h
      case isFalse hs =>
        obtain rfl := Decidable.not_not.mp hs
        exact .send hq
  all_goals
    simp only [fetch, acknowledge, deleteQueue] at h
    split at h
    case h_1 => exact absurd rfl h
    case h_2 queue hr =>
      obtain ⟨hq, rfl⟩ := recipientQueue_eq_ok.mp hr
      constructor
      exact hq

theorem sender_of_accepted
    (h : apply (.send q sender messageId payload now ttl) relay = (.ok outcome, relay')) :
    ∃ c, relay.config q = some c ∧ c.sender = sender := by
  have hs := congrArg Prod.fst h
  simp only [apply, answer, send] at hs
  split at hs
  case h_1 => cases hs
  case h_2 queue hq =>
    split at hs
    case isTrue => cases hs
    case isFalse hn => exact ⟨queue.config, by simp [config, hq], Decidable.not_not.mp hn⟩

end Cofferwire.Relay
