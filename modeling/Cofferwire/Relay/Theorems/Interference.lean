import Cofferwire.Relay.Theorems.Durable

namespace Cofferwire

namespace Relay

variable {relay relay' : Relay}

theorem queues_remove_self : (remove relay q).queues q = none :=
  Function.update_self ..

theorem recipientQueue_congr (h : relay.queues q = relay'.queues q) (recipient : Principal) :
    relay'.recipientQueue q recipient = relay.recipientQueue q recipient := by
  simp only [recipientQueue, h]

-- What an operation replies and what it does to its queue only depends on that queue.
theorem apply_congr (h : relay.queues op.queueId = relay'.queues op.queueId) :
    (apply op relay).fst = (apply op relay').fst ∧
      (apply op relay).snd.queues op.queueId = (apply op relay').snd.queues op.queueId := by
  cases op
  all_goals simp only [Operation.queueId] at h
  all_goals simp only [apply, answer, Operation.queueId]
  case createQueue id config =>
    simp only [createQueue, ←h]
    cases relay.queues id
    case none => exact ⟨rfl, queues_insert_self.trans queues_insert_self.symm⟩
    case some =>
      dsimp only
      split <;> exact ⟨rfl, h⟩
  case send queueId sender _ _ _ _ =>
    simp only [send, ←h]
    cases relay.queues queueId
    case none => exact ⟨rfl, h⟩
    case some =>
      dsimp only
      split
      case isTrue  => exact ⟨rfl, h⟩
      case isFalse => exact ⟨rfl, queues_insert_self.trans queues_insert_self.symm⟩
  case fetch queueId recipient _ =>
    simp only [fetch, recipientQueue_congr h]
    cases relay.recipientQueue queueId recipient
    case error => exact ⟨rfl, h⟩
    case ok    => exact ⟨rfl, queues_insert_self.trans queues_insert_self.symm⟩
  case acknowledge queueId recipient _ _ =>
    simp only [acknowledge, recipientQueue_congr h]
    cases relay.recipientQueue queueId recipient
    case error => exact ⟨rfl, h⟩
    case ok    => exact ⟨rfl, queues_insert_self.trans queues_insert_self.symm⟩
  case deleteQueue queueId recipient =>
    simp only [deleteQueue, recipientQueue_congr h]
    cases relay.recipientQueue queueId recipient
    case error => exact ⟨rfl, h⟩
    case ok    => exact ⟨rfl, queues_remove_self.trans queues_remove_self.symm⟩

-- The same holds if operations which fail are undone.
theorem rollback_congr (h : relay.queues op.queueId = relay'.queues op.queueId) :
    (machine.rollback.step op relay).fst = (machine.rollback.step op relay').fst ∧
      (machine.rollback.step op relay).snd.queues op.queueId =
        (machine.rollback.step op relay').snd.queues op.queueId := by
  obtain ⟨hf, hs⟩ := apply_congr h
  simp only [Machine.rollback, machine]
  generalize apply op relay = result at hf hs
  generalize apply op relay' = result' at hf hs
  obtain ⟨reply, next⟩ := result
  obtain ⟨_, next'⟩ := result'
  cases hf
  cases reply
  case error => exact ⟨rfl, h⟩
  case ok    => exact ⟨rfl, hs⟩

theorem rollback_queues_of_ne (h : op.queueId ≠ q) :
    (machine.rollback.step op relay).snd.queues q = relay.queues q := by
  have hq : (apply op relay).snd.queues q = relay.queues q := apply_queues_of_ne h
  simp only [Machine.rollback, machine]
  generalize apply op relay = result at hq
  obtain ⟨reply, next⟩ := result
  cases reply
  case error => rfl
  case ok    => exact hq

end Relay

namespace DurableRelay

open Relay (Operation)

-- Two sets of tables represent the same queue.
structure QueueTables.SameQueue (tables tables' : QueueTables) (q : QueueId) : Prop where
  left  : tables.Valid
  right : tables'.Valid
  queue : tables.relay.queues q = tables'.relay.queues q

variable {tables tables' : QueueTables} {op : Operation}

theorem QueueTables.SameQueue.skip (h : tables.SameQueue tables' q) (hn : op.queueId ≠ q) :
    (apply op tables).snd.SameQueue tables' q := by
  have hs := apply_simulates h.left op
  refine ⟨hs.valid, h.right, ?_⟩
  rw [hs.relay, Relay.rollback_queues_of_ne hn]
  exact h.queue

theorem QueueTables.SameQueue.step (h : tables.SameQueue tables' op.queueId) :
    (apply op tables).fst = (apply op tables').fst ∧
      (apply op tables).snd.SameQueue (apply op tables').snd op.queueId := by
  have hs := apply_simulates h.left op
  have hs' := apply_simulates h.right op
  obtain ⟨hf, hq⟩ := Relay.rollback_congr h.queue
  refine ⟨by rw [hs.output, hs'.output, hf], hs.valid, hs'.valid, ?_⟩
  rw [hs.relay, hs'.relay]
  exact hq

-- The results of operations on a queue are the same as if there were no operations on other queues.
theorem queues_do_not_interfere (operations : List Operation) (q : QueueId) :
    (machine.replies .empty operations).filter (·.fst.queueId = q) =
      machine.replies .empty (operations.filter (·.queueId = q)) := by
  refine Machine.filter_replies (p := fun op : Operation => op.queueId = q)
    (R := fun tables tables' => tables.SameQueue tables' q) (fun op _ _ _ hp h => ?_)
    (fun op _ _ _ hp h => ?_) ⟨QueueTables.empty_valid, QueueTables.empty_valid, rfl⟩
  · exact h.skip (by simpa using hp)
  · obtain rfl : op.queueId = q := by simpa using hp
    exact h.step

end DurableRelay
end Cofferwire
