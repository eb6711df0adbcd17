import Cofferwire.Relay.Theorems.Durable

namespace Cofferwire.Relay

namespace Queue

structure Valid (queue : Queue) : Prop where
  length_le : queue.messages.length ≤ queue.config.limits.maxMessages.toNat
  payload   : ∀ m ∈ queue.messages, m.payload.length ≤ queue.config.limits.maxMessageBytes.toNat
  ids       : (queue.messages.map QueuedMessage.id).Nodup
  delivered : ∀ m ∈ queue.messages.tail, ¬m.delivered

variable {queue : Queue}

theorem valid_nil {config : QueueConfig} : (Queue.mk config []).Valid where
  length_le := Nat.zero_le _
  payload   := by simp
  ids       := by simp
  delivered := by simp

-- A new head has not been delivered.
theorem Valid.tail {config : QueueConfig} (h : (Queue.mk config (m :: rest)).Valid) :
    (Queue.mk config rest).Valid where
  length_le := Nat.le_of_succ_le h.length_le
  payload   := fun m hm => h.payload m (.tail _ hm)
  ids       := (List.nodup_cons.mp h.ids).right
  delivered := fun m hm => h.delivered m (List.mem_of_mem_tail hm)

theorem Valid.discardExpired (h : queue.Valid) (now : Timestamp) : (queue.discardExpired now).Valid where
  length_le := (List.length_filter_le ..).trans h.length_le
  payload   := fun m hm => h.payload m (List.mem_of_mem_filter hm)
  ids       := h.ids.sublist (List.filter_sublist.map _)
  delivered := by
    intro m hm
    have hd := h.delivered
    simp only [Queue.discardExpired] at hm
    cases hq : queue.messages
    case nil =>
      rw [hq] at hm
      cases hm
    case cons head rest =>
      rw [hq] at hm hd
      rw [List.filter_cons] at hm
      split at hm
      case isTrue  => exact hd m (List.mem_of_mem_filter hm)
      case isFalse => exact hd m (List.mem_of_mem_filter (List.mem_of_mem_tail hm))

theorem Valid.front (h : queue.Valid) : queue.front.snd.Valid := by
  obtain ⟨_, he⟩ | ⟨m, rest, hm, he⟩ := front_cases queue
  · exact he ▸ h
  · obtain ⟨config, messages⟩ := queue
    obtain rfl : messages = m :: rest := hm
    rw [he]
    exact ⟨h.length_le, by simpa using h.payload, h.ids, h.delivered⟩

theorem Valid.popFront (h : queue.Valid) (messageId : MessageId) :
    (queue.popFront messageId).snd.Valid := by
  obtain ⟨_, he⟩ | ⟨m, rest, hm, _, _, he⟩ := popFront_cases queue messageId
  · exact he ▸ h
  · obtain ⟨config, messages⟩ := queue
    obtain rfl : messages = m :: rest := hm
    rw [he]
    exact h.tail

theorem Valid.append {queue : Queue} (h : queue.Valid) (hd : ¬m.delivered)
    (hi : ∀ m' ∈ queue.messages, m'.id ≠ m.id)
    (hp : m.payload.length ≤ queue.config.limits.maxMessageBytes.toNat)
    (hl : queue.messages.length < queue.config.limits.maxMessages.toNat) :
    Valid { queue with messages := queue.messages ++ [m] } := by
  obtain ⟨config, messages⟩ := queue
  constructor
  case length_le =>
    rw [List.length_append]
    exact hl
  case payload => exact List.forall_mem_append.mpr ⟨h.payload, List.forall_mem_singleton.mpr hp⟩
  case ids =>
    simp only [List.map_append, List.map_singleton]
    refine List.nodup_append.mpr ⟨h.ids, List.nodup_singleton _, ?_⟩
    simpa using hi
  case delivered =>
    cases messages
    case nil => exact nofun
    case cons head rest =>
      exact List.forall_mem_append.mpr ⟨h.delivered, List.forall_mem_singleton.mpr hd⟩

theorem Valid.enqueue (h : queue.Valid) (messageId : MessageId) (payload : Bytes) (now : Timestamp)
    (ttl : Ttl) : (queue.enqueue messageId payload now ttl).snd.Valid := by
  obtain ⟨expiresAt, _, hi, hp, hl, he⟩ | ⟨_, _, he⟩ := enqueue_cases queue messageId payload now ttl
  · rw [he]
    exact h.append Bool.false_ne_true hi hp hl
  · exact he ▸ h

end Queue

def Valid (relay : Relay) : Prop :=
  ∀ q queue, relay.queues q = some queue → queue.Valid

variable {relay : Relay}

theorem Valid.insert (h : relay.Valid) (hq : queue.Valid) : (relay.insert q queue).Valid := by
  intro p queue' hp
  by_cases he : q = p
  case pos =>
    subst he
    cases queues_insert_self.symm.trans hp
    exact hq
  case neg =>
    rw [insert_queues_of_ne he] at hp
    exact h p queue' hp

theorem Valid.remove (h : relay.Valid) : (relay.remove q).Valid := by
  intro p queue hp
  by_cases he : q = p
  case pos =>
    subst he
    simp [Relay.remove] at hp
  case neg =>
    rw [remove_queues_of_ne he] at hp
    exact h p queue hp

theorem Valid.apply (h : relay.Valid) (op : Operation) : (apply op relay).snd.Valid := by
  cases op
  all_goals simp only [Relay.apply, answer]
  case createQueue =>
    unfold createQueue
    split
    case h_1 => split <;> exact h
    case h_2 => exact h.insert Queue.valid_nil
  case send =>
    unfold send
    split
    case h_1 => exact h
    case h_2 hq =>
      split
      case isTrue  => exact h
      case isFalse => exact h.insert (((h _ _ hq).discardExpired _).enqueue ..)
  case fetch =>
    unfold fetch
    split
    case h_1 => exact h
    case h_2 hq => exact h.insert ((h _ _ (recipientQueue_eq_ok.mp hq).left).discardExpired _).front
  case acknowledge =>
    unfold acknowledge
    split
    case h_1 => exact h
    case h_2 hq => exact h.insert (((h _ _ (recipientQueue_eq_ok.mp hq).left).discardExpired _).popFront _)
  case deleteQueue =>
    unfold deleteQueue
    split
    case h_1 => exact h
    case h_2 => exact h.remove

-- All that may have changed is that expired messages of the operation's queue are gone.
inductive Purges (op : Operation) (relay : Relay) : Relay → Prop
  | keep : Purges op relay relay
  | purge (hn : op.timestamp = some now) (hq : relay.queues op.queueId = some queue) :
    Purges op relay (relay.insert op.queueId (queue.discardExpired now))

theorem purges_send {queueId : QueueId}
    (h : (relay.send queueId sender messageId payload now ttl).fst ≠ .ok .accepted) :
    Purges (.send queueId sender messageId payload now ttl) relay
      (relay.send queueId sender messageId payload now ttl).snd := by
  unfold send at h ⊢
  split
  case h_1 => exact .keep
  case h_2 queue hq =>
    simp only [hq] at h
    split
    case isTrue => exact .keep
    case isFalse hs =>
      rw [if_neg hs] at h
      obtain ⟨_, _, _, _, _, he⟩ | ⟨_, _, he⟩ :=
        enqueue_cases (queue.discardExpired now) messageId payload now ttl
      · rw [he] at h
        exact absurd rfl h
      · rw [he]
        exact .purge rfl hq

theorem purges_fetch (h : (relay.fetch queueId recipient now).fst = .error e) :
    Purges (.fetch queueId recipient now) relay (relay.fetch queueId recipient now).snd := by
  unfold fetch at h ⊢
  split
  case h_1 => exact .keep
  case h_2 queue hq =>
    simp only [hq] at h
    obtain ⟨_, he⟩ | ⟨_, _, _, he⟩ := front_cases (queue.discardExpired now)
    all_goals
      rw [he] at h
      cases h

theorem purges_acknowledge (h : (relay.acknowledge queueId recipient messageId now).fst = .error e) :
    Purges (.acknowledge queueId recipient messageId now) relay
      (relay.acknowledge queueId recipient messageId now).snd := by
  unfold acknowledge at h ⊢
  split
  case h_1 => exact .keep
  case h_2 queue hq =>
    simp only [hq] at h
    obtain ⟨_, he⟩ | ⟨_, _, _, _, _, he⟩ := popFront_cases (queue.discardExpired now) messageId
    · rw [he]
      exact .purge rfl (recipientQueue_eq_ok.mp hq).left
    · rw [he] at h
      cases h

theorem purges_of_error (h : (apply op relay).fst = .error e) : Purges op relay (apply op relay).snd := by
  cases op
  all_goals simp only [apply, answer, Except.map_eq_error] at h ⊢
  case createQueue =>
    unfold createQueue at h ⊢
    split
    case h_1 => split <;> exact .keep
    case h_2 hq => simp [hq] at h
  case send        => exact purges_send (by simp [h])
  case fetch       => exact purges_fetch h
  case acknowledge => exact purges_acknowledge h
  case deleteQueue =>
    unfold deleteQueue at h ⊢
    split
    case h_1 => exact .keep
    case h_2 hq => simp [hq] at h

theorem purges_of_duplicate (h : (apply op relay).fst = .ok (.send .duplicate)) :
    Purges op relay (apply op relay).snd := by
  cases op
  all_goals
    obtain ⟨_, hr, ho⟩ := Except.map_eq_ok.mp h
    cases ho
  exact purges_send (by simp [hr])

-- The queues of every reachable relay are well-formed, and operations which do not succeed have no
-- effect other than that expired messages are gone.
theorem queues_valid_and_failures_only_purge (operations : Nat → Operation) (n : Nat) :
    (machine.state operations n).Valid ∧
    (∀ e, machine.output operations n = .error e →
      Purges (operations n) (machine.state operations n) (machine.state operations (n + 1))) ∧
    (machine.output operations n = .ok (.send .duplicate) →
      Purges (operations n) (machine.state operations n) (machine.state operations (n + 1))) := by
  refine ⟨?_, fun e h => purges_of_error h, purges_of_duplicate⟩
  exact machine.invariant (P := Valid) nofun (fun op _ h => h.apply op) n

end Cofferwire.Relay
