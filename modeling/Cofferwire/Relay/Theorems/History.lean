import Cofferwire.Relay.History

namespace Cofferwire.Relay

def live (now : Timestamp) (ms : List QueuedMessage) : List QueuedMessage :=
  ms.filter (·.expiresAt > now)

-- All the ways in which an operation can change the messages of a queue.
inductive Change (relay : Relay) (op : Operation) (reply : Reply) (q : QueueId)
    (ms : List QueuedMessage) : List QueuedMessage → Prop
  | keep
    (ha : ∀ m, ¬Accepts op reply q m)
    (hr : ∀ m, ¬Removes relay op reply q m) :
    Change relay op reply q ms ms
  | purge {now : Timestamp}
    (ha : ∀ m, ¬Accepts op reply q m)
    (hr : ∀ m, Removes relay op reply q m ↔ m.expiresAt ≤ now) :
    Change relay op reply q ms (live now ms)
  | accept {now : Timestamp} {message : QueuedMessage}
    (ha : ∀ m, Accepts op reply q m ↔ m = message.toDelivery)
    (hr : ∀ m, Removes relay op reply q m ↔ m.expiresAt ≤ now)
    (hi : ∀ m ∈ live now ms, m.id ≠ message.id)
    (hd : message.delivered = false) :
    Change relay op reply q ms (live now ms ++ [message])
  | deliver {now : Timestamp} {message : QueuedMessage} {rest : List QueuedMessage}
    (ha : ∀ m, ¬Accepts op reply q m)
    (hr : ∀ m, Removes relay op reply q m ↔ m.expiresAt ≤ now)
    (hl : live now ms = message :: rest)
    (ho : op = .fetch q recipient now)
    (hf : reply = .ok (.fetch message.toDelivery)) :
    Change relay op reply q ms ({ message with delivered := true } :: rest)
  | acknowledge {now : Timestamp} {message : QueuedMessage} {rest : List QueuedMessage}
    (ha : ∀ m, ¬Accepts op reply q m)
    (hr : ∀ m, Removes relay op reply q m ↔ m.expiresAt ≤ now ∨ m.id = message.id)
    (hl : live now ms = message :: rest)
    (hd : message.delivered) :
    Change relay op reply q ms rest
  | delete
    (ha : ∀ m, ¬Accepts op reply q m)
    (hr : ∀ m, Removes relay op reply q m) :
    Change relay op reply q ms []

theorem messages_insert : (insert relay p queue).messages q =
    if q = p then queue.messages else relay.messages q := by
  by_cases h : q = p <;> simp [messages, insert, Function.update, h]

theorem messages_remove : (remove relay p).messages q =
    if q = p then [] else relay.messages q := by
  by_cases h : q = p <;> simp [messages, remove, Function.update, h]

theorem messages_of_queues {relay : Relay} (h : relay.queues q = some queue) :
    relay.messages q = queue.messages := by
  simp [messages, h]

section Events

variable {relay : Relay} {reply : Reply} {q : QueueId} {m : Delivery}

theorem accepts_send :
    Accepts (.send p sender messageId payload now ttl) reply q m ↔
      p = q ∧ m.id = messageId ∧ m.payload = payload ∧ reply = .ok (.send .accepted) ∧
        checkedAdd now ttl.asSecs = some m.expiresAt := by
  simp only [Accepts, Operation.send.injEq, checkedAdd_eq_some]
  grind

theorem removes_createQueue : ¬Removes relay (.createQueue p config) reply q m := by
  rintro (_ | ⟨_ | _ | _⟩ | _) <;> contradiction

theorem removes_send :
    Removes relay (.send p sender messageId payload now ttl) reply q m ↔
      ∃ queue, relay.queues p = some queue ∧ p = q ∧ queue.config.sender = sender ∧
        m.expiresAt ≤ now where
  mp := by
    rintro (⟨_, ⟨⟩, _⟩ | ⟨⟨hq, ⟨⟩⟩ | ⟨_, ⟨⟩⟩ | ⟨_, ⟨⟩⟩, he⟩ | ⟨⟨⟩, _⟩)
    exact ⟨_, hq, rfl, rfl, he⟩
  mpr := by
    rintro ⟨_, hq, rfl, rfl, he⟩
    exact .expire (.send hq rfl) he

theorem removes_fetch :
    Removes relay (.fetch p recipient now) reply q m ↔
      ∃ queue, relay.queues p = some queue ∧ p = q ∧ queue.config.recipient = recipient ∧
        m.expiresAt ≤ now where
  mp := by
    rintro (⟨_, ⟨⟩, _⟩ | ⟨⟨hq, ⟨⟩⟩ | ⟨hq, ⟨⟩⟩ | ⟨_, ⟨⟩⟩, he⟩ | ⟨⟨⟩, _⟩)
    exact ⟨_, hq, rfl, rfl, he⟩
  mpr := by
    rintro ⟨_, hq, rfl, rfl, he⟩
    exact .expire (.fetch hq rfl) he

theorem removes_acknowledge :
    Removes relay (.acknowledge p recipient messageId now) reply q m ↔
      ∃ queue, relay.queues p = some queue ∧ p = q ∧ queue.config.recipient = recipient ∧
        (m.expiresAt ≤ now ∨ m.id = messageId ∧ reply = .ok .acknowledge) where
  mp := by
    rintro (⟨hq, ⟨⟩, hr⟩ | ⟨⟨_, ⟨⟩⟩ | ⟨_, ⟨⟩⟩ | ⟨hq, ⟨⟩⟩, he⟩ | ⟨⟨⟩, _⟩)
    · exact ⟨_, hq, rfl, rfl, .inr ⟨rfl, hr⟩⟩
    · exact ⟨_, hq, rfl, rfl, .inl he⟩
  mpr := by
    rintro ⟨_, hq, rfl, rfl, he | ⟨rfl, hr⟩⟩
    · exact .expire (.acknowledge hq rfl) he
    · exact .acknowledge hq rfl hr

theorem removes_deleteQueue :
    Removes relay (.deleteQueue p recipient) reply q m ↔ p = q ∧ reply = .ok .deleteQueue where
  mp := by
    rintro (⟨_, ⟨⟩, _⟩ | ⟨⟨_, ⟨⟩⟩ | ⟨_, ⟨⟩⟩ | ⟨_, ⟨⟩⟩, _⟩ | ⟨⟨⟩, hr⟩)
    exact ⟨rfl, hr⟩
  mpr := by
    rintro ⟨rfl, hr⟩
    exact .delete rfl hr

end Events

theorem insert_queues_of_ne (h : p ≠ q) : (insert relay p queue).queues q = relay.queues q :=
  Function.update_of_ne h.symm ..

theorem remove_queues_of_ne (h : p ≠ q) : (remove relay p).queues q = relay.queues q :=
  Function.update_of_ne h.symm ..

theorem apply_queues_of_ne (h : op.queueId ≠ q) :
    (apply op relay).snd.queues q = relay.queues q := by
  cases op <;> simp only [Operation.queueId] at h
  case createQueue =>
    simp only [apply, answer, createQueue]
    split
    · split <;> rfl
    · exact insert_queues_of_ne h
  case send =>
    simp only [apply, answer, send]
    split
    · rfl
    · split
      · rfl
      · exact insert_queues_of_ne h
  case fetch =>
    simp only [apply, answer, fetch]
    split
    · rfl
    · exact insert_queues_of_ne h
  case acknowledge =>
    simp only [apply, answer, acknowledge]
    split
    · rfl
    · exact insert_queues_of_ne h
  case deleteQueue =>
    simp only [apply, answer, deleteQueue]
    split
    · rfl
    · exact remove_queues_of_ne h

theorem recipientQueue_eq_ok {relay : Relay} :
    relay.recipientQueue q recipient = .ok queue ↔
      relay.queues q = some queue ∧ queue.config.recipient = recipient := by
  simp only [recipientQueue]
  split
  · simp [*]
  · split <;> grind

theorem recipientQueue_eq_error {relay : Relay} (h : relay.recipientQueue q recipient = .error e) :
    ¬∃ queue, relay.queues q = some queue ∧ queue.config.recipient = recipient := by
  rintro ⟨queue, hq⟩
  rw [recipientQueue_eq_ok.mpr hq] at h
  contradiction

-- Sending either appends the message or leaves the queue as it is.
theorem enqueue_cases (queue : Queue) (messageId payload now ttl) :
    (∃ expiresAt,
      checkedAdd now ttl.asSecs = some expiresAt ∧
      (∀ m ∈ queue.messages, m.id ≠ messageId) ∧
      payload.length ≤ queue.config.limits.maxMessageBytes.toNat ∧
      queue.messages.length < queue.config.limits.maxMessages.toNat ∧
      queue.enqueue messageId payload now ttl = (.ok .accepted,
        { queue with messages := queue.messages ++ [⟨messageId, payload, expiresAt, false⟩] })) ∨
    ∃ result, result ≠ .ok .accepted ∧
      queue.enqueue messageId payload now ttl = (result, queue) := by
  unfold Queue.enqueue
  split
  case h_1 => split <;> simp
  case h_2 hf =>
    split <;> try simp
    split <;> try simp
    split <;> simp_all

theorem front_cases (queue : Queue) :
    (queue.messages = [] ∧ queue.front = (.ok none, queue)) ∨
    ∃ m rest, queue.messages = m :: rest ∧ queue.front =
      (.ok m.toDelivery, { queue with messages := { m with delivered := true } :: rest }) := by
  cases h : queue.messages <;> simp [Queue.front, h]

theorem popFront_cases (queue : Queue) (messageId) :
    (∃ e, queue.popFront messageId = (.error e, queue)) ∨
    ∃ m rest, queue.messages = m :: rest ∧ m.id = messageId ∧ m.delivered ∧
      queue.popFront messageId = (.ok (), { queue with messages := rest }) := by
  cases h : queue.messages <;> simp only [Queue.popFront, h]
  case nil => simp
  case cons m rest =>
    split <;> try simp
    split <;> simp_all

theorem change_send (relay : Relay) :
    Change relay (.send q sender messageId payload now ttl)
      ((relay.send q sender messageId payload now ttl).fst.map .send) q (relay.messages q)
      ((relay.send q sender messageId payload now ttl).snd.messages q) := by
  unfold send
  split
  case h_1 h => exact .keep (by simp [Accepts, Except.map]) (by simp [removes_send, h])
  case h_2 queue h =>
    split
    case isTrue hs => exact .keep (by simp [Accepts, Except.map]) (by simp [removes_send, h, hs])
    case isFalse hs =>
      have hs : queue.config.sender = sender := Decidable.not_not.mp hs
      have hr {reply} : ∀ m, Removes relay (.send q sender messageId payload now ttl) reply q m ↔
          m.expiresAt ≤ now := by simp [removes_send, h, hs]
      rw [messages_of_queues h]
      obtain ⟨e, he, hi, _, _, hq⟩ | ⟨result, hn, hq⟩ :=
        enqueue_cases (queue.discardExpired now) messageId payload now ttl
      · simp only [hq, messages_insert, if_pos]
        refine .accept (fun m => ?_) hr hi rfl
        obtain ⟨_, _, _⟩ := m
        simp [accepts_send, Except.map, QueuedMessage.toDelivery, he, eq_comm]
      · simp only [hq, messages_insert, if_pos]
        refine .purge (fun m => ?_) hr
        rw [accepts_send]
        rintro ⟨_, _, _, ha, _⟩
        cases result <;> simp_all [Except.map]

theorem change_fetch (relay : Relay) :
    Change relay (.fetch q recipient now) ((relay.fetch q recipient now).fst.map .fetch) q
      (relay.messages q) ((relay.fetch q recipient now).snd.messages q) := by
  have ha {reply} : ∀ m, ¬Accepts (.fetch q recipient now) reply q m := by simp [Accepts]
  unfold fetch
  split
  case h_1 h =>
    refine .keep ha fun m => ?_
    have := recipientQueue_eq_error h
    grind [removes_fetch]
  case h_2 queue h =>
    have ⟨hq, hc⟩ := recipientQueue_eq_ok.mp h
    have hr {reply} : ∀ m, Removes relay (.fetch q recipient now) reply q m ↔ m.expiresAt ≤ now := by
      simp [removes_fetch, hq, hc]
    rw [messages_of_queues hq]
    obtain ⟨_, hf⟩ | ⟨m, rest, hl, hf⟩ := front_cases (queue.discardExpired now)
    all_goals simp only [hf, messages_insert, if_pos]
    · exact .purge ha hr
    · exact .deliver ha hr hl rfl rfl

theorem change_acknowledge (relay : Relay) :
    Change relay (.acknowledge q recipient messageId now)
      ((relay.acknowledge q recipient messageId now).fst.map fun _ => .acknowledge) q
      (relay.messages q) ((relay.acknowledge q recipient messageId now).snd.messages q) := by
  have ha {reply} : ∀ m, ¬Accepts (.acknowledge q recipient messageId now) reply q m := by
    simp [Accepts]
  unfold acknowledge
  split
  case h_1 h =>
    refine .keep ha fun m => ?_
    have := recipientQueue_eq_error h
    grind [removes_acknowledge]
  case h_2 queue h =>
    have ⟨hq, hc⟩ := recipientQueue_eq_ok.mp h
    rw [messages_of_queues hq]
    obtain ⟨e, hf⟩ | ⟨m, rest, hl, hi, hd, hf⟩ := popFront_cases (queue.discardExpired now) messageId
    all_goals simp only [hf, messages_insert, if_pos]
    · refine .purge ha fun m => ?_
      simp [removes_acknowledge, hq, hc, Except.map]
    · refine .acknowledge ha (fun m => ?_) hl hd
      simp [removes_acknowledge, hq, hc, Except.map, hi]

theorem change_deleteQueue (relay : Relay) :
    Change relay (.deleteQueue q recipient)
      ((relay.deleteQueue q recipient).fst.map fun _ => .deleteQueue) q (relay.messages q)
      ((relay.deleteQueue q recipient).snd.messages q) := by
  unfold deleteQueue
  split
  · exact .keep (by simp [Accepts]) (by simp [removes_deleteQueue, Except.map])
  · simp only [messages_remove, if_pos]
    exact .delete (by simp [Accepts]) (by simp [removes_deleteQueue, Except.map])

theorem change_createQueue (relay : Relay) (reply : Reply) :
    Change relay (.createQueue q config) reply q (relay.messages q)
      ((relay.createQueue q config).snd.messages q) := by
  have hm : (relay.createQueue q config).snd.messages q = relay.messages q := by
    unfold createQueue
    split
    · split <;> rfl
    case h_2 hq =>
      rw [messages_insert, if_pos rfl]
      simp [messages, hq]
  rw [hm]
  exact .keep (by simp [Accepts]) fun _ => removes_createQueue

theorem queueId_of_accepts (h : Accepts op reply q m) : op.queueId = q := by
  obtain ⟨_, _, _, rfl, _⟩ := h
  rfl

theorem queueId_of_removes (h : Removes relay op reply q m) : op.queueId = q := by
  obtain ⟨_, rfl, _⟩ | ⟨⟨_, rfl⟩ | ⟨_, rfl⟩ | ⟨_, rfl⟩, _⟩ | ⟨rfl, _⟩ := h <;> rfl

theorem change (relay : Relay) (op : Operation) (q : QueueId) :
    Change relay op (apply op relay).fst q (relay.messages q) ((apply op relay).snd.messages q) := by
  by_cases hq : op.queueId = q
  case neg =>
    have hm : (apply op relay).snd.messages q = relay.messages q := by
      simp only [messages, apply_queues_of_ne hq]
    rw [hm]
    exact .keep (fun _ h => hq (queueId_of_accepts h)) (fun _ h => hq (queueId_of_removes h))
  subst hq
  cases op
  case createQueue => exact change_createQueue relay _
  case send => exact change_send relay
  case fetch => exact change_fetch relay
  case acknowledge => exact change_acknowledge relay
  case deleteQueue => exact change_deleteQueue relay

-- An operation which takes effect changes the messages as it does in the relay, and nothing else
-- changes them.
structure History.Valid (history : History) : Prop where
  empty  : ∀ q, (history.relay 0).messages q = []
  quiet  : ∀ t q, history.event t = none →
    (history.relay (t + 1)).messages q = (history.relay t).messages q
  change : ∀ t q op reply, history.event t = some (op, reply) →
    Change (history.relay t) op reply q ((history.relay t).messages q)
      ((history.relay (t + 1)).messages q)

-- How an event takes the relay from one state to the next.
def Advances (relay relay' : Relay) : Option (Operation × Reply) → Prop
  | none             => relay' = relay
  | some (op, reply) => apply op relay = (reply, relay')

theorem History.Valid.of_advances {history : History} (h₀ : history.relay 0 = .new)
    (h : ∀ t, Advances (history.relay t) (history.relay (t + 1)) (history.event t)) :
    history.Valid where
  empty _ := by rw [h₀]; rfl
  quiet t q he := by
    have h := h t
    rw [he] at h
    exact congrArg (·.messages q) h
  change t q op reply he := by
    have h := h t
    rw [he] at h
    have hc := Relay.change (history.relay t) op q
    rwa [show apply op (history.relay t) = _ from h] at hc

theorem history_valid (ops : Nat → Operation) : (history ops).Valid :=
  .of_advances rfl fun _ => rfl

section Events

variable {history : History}

theorem History.accepts_iff (h : history.event t = some (op, reply)) :
    history.Accepts t q m ↔ Relay.Accepts op reply q m := by
  simp [History.Accepts, h]

theorem History.removes_iff (h : history.event t = some (op, reply)) :
    history.Removes t q m ↔ Relay.Removes (history.relay t) op reply q m := by
  simp [History.Removes, h]

-- What becomes of the queued messages in one step.
theorem History.queued_succ :
    history.Queued (t + 1) q i m ↔
      (i = t ∧ history.Accepts t q m) ∨ (history.Queued t q i m ∧ ¬history.Removes t q m) where
  mp h := by
    by_cases hi : i = t
    · exact .inl ⟨hi, hi ▸ h.accepted⟩
    · have hl : i < t := by have := h.lt; omega
      exact .inr ⟨⟨h.accepted, hl, fun j h₁ h₂ => h.kept j h₁ (by omega)⟩, h.kept t hl (by omega)⟩
  mpr := by
    rintro (⟨rfl, h⟩ | ⟨h, hr⟩)
    · exact ⟨h, by omega, fun j h₁ h₂ => by omega⟩
    · refine ⟨h.accepted, by have := h.lt; omega, fun j h₁ h₂ => ?_⟩
      by_cases hj : j = t
      · exact hj ▸ hr
      · exact h.kept j h₁ (by omega)

theorem History.queued_succ_of_none (h : history.event t = none) :
    history.Queued (t + 1) q i m ↔ history.Queued t q i m := by
  simp [queued_succ, Accepts, Removes, h]

theorem History.queued_succ_of_some (h : history.event t = some (op, reply)) :
    history.Queued (t + 1) q i m ↔
      (i = t ∧ Relay.Accepts op reply q m) ∨
      (history.Queued t q i m ∧ ¬Relay.Removes (history.relay t) op reply q m) := by
  rw [queued_succ, accepts_iff h, removes_iff h]

end Events

-- A list annotates the messages of a queue with the indices of their acceptance. The annotated
-- messages are those in `Q`, and those which are marked as delivered are in `F`.
structure Tracks (Q F : Nat → Delivery → Prop) (ms : List QueuedMessage)
    (l : List (Nat × QueuedMessage)) : Prop where
  messages  : ms = l.map Prod.snd
  sorted    : l.Pairwise (·.fst < ·.fst)
  mem       : ∀ i m, Q i m ↔ ∃ p ∈ l, p.fst = i ∧ p.snd.toDelivery = m
  distinct  : l.Pairwise (·.snd.id ≠ ·.snd.id)
  delivered : ∀ p ∈ l, p.snd.delivered → F p.fst p.snd.toDelivery

namespace Tracks

variable {Q Q' F F' : Nat → Delivery → Prop}

theorem congr (h : Tracks Q F ms l) (hq : ∀ i m, Q' i m ↔ Q i m) (hf : ∀ i m, F i m → F' i m) :
    Tracks Q' F' ms l where
  messages  := h.messages
  sorted    := h.sorted
  mem i m   := (hq i m).trans (h.mem i m)
  distinct  := h.distinct
  delivered := fun p hp hd => hf _ _ (h.delivered p hp hd)

theorem live (h : Tracks Q F ms l) (now : Timestamp) :
    Tracks (fun i m => Q i m ∧ now < m.expiresAt) F (live now ms)
      (l.filter (·.snd.expiresAt > now)) where
  messages  := by simp [Relay.live, h.messages, List.filter_map, Function.comp_def]
  sorted    := h.sorted.filter _
  mem i m   := by
    simp only [h.mem, List.mem_filter, decide_eq_true_eq]
    constructor
    · rintro ⟨⟨p, hp, rfl, rfl⟩, hl⟩
      exact ⟨p, ⟨hp, hl⟩, rfl, rfl⟩
    · rintro ⟨p, ⟨hp, hl⟩, rfl, rfl⟩
      exact ⟨⟨p, hp, rfl, rfl⟩, hl⟩
  distinct  := h.distinct.filter _
  delivered := fun p hp => h.delivered p (List.mem_of_mem_filter hp)

theorem append (h : Tracks Q F ms l) (hn : ∀ i m, Q i m → i < n)
    (hi : ∀ m ∈ ms, m.id ≠ message.id) (hd : message.delivered = false) :
    Tracks (fun i m => (i = n ∧ m = message.toDelivery) ∨ Q i m) F (ms ++ [message])
      (l ++ [(n, message)]) where
  messages  := by simp [h.messages]
  sorted    := by
    refine List.pairwise_append.mpr ⟨h.sorted, List.pairwise_singleton .., ?_⟩
    intro p hp p' hp'
    cases List.mem_singleton.mp hp'
    exact hn _ _ <| h.mem _ _ |>.mpr ⟨p, hp, rfl, rfl⟩
  mem i m   := by
    simp only [h.mem, List.mem_append, List.mem_singleton, or_and_right, exists_or, exists_eq_left]
    rw [or_comm, eq_comm (a := n), eq_comm (a := m)]
  distinct  := by
    refine List.pairwise_append.mpr ⟨h.distinct, List.pairwise_singleton .., ?_⟩
    intro p hp p' hp'
    cases List.mem_singleton.mp hp'
    exact hi _ <| h.messages ▸ List.mem_map_of_mem hp
  delivered := by
    intro p hp hp'
    rcases List.mem_append.mp hp with hp | hp
    · exact h.delivered p hp hp'
    · simp_all

theorem exists_head (h : Tracks Q F (message :: rest) l) : ∃ i l', l = (i, message) :: l' := by
  have := h.messages
  cases l <;> simp at this
  exact ⟨_, _, by rw [this.left]⟩

theorem head_mem (h : Tracks Q F ms ((i, message) :: l)) : Q i message.toDelivery :=
  h.mem _ _ |>.mpr ⟨_, List.mem_cons_self, rfl, rfl⟩

theorem head_le (h : Tracks Q F ms ((i, message) :: l)) (hm : Q i' m') : i ≤ i' := by
  obtain ⟨p, hp, rfl, _⟩ := h.mem _ _ |>.mp hm
  rcases List.mem_cons.mp hp with rfl | hp
  · exact Nat.le_refl _
  · exact Nat.le_of_lt <| List.rel_of_pairwise_cons h.sorted hp

theorem index_eq_iff (h : Tracks Q F ms ((i, message) :: l)) (hm : Q i' m') :
    i' = i ↔ m'.id = message.id := by
  obtain ⟨p, hp, rfl, rfl⟩ := h.mem _ _ |>.mp hm
  rcases List.mem_cons.mp hp with rfl | hp
  · simp [QueuedMessage.toDelivery]
  · have hi := List.rel_of_pairwise_cons h.sorted hp
    have hd := List.rel_of_pairwise_cons h.distinct hp
    exact ⟨fun h => absurd h (Nat.ne_of_gt hi), fun h => absurd h hd.symm⟩

theorem tail (h : Tracks Q F (message :: rest) ((i, message) :: l)) :
    Tracks (fun i m => Q i m ∧ m.id ≠ message.id) F rest l where
  messages  := by simpa using h.messages
  sorted    := h.sorted.of_cons
  mem i' m  := by
    simp only [h.mem, List.mem_cons]
    constructor
    · rintro ⟨⟨p, rfl | hp, rfl, rfl⟩, hi⟩
      · contradiction
      · exact ⟨p, hp, rfl, rfl⟩
    · rintro ⟨p, hp, rfl, rfl⟩
      exact ⟨⟨p, .inr hp, rfl, rfl⟩, (List.rel_of_pairwise_cons h.distinct hp).symm⟩
  distinct  := h.distinct.of_cons
  delivered := fun p hp => h.delivered p (List.mem_cons_of_mem _ hp)

theorem deliver (h : Tracks Q F (message :: rest) ((i, message) :: l))
    (hf : F i message.toDelivery) :
    Tracks Q F ({ message with delivered := true } :: rest)
      ((i, { message with delivered := true }) :: l) where
  messages  := by simpa using h.messages
  sorted    := by simpa using h.sorted
  mem i' m  := by simpa [QueuedMessage.toDelivery] using h.mem i' m
  distinct  := by simpa using h.distinct
  delivered := by
    intro p hp hd
    rcases List.mem_cons.mp hp with rfl | hp
    · exact hf
    · exact h.delivered p (List.mem_cons_of_mem _ hp) hd

end Tracks

namespace History

variable {history : History}

-- The message accepted at `i` has been fetched before `t`.
def FetchedBefore (history : History) (t : Nat) (q : QueueId) (i : Nat) (m : Delivery) : Prop :=
  ∃ k, i < k ∧ k < t ∧ history.Fetched k q i m

theorem FetchedBefore.succ (h : history.FetchedBefore t q i m) :
    history.FetchedBefore (t + 1) q i m :=
  have ⟨k, h₁, h₂, hf⟩ := h
  ⟨k, h₁, by omega, hf⟩

-- The invariant which ties the messages of a queue to the history of the queue.
def Invariant (history : History) (t : Nat) (q : QueueId) (l : List (Nat × QueuedMessage)) : Prop :=
  Tracks (history.Queued t q) (history.FetchedBefore t q) ((history.relay t).messages q) l

theorem Invariant.change (h : history.Invariant t q l) (he : history.event t = some (op, reply))
    (hc : Change (history.relay t) op reply q ((history.relay t).messages q)
      ((history.relay (t + 1)).messages q)) :
    ∃ l', history.Invariant (t + 1) q l' := by
  have hf {i m} (h : history.FetchedBefore t q i m) := h.succ
  have hs := fun i m => queued_succ_of_some (q := q) (i := i) (m := m) he
  unfold Invariant
  generalize (history.relay (t + 1)).messages q = ms at hc
  cases hc
  case keep ha hr => exact ⟨_, h.congr (by simp [hs, ha, hr]) fun _ _ => hf⟩
  case purge now ha hr =>
    exact ⟨_, Tracks.live h now |>.congr (by simp [hs, ha, hr]) fun _ _ => hf⟩
  case accept now message ha hr hi hd =>
    have ht := Tracks.live h now |>.append (n := t) (fun _ _ hq => hq.left.lt) hi hd
    exact ⟨_, ht.congr (by simp [hs, ha, hr]) fun _ _ => hf⟩
  case deliver recipient now message rest ha hr hl ho hr' =>
    have ht := hl ▸ Tracks.live h now
    have ⟨i, l', hl'⟩ := ht.exists_head
    have ht := hl' ▸ ht
    have hc : history.Current t q now i message.toDelivery :=
      ⟨ht.head_mem.left, ht.head_mem.right, fun _ _ hq he => ht.head_le ⟨hq, he⟩⟩
    have hb : history.FetchedBefore (t + 1) q i message.toDelivery :=
      ⟨t, hc.queued.lt, by omega, _, _, ho ▸ hr' ▸ he, hc⟩
    have ht : Tracks (history.Queued (t + 1) q) (history.FetchedBefore (t + 1) q) .. :=
      ht.congr (by simp [hs, ha, hr]) fun _ _ => hf
    exact ⟨_, ht.deliver hb⟩
  case acknowledge now message ha hr hd hl =>
    have ht := hl ▸ Tracks.live h now
    have ⟨i, l', hl'⟩ := ht.exists_head
    have ht := (hl' ▸ ht).tail
    exact ⟨_, ht.congr (by simp [hs, ha, hr, and_assoc]) fun _ _ => hf⟩
  case delete ha hr =>
    exact ⟨[], rfl, .nil, by simp [hs, ha, hr], .nil, by simp⟩

theorem Valid.succ (hv : history.Valid) (h : history.Invariant t q l) :
    ∃ l', history.Invariant (t + 1) q l' := by
  match he : history.event t with
  | none =>
    unfold Invariant
    rw [hv.quiet t q he]
    exact ⟨_, h.congr (fun _ _ => queued_succ_of_none he) fun _ _ => FetchedBefore.succ⟩
  | some (op, reply) => exact h.change he (hv.change t q op reply he)

theorem Valid.invariant (hv : history.Valid) (t : Nat) (q : QueueId) :
    ∃ l, history.Invariant t q l := by
  induction t
  case zero =>
    have hq (i m) : ¬history.Queued 0 q i m := fun h => Nat.not_lt_zero _ h.lt
    exact ⟨[], hv.empty q, .nil, by simp [hq], .nil, by simp⟩
  case succ hi =>
    have ⟨_, h⟩ := hi
    exact hv.succ h

end History

theorem fetch_eq_ok {relay : Relay} :
    (relay.fetch q recipient now).fst = .ok delivery ↔
      ∃ queue, relay.queues q = some queue ∧ queue.config.recipient = recipient ∧
        delivery = (live now queue.messages).head?.map QueuedMessage.toDelivery := by
  unfold fetch
  split
  case h_1 h =>
    have := recipientQueue_eq_error h
    grind
  case h_2 queue h =>
    have ⟨hq, hc⟩ := recipientQueue_eq_ok.mp h
    obtain ⟨hl, hf⟩ | ⟨m, rest, hl, hf⟩ := front_cases (queue.discardExpired now)
    all_goals
      change live now queue.messages = _ at hl
      simp [hf, hq, hc, hl, eq_comm]

theorem of_acknowledge_eq_ok {relay : Relay}
    (h : (relay.acknowledge q recipient messageId now).fst = .ok u) :
    ∃ queue, relay.queues q = some queue ∧ queue.config.recipient = recipient ∧
      ∃ m rest, live now queue.messages = m :: rest ∧ m.id = messageId ∧ m.delivered := by
  unfold acknowledge at h
  split at h
  case h_1 => contradiction
  case h_2 queue hr =>
    have ⟨hq, hc⟩ := recipientQueue_eq_ok.mp hr
    obtain ⟨e, hf⟩ | ⟨m, rest, hl, hi, hd, hf⟩ :=
      popFront_cases (queue.discardExpired now) messageId
    · simp [hf] at h
    · exact ⟨queue, hq, hc, m, rest, hl, hi, hd⟩

namespace History

variable {history : History}

-- The messages of a queue are the queued ones in the order of their acceptance.
theorem Valid.messages_queued (hv : history.Valid) (t : Nat) (q : QueueId) :
    ∃ accepted : List (Nat × Delivery),
      accepted.Pairwise (·.fst < ·.fst) ∧
      ((history.relay t).messages q).map QueuedMessage.toDelivery = accepted.map Prod.snd ∧
      ∀ i m, (i, m) ∈ accepted ↔ history.Queued t q i m := by
  have ⟨l, h⟩ := hv.invariant t q
  refine ⟨l.map fun (i, message) => (i, message.toDelivery), ?_, ?_, ?_⟩
  · exact List.pairwise_map.mpr h.sorted
  · simp [h.messages]
  · simp [h.mem]

theorem Valid.fetch_current (hv : history.Valid) (t : Nat)
    (hf : ((history.relay t).fetch q recipient now).fst = .ok delivery) :
    (∃ i m, delivery = some m ∧ history.Current t q now i m) ∨
      (delivery = none ∧ ∀ i m, history.Queued t q i m → m.expiresAt ≤ now) := by
  have ⟨l, h⟩ := hv.invariant t q
  have ht := Tracks.live h now
  obtain ⟨queue, hq, _, rfl⟩ := fetch_eq_ok.mp hf
  rw [messages_of_queues hq] at ht
  generalize live now queue.messages = ms at ht
  cases ms
  case nil =>
    refine .inr ⟨rfl, fun i m hq => UInt64.not_lt.mp fun hl => ?_⟩
    have ⟨p, hp, _⟩ := ht.mem i m |>.mp ⟨hq, hl⟩
    simp [List.map_eq_nil_iff.mp ht.messages.symm] at hp
  case cons message rest =>
    have ⟨i, l', he⟩ := ht.exists_head
    have ht := he ▸ ht
    exact .inl ⟨i, _, rfl, ht.head_mem.left, ht.head_mem.right,
      fun _ _ hq hl => ht.head_le ⟨hq, hl⟩⟩

theorem Valid.acknowledge_current (hv : history.Valid)
    (he : history.event t = some (.acknowledge q recipient messageId now, .ok .acknowledge))
    (hf : ((history.relay t).acknowledge q recipient messageId now).fst = .ok ()) :
    ∃ i m, m.id = messageId ∧ history.Current t q now i m ∧
      (∃ k, i < k ∧ k < t ∧ history.Fetched k q i m) ∧
      ∀ i' m', history.Queued (t + 1) q i' m' ↔
        history.Queued t q i' m' ∧ now < m'.expiresAt ∧ i' ≠ i := by
  have ⟨l, h⟩ := hv.invariant t q
  have ht := Tracks.live h now
  obtain ⟨queue, hq, hc, message, rest, hl, rfl, hd⟩ := of_acknowledge_eq_ok hf
  rw [messages_of_queues hq, hl] at ht
  have ⟨i, l', hl'⟩ := ht.exists_head
  have ht := hl' ▸ ht
  refine ⟨i, message.toDelivery, rfl, ?_, ?_, ?_⟩
  · exact ⟨ht.head_mem.left, ht.head_mem.right, fun _ _ hq hl => ht.head_le ⟨hq, hl⟩⟩
  · exact ht.delivered _ List.mem_cons_self hd
  · intro i' m'
    simp only [queued_succ_of_some he, removes_acknowledge, Relay.Accepts]
    simp [hq, hc]
    intro hq hl
    exact ht.index_eq_iff ⟨hq, hl⟩ |>.not.symm

end History

-- Every run keeps the messages which it accepts, unchanged and in order, until they are acknowledged,
-- found to be expired or deleted with their queue. An acknowledged message is the current one and has
-- been fetched since its acceptance, and a fetched message is the current one.
theorem no_loss_no_reordering_no_fabrication (ops : Nat → Operation) (t : Nat) (q : QueueId) :
    (∃ accepted : List (Nat × Delivery),
      accepted.Pairwise (·.fst < ·.fst) ∧
      ((machine.state ops t).messages q).map QueuedMessage.toDelivery = accepted.map Prod.snd ∧
      ∀ i m, (i, m) ∈ accepted ↔ (history ops).Queued t q i m) ∧
    (∀ recipient messageId now,
      ops t = .acknowledge q recipient messageId now →
      machine.output ops t = .ok .acknowledge →
      ∃ i m, m.id = messageId ∧ (history ops).Current t q now i m ∧
        (∃ k, i < k ∧ k < t ∧ (history ops).Fetched k q i m) ∧
        ∀ i' m', (history ops).Queued (t + 1) q i' m' ↔
          (history ops).Queued t q i' m' ∧ now < m'.expiresAt ∧ i' ≠ i) ∧
    (∀ recipient now delivery,
      ops t = .fetch q recipient now →
      machine.output ops t = .ok (.fetch delivery) →
      (∃ i m, delivery = some m ∧ (history ops).Current t q now i m) ∨
      (delivery = none ∧ ∀ i m, (history ops).Queued t q i m → m.expiresAt ≤ now)) := by
  have hv := history_valid ops
  refine ⟨hv.messages_queued t q, fun recipient messageId now ho hr => ?_,
    fun recipient now delivery ho hr => ?_⟩
  all_goals
    have hf : (apply (ops t) (machine.state ops t)).fst = _ := hr
    rw [ho] at hf
    obtain ⟨_, hf, he⟩ := Except.map_eq_ok.mp hf
  · exact hv.acknowledge_current (by simp [history, ho, hr]) hf
  · cases he
    exact hv.fetch_current t hf

end Cofferwire.Relay
