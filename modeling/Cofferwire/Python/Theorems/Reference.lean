import Cofferwire.Python.Theorems.Relay
import Cofferwire.Relay.Theorems.Durable
import Cofferwire.Service.Exchange

namespace Cofferwire.Python

open DurableRelay (QueueTables)
open Cofferwire.Relay (Reply Outcome Operation)

-- A number which fits an integer of the database fits a `u64`.
def Integer.toUInt64 (n : Integer) : UInt64 :=
  .ofNat n.value

theorem Integer.toNat_toUInt64 (n : Integer) : n.toUInt64.toNat = n.value := by
  have := n.bounded
  rw [toUInt64, UInt64.toNat_ofNat', Nat.mod_eq_of_lt (by omega)]

theorem Integer.toUInt64_eq {n : Integer} : n.toUInt64 = v ↔ n.value = v.toNat := by
  rw [←UInt64.toNat_inj, n.toNat_toUInt64]

-- The rows as the other implementation stores them.
def QueueRow.toDurable (row : QueueRow) : DurableRelay.QueueRow where
  queueId         := row.queue
  sender          := row.sender
  recipient       := row.recipient
  maxMessages     := toBeBytes row.maxMessages.toUInt64
  maxMessageBytes := toBeBytes row.maxBytes.toUInt64

def MessageRow.toDurable (row : MessageRow) : DurableRelay.MessageRow where
  sequence  := row.sequence
  queueId   := row.queue
  messageId := row.message
  payload   := row.payload
  expiresAt := toBeBytes row.expires.toUInt64
  delivered := row.delivered

def Database.tables (database : Database) : QueueTables where
  queues   := database.queues.map QueueRow.toDurable
  messages := database.messages.map MessageRow.toDurable

namespace Relay

structure Valid (database : Database) : Prop where
  tables   : database.tables.Valid
  sequence : ∀ row ∈ database.messages, row.sequence ≤ database.sequence

variable {database : Database} {q : ByteVec 32} {now : Timestamp}

theorem lookup_tables :
    Table.lookup DurableRelay.QueueRow.queueId q database.tables.queues =
      (queue database q).map QueueRow.toDurable := by
  simp only [Table.lookup, queue, Database.tables, List.find?_map]
  rfl

-- A queue of the database is one of the reference model.
theorem queue_cases (hv : Valid database) (q : ByteVec 32) :
    (queue database q = none ∧ database.tables.relay.queues ⟨q⟩ = none) ∨
    ∃ row limits, queue database q = some row ∧
      database.tables.relay.queues ⟨q⟩ = some ⟨⟨⟨row.sender⟩, ⟨row.recipient⟩, limits⟩,
        (database.tables.rows ⟨q⟩).map DurableRelay.MessageRow.toMessage⟩ ∧
      limits.maxMessages.toNat = row.maxMessages.value ∧
      limits.maxMessageBytes.toNat = row.maxBytes.value := by
  have hl : Table.lookup DurableRelay.QueueRow.queueId q database.tables.queues = _ := lookup_tables
  cases hq : queue database q <;> rw [hq] at hl
  case none => exact .inl ⟨rfl, QueueTables.relay_queues_eq_none hv.tables |>.mpr hl⟩
  case some row =>
    obtain ⟨config, hc⟩ := Option.isSome_iff_exists.mp <| hv.tables.configs _ (Table.mem_of_lookup hl)
    obtain ⟨hs, hr, hm, hb⟩ := DurableRelay.QueueRow.config_eq_some.mp hc
    simp only [QueueRow.toDurable, fromBeBytes_toBeBytes] at hs hr hm hb
    obtain ⟨⟨_⟩, ⟨_⟩, limits⟩ := config
    subst hs hr
    refine .inr ⟨row, limits, rfl, ?_, ?_, ?_⟩
    · exact QueueTables.relay_queues_eq_some.mpr ⟨_, hl, hc, rfl⟩
    · rw [←hm, Integer.toNat_toUInt64]
    · rw [←hb, Integer.toNat_toUInt64]

theorem pruned_tables :
    (pruned database q now.toNat).tables = DurableRelay.discardExpired database.tables ⟨q⟩ now := by
  simp only [pruned, Database.tables, DurableRelay.discardExpired, List.filter_map,
    QueueTables.mk.injEq, true_and]
  congr 1
  apply List.filter_congr
  intro row _
  simp [MessageRow.toDurable, le_iff_fromBeBytes_le, UInt64.le_iff_toNat_le, Integer.toNat_toUInt64]
  rfl

theorem pruned_valid (hv : Valid database) : Valid (pruned database q now.toNat) where
  tables   := pruned_tables ▸ DurableRelay.discardExpired_valid hv.tables
  sequence := fun row hr => hv.sequence row (List.mem_of_mem_filter hr)

def outcomeValues : Outcome → List Value
  | .createQueue outcome => [.int outcome.asU8.toNat]
  | .send outcome        => [.int outcome.asU8.toNat]
  | .fetch none          => [.int 0]
  | .fetch (some delivery) => [
      .int 1,
      .id delivery.id.asBytes,
      .bytes delivery.payload,
      .int delivery.expiresAt.toNat
    ]
  | .acknowledge | .deleteQueue => []

def answerOf : Reply → Answer
  | .ok outcome  => (Code.ok, outcomeValues outcome)
  | .error error => ((relayStatus error).asU8.toNat, [])

-- The effect of a command is the one in the reference model.
structure Simulates (database : Database) (result : Except Error (Answer × Database))
    (reference : Reply × Cofferwire.Relay) : Prop where
  intro ::
  exists_ok : ∃ database', result = .ok (answerOf reference.fst, database') ∧ Valid database' ∧
    database'.tables.relay = reference.snd ∧ database'.replays = database.replays

theorem Simulates.of_eq (h : Simulates database result reference) (hr : result' = result)
    (hf : reference' = reference) : Simulates database result' reference' := by
  rwa [hr, hf]

theorem simulates_self (hv : Valid database) (reply : Reply) :
    Simulates database (.ok (answerOf reply, database)) (reply, database.tables.relay) :=
  ⟨database, rfl, hv, rfl, rfl⟩

theorem lookup_messages {m : MessageId} :
    ((database.tables.rows ⟨q⟩).map DurableRelay.MessageRow.toMessage).find? (·.id = m) =
      (Table.lookup MessageRow.key (q, m.asBytes) database.messages).map
        (DurableRelay.MessageRow.toMessage ·.toDurable) := by
  rw [DurableRelay.find?_rows]
  simp only [Database.tables, List.find?_map, Option.map_map, Table.lookup]
  congr 2
  funext row
  simp [MessageRow.toDurable, MessageRow.key]
  rfl

theorem count_rows : (database.tables.rows ⟨q⟩).length = database.messages.countP (·.queue = q) := by
  simp only [QueueTables.rows, Database.tables, List.filter_map, List.length_map,
    List.countP_eq_length_filter]
  rfl

theorem executeSend_simulates {queue : Cofferwire.Relay.Queue} (hv : Valid database)
    (hq : database.tables.relay.queues ⟨q⟩ = some queue)
    (hm : queue.config.limits.maxMessages.toNat = row.maxMessages.value)
    (hb : queue.config.limits.maxMessageBytes.toNat = row.maxBytes.value)
    (hn : now.toNat + ttl.asSecs.toNat < 2 ^ 63) :
    Simulates database (executeSend database row q m.asBytes payload ttl.asSecs.toNat now.toNat)
      (Cofferwire.Relay.answer .send ((queue.enqueue m payload now ttl).fst,
        database.tables.relay.insert ⟨q⟩ (queue.enqueue m payload now ttl).snd)) := by
  have ⟨_, hl, _, hms⟩ := QueueTables.relay_queues_eq_some.mp hq
  have hs := Cofferwire.Relay.insert_self hq
  have he (reply : Except RelayError SendOutcome) :
      Simulates database (.ok (answerOf (reply.map .send), database))
        (Cofferwire.Relay.answer .send (reply, database.tables.relay.insert ⟨q⟩ queue)) := by
    rw [hs]
    exact simulates_self hv _
  have ht : 1 ≤ ttl.asSecs.toNat := Nat.pos_of_ne_zero fun h => ttl.pos (UInt64.toNat_inj.mp h)
  simp only [executeSend, Cofferwire.Relay.Queue.enqueue, hms, lookup_messages, List.length_map,
    count_rows, hm, hb]
  cases hf : Table.lookup MessageRow.key (q, m.asBytes) database.messages
  case some existing =>
    have hp : (DurableRelay.MessageRow.toMessage existing.toDurable).payload = existing.payload := rfl
    simp only [Option.map_some, hp]
    split
    · exact he (.ok .duplicate)
    · exact he (.error .messageIdConflict)
  case none =>
    simp only [Option.map_none]
    split
    · exact he (.error .messageTooLarge)
    split
    · exact he (.error .queueFull)
    rw [if_neg (by omega), if_neg (by omega), integer_new hn]
    let expires : Integer := ⟨_, hn⟩
    let message : MessageRow := ⟨database.sequence + 1, q, m.asBytes, payload, expires, false⟩
    have hi : insertMessage database q m.asBytes payload expires = .ok { database with
        messages := database.messages ++ [message], sequence := database.sequence + 1 } := by
      have : Table.insert MessageRow.key message database.messages = some _ :=
        Table.insert_eq_some.mpr ⟨hf, rfl⟩
      simp only [insertMessage, expires, message] at this ⊢
      rw [this]
    have ha : checkedAdd now ttl.asSecs = some expires.toUInt64 :=
      checkedAdd_eq_some.mpr expires.toNat_toUInt64.symm
    have hlt (row') (hr : row' ∈ database.tables.messages) :
        row'.sequence < message.toDurable.sequence := by
      obtain ⟨row', hm, rfl⟩ := List.mem_map.mp hr
      exact Nat.lt_succ_of_le (hv.sequence row' hm)
    obtain ⟨hv', hr⟩ := DurableRelay.append_message message.toDurable hv.tables hq rfl hlt
    have ht : Database.tables { database with
        messages := database.messages ++ [message], sequence := database.sequence + 1 } =
        ⟨database.tables.queues, database.tables.messages ++ [message.toDurable]⟩ := by
      simp [Database.tables]
    simp only [Except.ok_bind, ha]
    rw [hi]
    refine ⟨_, rfl, ⟨ht ▸ hv', fun row' hr' => ?_⟩, ?_, rfl⟩
    · rcases List.mem_append.mp hr' with hm | hm
      · exact Nat.le_succ_of_le (hv.sequence row' hm)
      · rw [List.mem_singleton.mp hm]
    · rw [ht, hr, hms]
      simp [Cofferwire.Relay.answer, DurableRelay.MessageRow.toMessage, MessageRow.toDurable, message]

theorem ordered (hv : Valid database) : database.messages.Pairwise (·.sequence < ·.sequence) := by
  have ho := hv.tables.ordered
  rw [Database.tables, List.pairwise_map] at ho
  exact ho

theorem currentRow_tables (hv : Valid database) :
    DurableRelay.currentRow database.tables ⟨q⟩ = (oldest database q).map MessageRow.toDurable := by
  rw [DurableRelay.currentRow_eq hv.tables, oldest, Table.first_eq_head? ((ordered hv).filter _)]
  simp only [QueueTables.rows, Database.tables, List.filter_map, List.head?_map]
  rfl

theorem executeFetch_simulates {queue : Cofferwire.Relay.Queue} (hv : Valid database)
    (hq : database.tables.relay.queues ⟨q⟩ = some queue) :
    Simulates database (.ok (executeFetch database q))
      (Cofferwire.Relay.answer .fetch (queue.front.fst,
        database.tables.relay.insert ⟨q⟩ queue.front.snd)) := by
  have hr := DurableRelay.frontTx_refines hv.tables hq
  rw [currentRow_tables hv] at hr
  unfold executeFetch
  cases ho : oldest database q <;> rw [ho] at hr
  case none =>
    rw [hr.of_ok.right]
    exact simulates_self hv (.ok (.fetch none))
  case some row =>
    obtain ⟨hv', he⟩ := hr.of_ok
    rw [he]
    let messages := Table.update (·.sequence = row.sequence) ({ · with delivered := true })
      database.messages
    have ht : Database.tables { database with messages } = ⟨database.tables.queues,
        Table.update (·.sequence = row.toDurable.sequence) ({ · with delivered := true })
          database.tables.messages⟩ := by
      simp only [Database.tables, messages, Table.update, List.map_map, QueueTables.mk.injEq, true_and]
      apply List.map_congr_left
      intro row' _
      simp only [Function.comp]
      split <;> simp_all [MessageRow.toDurable]
    refine ⟨{ database with messages }, ?_, ⟨ht ▸ hv', ?_⟩, ht ▸ rfl, rfl⟩
    · simp [answerOf, outcomeValues, Cofferwire.Relay.answer, Except.map, MessageRow.toDurable,
        Integer.toNat_toUInt64, Value.id, messages]
    · intro row' hr'
      obtain ⟨row', hm, rfl⟩ := Table.mem_update.mp hr'
      split <;> exact hv.sequence row' hm

theorem popFront_error_simulates {queue : Cofferwire.Relay.Queue} (hv : Valid database)
    (hq : database.tables.relay.queues ⟨q⟩ = some queue) (h : (queue.popFront m).fst = .error e) :
    Simulates database (.ok (answerOf (.error e), database))
      (Cofferwire.Relay.answer (fun _ => .acknowledge) ((queue.popFront m).fst,
        database.tables.relay.insert ⟨q⟩ (queue.popFront m).snd)) := by
  obtain ⟨e', hp⟩ | ⟨_, _, _, _, _, hp⟩ := Cofferwire.Relay.popFront_cases queue m
  · rw [hp] at h
    cases h
    rw [hp, Cofferwire.Relay.insert_self hq]
    exact simulates_self hv (.error e)
  · rw [hp] at h
    cases h

theorem executeAck_simulates {queue : Cofferwire.Relay.Queue} (hv : Valid database)
    (hq : database.tables.relay.queues ⟨q⟩ = some queue) (m : MessageId) :
    Simulates database (.ok (executeAck database q m.asBytes))
      (Cofferwire.Relay.answer (fun _ => .acknowledge) ((queue.popFront m).fst,
        database.tables.relay.insert ⟨q⟩ (queue.popFront m).snd)) := by
  have hr := DurableRelay.popFrontTx_refines hv.tables hq m
  rw [currentRow_tables hv] at hr
  unfold executeAck
  cases ho : oldest database q <;> rw [ho] at hr
  case none =>
    obtain ⟨_, ⟨⟩, h⟩ := hr.of_error
    exact popFront_error_simulates hv hq h
  case some row =>
    simp only [Option.map_some, MessageRow.toDurable] at hr
    by_cases hm : row.message = m.asBytes
    case neg =>
      rw [if_pos hm] at hr
      obtain ⟨_, ⟨⟩, h⟩ := hr.of_error
      simp only [ne_eq, hm, not_false_eq_true, if_true]
      exact popFront_error_simulates hv hq h
    case pos =>
      rw [if_neg (not_not.mpr hm)] at hr
      by_cases hd : row.delivered
      case neg =>
        rw [if_pos hd] at hr
        obtain ⟨_, ⟨⟩, h⟩ := hr.of_error
        simp only [ne_eq, hm, not_true_eq_false, if_false, hd]
        exact popFront_error_simulates hv hq h
      case pos =>
        rw [if_neg (not_not.mpr hd)] at hr
        obtain ⟨hv', he⟩ := hr.of_ok
        simp only [ne_eq, hm, not_true_eq_false, if_false, hd]
        rw [he]
        let messages := database.messages.filter (·.sequence ≠ row.sequence)
        have ht : Database.tables { database with messages } = ⟨database.tables.queues,
            database.tables.messages.filter (·.sequence ≠ row.sequence)⟩ := by
          simp only [Database.tables, messages, List.filter_map]
          rfl
        refine ⟨{ database with messages }, rfl, ⟨ht ▸ hv', fun row' hr' => ?_⟩, ht ▸ rfl, rfl⟩
        exact hv.sequence row' (List.mem_of_mem_filter hr')

theorem executeDelete_simulates {queue : Cofferwire.Relay.Queue} (hv : Valid database)
    (hq : database.tables.relay.queues ⟨q⟩ = some queue) :
    Simulates database (.ok (executeDelete database q))
      (Cofferwire.Relay.answer (fun _ => .deleteQueue)
        (.ok (), database.tables.relay.remove ⟨q⟩)) := by
  have ha := Cofferwire.Relay.recipientQueue_eq_ok.mpr ⟨hq, rfl⟩
  have hr : DurableRelay.Refines
      (DurableRelay.deleteQueueTx database.tables ⟨q⟩ queue.config.recipient) _ :=
    DurableRelay.deleteQueueTx_refines hv.tables
  rw [DurableRelay.deleteQueueTx, DurableRelay.authorizeRecipient_eq hv.tables,
    Cofferwire.Relay.deleteQueue, ha] at hr
  obtain ⟨hv', he⟩ := hr.of_ok
  have ht : (executeDelete database q).snd.tables =
      ⟨database.tables.queues.filter (·.queueId ≠ q),
        database.tables.messages.filter (·.queueId ≠ q)⟩ := by
    simp only [executeDelete, Database.tables, List.filter_map]
    rfl
  simp only [Prod.mk.injEq, true_and] at he
  rw [he]
  refine ⟨(executeDelete database q).snd, rfl, ⟨ht ▸ hv', fun row hr => ?_⟩, ht ▸ rfl, rfl⟩
  exact hv.sequence row (List.mem_of_mem_filter hr)

theorem executeCreate_simulates {limits : Cofferwire.Relay.QueueLimits} (hv : Valid database)
    (hm : limits.maxMessages.toNat < 2 ^ 63) (hb : limits.maxMessageBytes.toNat < 2 ^ 63) :
    Simulates database
      (executeCreate database (queue database q) q sender.asBytes recipient.asBytes
        limits.maxMessages.toNat limits.maxMessageBytes.toNat)
      (Cofferwire.Relay.answer .createQueue
        (database.tables.relay.createQueue ⟨q⟩ ⟨sender, recipient, limits⟩)) := by
  obtain ⟨hq, hq'⟩ | ⟨row, limits', hq, hq', hm', hb'⟩ := queue_cases hv q
  all_goals simp only [executeCreate, Cofferwire.Relay.createQueue, hq, hq']
  case inl =>
    let row : QueueRow := ⟨q, sender.asBytes, recipient.asBytes, ⟨_, hm⟩, ⟨_, hb⟩⟩
    have hl := QueueTables.relay_queues_eq_none hv.tables |>.mp hq'
    have hc : row.toDurable.config = some ⟨sender, recipient, limits⟩ := by
      refine DurableRelay.QueueRow.config_eq_some.mpr ⟨rfl, rfl, ?_, ?_⟩
      all_goals simp [row, QueueRow.toDurable, Integer.toUInt64_eq]
    have hr := DurableRelay.insertQueue_refines hv.tables hl rfl hc
    have hi : insertQueue database ⟨q, sender.asBytes, recipient.asBytes, ⟨_, hm⟩, ⟨_, hb⟩⟩ =
        .ok { database with queues := database.queues ++ [row] } := by
      have : Table.insert QueueRow.queue row database.queues = some _ :=
        Table.insert_eq_some.mpr ⟨hq, rfl⟩
      rw [insertQueue, this]
    have hi' : DurableRelay.insertQueue database.tables row.toDurable =
        .ok ⟨database.tables.queues ++ [row.toDurable], database.tables.messages⟩ := by
      have : Table.insert DurableRelay.QueueRow.queueId row.toDurable database.tables.queues = some _ :=
        Table.insert_eq_some.mpr ⟨hl, rfl⟩
      rw [DurableRelay.insertQueue, this]
    rw [hi', Except.ok_bind] at hr
    obtain ⟨hv', he⟩ := hr.of_ok
    have ht : Database.tables { database with queues := database.queues ++ [row] } =
        ⟨database.tables.queues ++ [row.toDurable], database.tables.messages⟩ := by
      simp [Database.tables]
    simp only [integer_new hm, integer_new hb, Except.ok_bind, hi]
    rw [he]
    exact ⟨_, rfl, ⟨ht ▸ hv', hv.sequence⟩, ht ▸ rfl, rfl⟩
  case inr =>
    have hc : row.sender = sender.asBytes ∧ row.recipient = recipient.asBytes ∧
        row.maxMessages.value = limits.maxMessages.toNat ∧
        row.maxBytes.value = limits.maxMessageBytes.toNat ↔
        (⟨⟨row.sender⟩, ⟨row.recipient⟩, limits'⟩ : Cofferwire.Relay.QueueConfig) =
          ⟨sender, recipient, limits⟩ := by
      cases sender
      cases recipient
      rw [←hm', ←hb', UInt64.toNat_inj, UInt64.toNat_inj]
      simp [Cofferwire.Relay.QueueLimits.ext_iff]
    by_cases h : (⟨⟨row.sender⟩, ⟨row.recipient⟩, limits'⟩ : Cofferwire.Relay.QueueConfig) =
      ⟨sender, recipient, limits⟩
    case pos =>
      rw [if_pos (hc.mpr h), if_pos h]
      exact simulates_self hv (.ok (.createQueue .alreadyExists))
    case neg =>
      rw [if_neg (mt hc.mp h), if_neg h]
      exact simulates_self hv (.error .queueIdConflict)

-- The arguments which both implementations can store.
def InDomain (now : Timestamp) : Request → Prop
  | .createQueue create => create.limits.maxMessages.toNat < 2 ^ 63
  | .send send          => send.ttl ≠ 0 ∧ now.toNat + send.ttl.toNat < 2 ^ 63
  | .fetch _ | .ack _ | .deleteQueue _ => True

-- A command on an existing queue, once its expired messages have been removed.
theorem pruned_simulates {queue : Cofferwire.Relay.Queue}
    {f : Database → Except Error (Answer × Database)} {reply : Reply} (hv : Valid database)
    (hq : database.tables.relay.queues ⟨q⟩ = some queue) (hn : now.toNat < 2 ^ 63)
    (h : ∀ database, Valid database →
      database.tables.relay.queues ⟨q⟩ = some (queue.discardExpired now) →
      Simulates database (f database) (reply, database.tables.relay.insert ⟨q⟩ queue')) :
    Simulates database (prune database q now.toNat >>= f)
      (reply, database.tables.relay.insert ⟨q⟩ queue') := by
  have hr : (pruned database q now.toNat).tables.relay =
      database.tables.relay.insert ⟨q⟩ (queue.discardExpired now) := by
    rw [pruned_tables, DurableRelay.relay_discardExpired hq]
  obtain ⟨database', hf, hv', hr', hp⟩ :=
    h _ (pruned_valid hv) (hr ▸ Cofferwire.Relay.queues_insert_self)
  rw [hr, Cofferwire.Relay.insert_insert] at hr'
  rw [prune_eq hn, Except.ok_bind]
  exact ⟨database', hf, hv', hr', hp⟩

theorem access_none (h : queue database q = none) :
    access database q permitted f = .ok ((Code.queueNotFound, []), database) := by
  rw [access, h]

theorem access_denied (h : queue database q = some row) (hp : permitted row = false) :
    access database q permitted f = .ok ((Code.unauthorized, []), database) := by
  simp [access, h, hp]

theorem access_some (h : queue database q = some row) (hp : permitted row = true) :
    access database q permitted f = f row := by
  simp [access, h, hp]

theorem ttl_eq {ttl : Cofferwire.Relay.Ttl} (h : Cofferwire.Relay.Ttl.fromSecs seconds = some ttl) :
    seconds = ttl.asSecs := by
  unfold Cofferwire.Relay.Ttl.fromSecs at h
  split at h <;> cases h
  rfl

-- A command which only the recipient of a queue may give.
theorem recipient_simulates {f : QueueRow → Except Error (Answer × Database)}
    {g : Cofferwire.Relay.Queue → Reply × Cofferwire.Relay} (hv : Valid database) (q : QueueId)
    (recipient : Principal)
    (h : ∀ row queue', database.tables.relay.queues q = some queue' →
      Simulates database (f row) (g queue'))
    (he : ∀ e, database.tables.relay.recipientQueue q recipient = .error e →
      reference = (.error e, database.tables.relay))
    (ho : ∀ queue', database.tables.relay.recipientQueue q recipient = .ok queue' →
      reference = g queue') :
    Simulates database (access database q.asBytes (recipient.asBytes = ·.recipient) f) reference := by
  simp only [Cofferwire.Relay.recipientQueue] at he ho
  obtain ⟨hq, hq'⟩ | ⟨row, limits, hq, hq', _⟩ := queue_cases hv q.asBytes
  all_goals simp only [hq'] at he ho
  case inl =>
    exact (simulates_self hv (.error .queueNotFound)).of_eq (access_none hq) (he _ rfl)
  case inr =>
    by_cases hr : recipient.asBytes = row.recipient
    case pos =>
      have hn : ¬(⟨row.recipient⟩ ≠ recipient) := by simp [←hr]
      exact (h row _ hq').of_eq (access_some hq (decide_eq_true hr)) (ho _ (if_neg hn))
    case neg =>
      have hn : ⟨row.recipient⟩ ≠ recipient := fun h => hr (congrArg Principal.asBytes h).symm
      exact (simulates_self hv (.error .unauthorized)).of_eq
        (access_denied hq (decide_eq_false hr)) (he _ (if_pos hn))

theorem run_simulates (hv : Valid database) (hn : now.toNat < 2 ^ 63) (hd : InDomain now request)
    (ho : request.operation now = some op) :
    Simulates database (run database now.toNat (requestPrincipal request).asBytes (.of request))
      (Cofferwire.Relay.apply op database.tables.relay) := by
  cases request
  case createQueue create =>
    obtain ⟨limits, hl, h⟩ := Option.bind_eq_some_iff.mp ho
    cases h
    obtain ⟨hm, hb⟩ := DurableRelay.limitsNew_eq_some.mp hl
    have hm' := mt UInt64.toNat_inj.mp create.limits.messages_pos
    have hb' := mt UInt64.toNat_inj.mp create.limits.bytes_pos
    have hm' := Nat.pos_of_ne_zero hm'
    have hb' := Nat.pos_of_ne_zero hb'
    have hb'' : create.limits.maxMessageBytes.toNat ≤ maxMessageBytes := create.limits.bytes_le
    simp only [run, Arguments.of, requestPrincipal]
    rw [if_neg (by omega), hm, hb]
    exact executeCreate_simulates hv (hm ▸ hd) (hb ▸ Nat.lt_of_le_of_lt hb'' (by decide))
  case send send =>
    obtain ⟨ttl, ht, h⟩ := Option.bind_eq_some_iff.mp ho
    cases h
    have ht := ttl_eq ht
    simp only [Cofferwire.Relay.apply, Cofferwire.Relay.send]
    obtain ⟨hq, hq'⟩ | ⟨row, limits, hq, hq', hm, hb⟩ := queue_cases hv send.queueId.asBytes
    case inl =>
      exact (simulates_self hv (.error .queueNotFound)).of_eq (access_none hq) (by rw [hq']; rfl)
    case inr =>
      simp only [hq']
      by_cases hs : send.sender.asBytes = row.sender
      case neg =>
        have hn : ⟨row.sender⟩ ≠ send.sender := fun h => hs (congrArg Principal.asBytes h).symm
        rw [if_pos hn]
        exact (simulates_self hv (.error .unauthorized)).of_eq
          (access_denied hq (decide_eq_false hs)) rfl
      case pos =>
        rw [if_neg (by simp [←hs])]
        refine Simulates.of_eq (pruned_simulates hv hq' hn fun database hv hq => ?_)
          (access_some hq (decide_eq_true hs)) rfl
        exact (executeSend_simulates hv hq hm hb (ht ▸ hd.right)).of_eq (by rw [ht]) rfl
  all_goals
    cases ho
    simp only [Cofferwire.Relay.apply]
  case fetch fetch =>
    refine recipient_simulates hv fetch.queueId fetch.recipient (fun row queue' hq' => ?_)
      (fun e h => by rw [Cofferwire.Relay.fetch, h]; rfl)
      (fun queue' h => by rw [Cofferwire.Relay.fetch, h])
    exact pruned_simulates hv hq' hn fun database hv hq => executeFetch_simulates hv hq
  case ack ack =>
    refine recipient_simulates hv ack.queueId ack.recipient (fun row queue' hq' => ?_)
      (fun e h => by rw [Cofferwire.Relay.acknowledge, h]; rfl)
      (fun queue' h => by rw [Cofferwire.Relay.acknowledge, h])
    exact pruned_simulates hv hq' hn fun database hv hq => executeAck_simulates hv hq ack.messageId
  case deleteQueue delete =>
    exact recipient_simulates hv delete.queueId delete.recipient
      (fun row queue' hq' => executeDelete_simulates hv hq')
      (fun e h => by rw [Cofferwire.Relay.deleteQueue, h]; rfl)
      (fun queue' h => by rw [Cofferwire.Relay.deleteQueue, h])

end Relay
end Cofferwire.Python
