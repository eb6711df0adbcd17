import Cofferwire.Relay.Durable
import Cofferwire.Relay.Theorems.History

namespace Cofferwire

namespace Relay

theorem queues_insert_self : (insert relay q queue).queues q = some queue :=
  Function.update_self ..

theorem insert_self (h : relay.queues q = some queue) : insert relay q queue = relay := by
  ext1
  exact Function.update_eq_self_iff.mpr h.symm

theorem insert_insert : insert (insert relay q queue) q queue' = insert relay q queue' := by
  simp [insert, Function.update_idem]

end Relay

namespace DurableRelay

open Relay (QueueConfig Ttl QueuedMessage Operation Outcome)

def MessageRow.toMessage (row : MessageRow) : QueuedMessage where
  id        := ⟨row.messageId⟩
  payload   := row.payload
  expiresAt := fromBeBytes row.expiresAt
  delivered := row.delivered

theorem limitsNew_eq_some {limits : Relay.QueueLimits} :
    Relay.QueueLimits.new m b = some limits ↔
      m = limits.maxMessages ∧ b = limits.maxMessageBytes := by
  obtain ⟨_, _, hm, hb⟩ := limits
  simp only [Relay.QueueLimits.new]
  split <;> try split
  all_goals
    simp
    try
      rintro rfl rfl
      contradiction

theorem QueueRow.config_eq_some {row : QueueRow} {config : QueueConfig} :
    row.config = some config ↔
      row.sender = config.sender.asBytes ∧ row.recipient = config.recipient.asBytes ∧
      fromBeBytes row.maxMessages = config.limits.maxMessages ∧
      fromBeBytes row.maxMessageBytes = config.limits.maxMessageBytes := by
  obtain ⟨⟨_⟩, ⟨_⟩, _⟩ := config
  simp [QueueRow.config, Option.bind_eq_some_iff, limitsNew_eq_some]
  grind

namespace QueueTables

def rows (tables : QueueTables) (q : QueueId) : List MessageRow :=
  tables.messages.filter (·.queueId = q.asBytes)

-- The state of the reference model which the tables represent.
def relay (tables : QueueTables) : Relay where
  queues q := do
    let row ← Table.lookup QueueRow.queueId q.asBytes tables.queues
    let config ← row.config
    return ⟨config, (tables.rows q).map MessageRow.toMessage⟩

structure Valid (tables : QueueTables) : Prop where
  configs : ∀ row ∈ tables.queues, row.config.isSome
  ordered : tables.messages.Pairwise (·.sequence < ·.sequence)
  owned   : ∀ row ∈ tables.messages,
    (Table.lookup QueueRow.queueId row.queueId tables.queues).isSome

theorem relay_queues_eq_some {tables : QueueTables} :
    tables.relay.queues q = some queue ↔
      ∃ row, Table.lookup QueueRow.queueId q.asBytes tables.queues = some row ∧
        row.config = some queue.config ∧
        queue.messages = (tables.rows q).map MessageRow.toMessage := by
  obtain ⟨config, messages⟩ := queue
  simp only [relay, Option.bind_eq_bind, Option.bind_eq_some_iff, Option.pure_def,
    Option.some.injEq, Relay.Queue.mk.injEq]
  grind

theorem relay_queues_eq_none {tables : QueueTables} (hv : tables.Valid) :
    tables.relay.queues q = none ↔
      Table.lookup QueueRow.queueId q.asBytes tables.queues = none := by
  cases h : Table.lookup QueueRow.queueId q.asBytes tables.queues
  case none => simp [relay, h]
  case some row =>
    obtain ⟨config, hc⟩ := Option.isSome_iff_exists.mp <| hv.configs row (Table.mem_of_lookup h)
    simp [relay, h, hc]

-- Only the messages of queue `q` have changed.
theorem relay_eq_insert {tables : QueueTables} (messages : List MessageRow)
    (h : tables.relay.queues q = some queue)
    (hm : ∀ p, p ≠ q → messages.filter (·.queueId = p.asBytes) = tables.rows p) :
    (mk tables.queues messages).relay = tables.relay.insert q ⟨queue.config,
      (messages.filter (·.queueId = q.asBytes)).map MessageRow.toMessage⟩ := by
  ext1
  funext p
  by_cases hp : p = q
  case pos =>
    subst hp
    have ⟨row, hl, hc, _⟩ := relay_queues_eq_some.mp h
    rw [Relay.queues_insert_self]
    exact relay_queues_eq_some.mpr ⟨row, hl, hc, rfl⟩
  case neg =>
    rw [Relay.insert_queues_of_ne (Ne.symm hp)]
    simp only [relay, rows, hm p hp]

end QueueTables

theorem readQueue_eq (hv : tables.Valid) :
    readQueue tables q = .ok ((tables.relay.queues q).map Relay.Queue.config) := by
  unfold readQueue
  split
  case h_1 h => simp [QueueTables.relay_queues_eq_none hv |>.mpr h]
  case h_2 row h =>
    have ⟨config, hc⟩ := Option.isSome_iff_exists.mp <| hv.configs row (Table.mem_of_lookup h)
    simp [QueueTables.relay, h, hc]

-- A transaction on tables does what the reference model does, or is rejected like there.
inductive Refines : Except DurableRelayError (α × QueueTables) → Except RelayError α × Relay → Prop
  | ok {a : α} {relay : Relay} {tables : QueueTables} (hv : tables.Valid)
    (hr : tables.relay = relay) : Refines (.ok (a, tables)) (.ok a, relay)
  | error : Refines (.error (.relay e)) (.error e, relay)

theorem Refines.of_ok (h : Refines (.ok (a, tables)) result) :
    tables.Valid ∧ result = (.ok a, tables.relay) := by
  cases h
  case ok hv hr => exact ⟨hv, by rw [hr]⟩

theorem Refines.of_error (h : Refines (.error e) result) : ∃ e', e = .relay e' ∧ result.fst = .error e' := by
  cases h
  exact ⟨_, rfl, rfl⟩

variable {tables : QueueTables} {q : QueueId} {queue : Relay.Queue}

section DiscardExpired

theorem rows_discardExpired_self :
    (discardExpired tables q now).rows q =
      (tables.rows q).filter (fromBeBytes ·.expiresAt > now) := by
  simp only [QueueTables.rows, discardExpired, List.filter_filter, le_iff_fromBeBytes_le,
    fromBeBytes_toBeBytes]
  apply List.filter_congr
  intro row _
  by_cases h : row.queueId = q.asBytes <;> simp [h]

theorem asBytes_ne {p q : QueueId} (h : p ≠ q) : p.asBytes ≠ q.asBytes :=
  mt (by cases p; cases q; simp) h

theorem rows_discardExpired_of_ne (h : p ≠ q) :
    (discardExpired tables q now).rows p = tables.rows p := by
  simp only [QueueTables.rows, discardExpired, List.filter_filter]
  apply List.filter_congr
  intro row _
  have := asBytes_ne h
  grind

theorem discardExpired_valid (h : tables.Valid) : (discardExpired tables q now).Valid where
  configs := h.configs
  ordered := h.ordered.filter _
  owned   := fun row hr => h.owned row (List.mem_of_mem_filter hr)

theorem relay_discardExpired (h : tables.relay.queues q = some queue) (now : Timestamp) :
    (discardExpired tables q now).relay = tables.relay.insert q (queue.discardExpired now) := by
  have ⟨_, _, _, hm⟩ := QueueTables.relay_queues_eq_some.mp h
  refine (QueueTables.relay_eq_insert _ h fun _ => rows_discardExpired_of_ne).trans ?_
  have hr : (discardExpired tables q now).messages.filter _ = _ := rows_discardExpired_self
  rw [hr, Relay.Queue.discardExpired, hm, List.filter_map]
  rfl

end DiscardExpired

theorem find?_rows {messageId : MessageId} :
    ((tables.rows q).map MessageRow.toMessage).find? (·.id = messageId) =
      (tables.messages.find? fun row =>
        row.queueId = q.asBytes ∧ row.messageId = messageId.asBytes).map MessageRow.toMessage := by
  simp only [QueueTables.rows, List.find?_map, List.find?_filter]
  congr 2
  funext row
  cases messageId
  simp [MessageRow.toMessage]

theorem insertMessage_eq_ok
    (hq : Table.lookup QueueRow.queueId queueId tables.queues = some row)
    (hm : tables.messages.find? (fun row =>
      row.queueId = queueId ∧ row.messageId = messageId) = none) :
    insertMessage tables ⟨rowid, queueId, messageId, payload, expiresAt, delivered⟩ =
      .ok ⟨tables.queues, tables.messages ++
        [⟨rowid, queueId, messageId, payload, expiresAt, delivered⟩]⟩ := by
  have hl : Table.lookup (fun row : MessageRow => (row.queueId, row.messageId))
      (queueId, messageId) tables.messages = none := by
    simpa [Table.lookup] using hm
  simp [insertMessage, hq, Table.insert, hl]

-- A message is appended to its queue.
theorem append_message (row : MessageRow) (hv : tables.Valid) (hq : tables.relay.queues q = some queue)
    (hk : row.queueId = q.asBytes) (hs : ∀ row' ∈ tables.messages, row'.sequence < row.sequence) :
    (QueueTables.mk tables.queues (tables.messages ++ [row])).Valid ∧
    (QueueTables.mk tables.queues (tables.messages ++ [row])).relay =
      tables.relay.insert q ⟨queue.config, queue.messages ++ [row.toMessage]⟩ := by
  have ⟨_, hl, _, hm⟩ := QueueTables.relay_queues_eq_some.mp hq
  refine ⟨⟨hv.configs, ?_, ?_⟩, ?_⟩
  · refine List.pairwise_append.mpr ⟨hv.ordered, List.pairwise_singleton .., ?_⟩
    intro row' hr _ hr'
    cases List.mem_singleton.mp hr'
    exact hs row' hr
  · intro row' hr
    rcases List.mem_append.mp hr with hr | hr
    · exact hv.owned row' hr
    · cases List.mem_singleton.mp hr
      simp [hk, hl]
  · refine (QueueTables.relay_eq_insert _ hq fun p hp => ?_).trans ?_
    · have := asBytes_ne hp
      simp [QueueTables.rows, List.filter_append, hk, this.symm]
    · simp [List.filter_append, hk, hm, QueueTables.rows]

theorem enqueueTx_refines (hv : tables.Valid) (hq : tables.relay.queues q = some queue)
    (hc : queue.config = config) :
    Refines (enqueueTx tables config q messageId payload now ttl)
      ((queue.enqueue messageId payload now ttl).fst,
        tables.relay.insert q (queue.enqueue messageId payload now ttl).snd) := by
  have ⟨row, hl, _, hm⟩ := QueueTables.relay_queues_eq_some.mp hq
  have hs := Relay.insert_self hq
  subst hc
  simp only [enqueueTx, Relay.Queue.enqueue, hm, find?_rows]
  cases hf : tables.messages.find? fun row =>
    row.queueId = q.asBytes ∧ row.messageId = messageId.asBytes
  case some existing =>
    simp only [Option.map_some, MessageRow.toMessage]
    split
    · simpa [hs] using .ok hv rfl
    · exact .error
  case none =>
    simp only [Option.map_none, List.length_map, QueueTables.rows, List.countP_eq_length_filter]
    split
    case isTrue => exact .error
    split
    case isTrue => exact .error
    cases checkedAdd now ttl.asSecs
    case none => exact .error
    case some expiresAt =>
      dsimp only
      rw [insertMessage_eq_ok hl hf]
      obtain ⟨hv', hr⟩ := append_message
        ⟨_, q.asBytes, messageId.asBytes, payload, toBeBytes expiresAt, false⟩ hv hq rfl
        fun row hr => Table.lt_nextRowid hr
      refine .ok hv' (hr.trans ?_)
      simp [hm, QueueTables.rows, MessageRow.toMessage]

theorem sendTx_refines (hv : tables.Valid) :
    Refines (sendTx tables q sender messageId payload now ttl)
      (tables.relay.send q sender messageId payload now ttl) := by
  simp only [sendTx, readQueue_eq hv, Relay.send]
  cases hq : tables.relay.queues q
  case none => exact .error
  case some queue =>
    simp only [Option.map_some, bind, Except.bind]
    split
    case isTrue => exact .error
    case isFalse =>
      have hr := relay_discardExpired hq now
      have hq := hr ▸ Relay.queues_insert_self
      have hc : (queue.discardExpired now).config = queue.config := rfl
      simpa only [hr, Relay.insert_insert] using enqueueTx_refines (discardExpired_valid hv) hq hc

theorem authorizeRecipient_eq (hv : tables.Valid) :
    authorizeRecipient tables q recipient =
      ((tables.relay.recipientQueue q recipient).mapError DurableRelayError.relay).map fun _ => () := by
  simp only [authorizeRecipient, readQueue_eq hv, Relay.recipientQueue]
  cases tables.relay.queues q
  case none => rfl
  case some queue =>
    simp only [Option.map_some, bind, Except.bind]
    split <;> rfl

theorem currentRow_eq (hv : tables.Valid) : currentRow tables q = (tables.rows q).head? :=
  Table.first_eq_head? (hv.ordered.filter _)

-- The operations which only a queue's recipient may perform.
theorem authorized_refines {tx : Except DurableRelayError (α × QueueTables)}
    {f : Relay.Queue → Except RelayError α × Relay} (hv : tables.Valid)
    (h : ∀ queue, tables.relay.queues q = some queue → Refines tx (f queue)) :
    Refines (do authorizeRecipient tables q recipient; tx)
      (match tables.relay.recipientQueue q recipient with
        | .error e  => (.error e, tables.relay)
        | .ok queue => f queue) := by
  rw [authorizeRecipient_eq hv]
  cases hr : tables.relay.recipientQueue q recipient
  case error => exact .error
  case ok queue => exact h queue (Relay.recipientQueue_eq_ok.mp hr).left

theorem deleteQueueTx_refines (hv : tables.Valid) :
    Refines (deleteQueueTx tables q recipient) (tables.relay.deleteQueue q recipient) := by
  refine authorized_refines hv fun queue hq => .ok ⟨?_, ?_, ?_⟩ ?_
  · exact fun row hr => hv.configs row (List.mem_of_mem_filter hr)
  · exact hv.ordered.filter _
  · intro row hr
    have ⟨hr, hn⟩ := List.mem_filter.mp hr
    rw [Table.lookup_filter_of_ne (by simpa using hn)]
    exact hv.owned row hr
  · ext1
    funext p
    by_cases hp : p = q
    case pos =>
      subst hp
      simp only [QueueTables.relay, Table.lookup_filter_self, Relay.remove, Function.update_self]
      rfl
    case neg =>
      have hn := asBytes_ne hp
      rw [Relay.remove_queues_of_ne (Ne.symm hp)]
      have hf : (tables.messages.filter (·.queueId ≠ q.asBytes)).filter (·.queueId = p.asBytes) =
          tables.messages.filter (·.queueId = p.asBytes) := by
        rw [List.filter_filter]
        apply List.filter_congr
        grind
      simp only [QueueTables.relay, Table.lookup_filter_of_ne hn, QueueTables.rows, hf]

theorem insertQueue_refines {row : QueueRow} (hv : tables.Valid)
    (hl : Table.lookup QueueRow.queueId q.asBytes tables.queues = none)
    (hk : row.queueId = q.asBytes) (hc : row.config = some config) :
    Refines (do let tables ← insertQueue tables row; return (CreateQueueOutcome.created, tables))
      (.ok .created, tables.relay.insert q ⟨config, []⟩) := by
  have hn (message) (hm : message ∈ tables.messages) : row.queueId ≠ message.queueId := by
    intro h
    have := hv.owned message hm
    simp [←h, hk, hl] at this
  simp only [insertQueue, Table.insert, hk, hl]
  refine .ok ⟨?_, hv.ordered, ?_⟩ ?_
  · intro row' hr
    rcases List.mem_append.mp hr with hr | hr
    · exact hv.configs row' hr
    · cases List.mem_singleton.mp hr
      exact Option.isSome_iff_exists.mpr ⟨config, hc⟩
  · intro message hm
    rw [Table.lookup_append_of_ne (hn message hm)]
    exact hv.owned message hm
  · ext1
    funext p
    by_cases hp : p = q
    case pos =>
      subst hp
      rw [Relay.queues_insert_self]
      refine QueueTables.relay_queues_eq_some.mpr ⟨row, Table.lookup_append_self hl hk, hc, ?_⟩
      simpa [QueueTables.rows, ←hk] using fun m hm => (hn m hm).symm
    case neg =>
      rw [Relay.insert_queues_of_ne (Ne.symm hp)]
      have hr : row.queueId ≠ p.asBytes := hk ▸ (asBytes_ne hp).symm
      simp only [QueueTables.relay, Table.lookup_append_of_ne hr]
      rfl

theorem createQueueTx_refines (hv : tables.Valid) :
    Refines (createQueueTx tables q config) (tables.relay.createQueue q config) := by
  simp only [createQueueTx, ←QueueRow.config_eq_some, Relay.createQueue]
  cases hl : Table.lookup QueueRow.queueId q.asBytes tables.queues
  case some row =>
    obtain ⟨c, hc⟩ := Option.isSome_iff_exists.mp <| hv.configs row (Table.mem_of_lookup hl)
    have hq : tables.relay.queues q = some ⟨c, _⟩ :=
      QueueTables.relay_queues_eq_some.mpr ⟨row, hl, hc, rfl⟩
    simp only [hq, hc, Option.some.injEq]
    split
    · exact .ok hv rfl
    · exact .error
  case none =>
    rw [QueueTables.relay_queues_eq_none hv |>.mpr hl]
    refine insertQueue_refines hv hl ?_ (QueueRow.config_eq_some.mpr ?_) <;> simp

theorem queueId_of_rows (h : row ∈ tables.rows q) : row.queueId = q.asBytes := by
  simpa using (List.mem_filter.mp h).right

section Current

variable (hv : tables.Valid) (hr : tables.rows q = row :: rest)
include hv hr

theorem sequence_ne_of_rest {row' : MessageRow} (hm : row' ∈ rest) :
    row'.sequence ≠ row.sequence := by
  have ho := hv.ordered.filter (·.queueId = q.asBytes)
  rw [show tables.messages.filter _ = _ from hr] at ho
  exact Nat.ne_of_gt <| List.rel_of_pairwise_cons ho hm

theorem sequence_ne_of_rows (hp : p ≠ q) {row' : MessageRow} (hm : row' ∈ tables.rows p) :
    row'.sequence ≠ row.sequence := by
  have hr : row ∈ tables.rows q := by simp [hr]
  intro h
  have he := Table.eq_of_rowid_eq hv.ordered (List.mem_of_mem_filter hm) (List.mem_of_mem_filter hr) h
  exact asBytes_ne hp <| (queueId_of_rows hm).symm.trans (he ▸ queueId_of_rows hr)

end Current

theorem frontTx_refines (hv : tables.Valid) (hq : tables.relay.queues q = some queue) :
    Refines
      (match currentRow tables q with
      | none     => Except.ok (none, tables)
      | some row =>
        .ok (some ⟨⟨row.messageId⟩, row.payload, fromBeBytes row.expiresAt⟩,
          { tables with messages :=
            Table.update (·.sequence = row.sequence) ({ · with delivered := true }) tables.messages }))
      (queue.front.fst, tables.relay.insert q queue.front.snd) := by
  have ⟨_, _, _, hm⟩ := QueueTables.relay_queues_eq_some.mp hq
  rw [currentRow_eq hv]
  cases hr : tables.rows q
  case nil =>
    have hf : queue.front = (.ok none, queue) := by simp [Relay.Queue.front, hm, hr]
    rw [hf, Relay.insert_self hq]
    exact .ok hv rfl
  case cons row rest =>
    have hf : queue.front = (.ok row.toMessage.toDelivery, ⟨queue.config,
        { row.toMessage with delivered := true } :: (rest.map MessageRow.toMessage)⟩) := by
      simp [Relay.Queue.front, hm, hr]
    rw [hf]
    refine .ok ⟨hv.configs, Table.pairwise_update (fun _ => rfl) hv.ordered, ?_⟩ ?_
    · intro row' hr'
      obtain ⟨row', hm, rfl⟩ := Table.mem_update.mp hr'
      have := hv.owned row' hm
      split <;> exact this
    · refine (QueueTables.relay_eq_insert _ hq fun p hp => ?_).trans ?_
      · rw [Table.filter_update (by simp)]
        refine Table.update_eq_self fun row' hm => ?_
        simpa using sequence_ne_of_rows hv hr hp hm
      · rw [Table.filter_update (by simp), show tables.messages.filter _ = _ from hr,
          Table.update_cons, Table.update_eq_self]
        · simp [MessageRow.toMessage]
        · simpa using fun row' => sequence_ne_of_rest hv hr

theorem fetchTx_refines (hv : tables.Valid) :
    Refines (fetchTx tables q recipient now) (tables.relay.fetch q recipient now) := by
  refine authorized_refines hv fun queue hq => ?_
  have hr := relay_discardExpired hq now
  have := frontTx_refines (discardExpired_valid hv) (hr ▸ Relay.queues_insert_self)
  rw [hr, Relay.insert_insert] at this
  exact this

theorem popFrontTx_refines (hv : tables.Valid) (hq : tables.relay.queues q = some queue)
    (messageId : MessageId) :
    Refines
      (match currentRow tables q with
      | none     => .error (.relay .ackMismatch)
      | some row =>
        if row.messageId ≠ messageId.asBytes then
          .error (.relay .ackMismatch)
        else if ¬row.delivered then
          .error (.relay .notDelivered)
        else
          .ok ((), { tables with messages := tables.messages.filter (·.sequence ≠ row.sequence) }))
      ((queue.popFront messageId).fst, tables.relay.insert q (queue.popFront messageId).snd) := by
  have ⟨_, _, _, hm⟩ := QueueTables.relay_queues_eq_some.mp hq
  rw [currentRow_eq hv]
  simp only [Relay.Queue.popFront, hm]
  cases hr : tables.rows q
  case nil => exact .error
  case cons row rest =>
    have hi : row.toMessage.id ≠ messageId ↔ row.messageId ≠ messageId.asBytes := by
      cases messageId
      simp [MessageRow.toMessage]
    have hd : row.toMessage.delivered = row.delivered := rfl
    simp only [List.head?_cons, List.map_cons, hi, hd]
    split
    case isTrue => exact .error
    split
    case isTrue => exact .error
    case isFalse =>
      refine .ok ⟨hv.configs, hv.ordered.filter _, ?_⟩ ?_
      · exact fun row' hm => hv.owned row' (List.mem_of_mem_filter hm)
      · refine (QueueTables.relay_eq_insert _ hq fun p hp => ?_).trans ?_
        · rw [List.filter_comm]
          refine List.filter_eq_self.mpr fun row' hm => ?_
          simpa using sequence_ne_of_rows hv hr hp hm
        · rw [List.filter_comm, show tables.messages.filter _ = _ from hr,
            List.filter_cons_of_neg (by simp), List.filter_eq_self.mpr]
          simpa using fun row' => sequence_ne_of_rest hv hr

theorem acknowledgeTx_refines (hv : tables.Valid) :
    Refines (acknowledgeTx tables q recipient messageId now)
      (tables.relay.acknowledge q recipient messageId now) := by
  refine authorized_refines hv fun queue hq => ?_
  have hr := relay_discardExpired hq now
  have := popFrontTx_refines (discardExpired_valid hv) (hr ▸ Relay.queues_insert_self) messageId
  rw [hr, Relay.insert_insert] at this
  exact this

-- An operation on tables is one of the reference model which leaves no trace if it fails.
structure Simulates (result : Except DurableRelayError Outcome × QueueTables)
    (reference : Relay.Reply × Relay) : Prop where
  output : result.fst = reference.fst.mapError .relay
  valid  : result.snd.Valid
  relay  : result.snd.relay = reference.snd

theorem transact_simulates {outcome : α → Outcome}
    {tx : QueueTables → Except DurableRelayError (α × QueueTables)} (hv : tables.Valid)
    (h : Refines (tx tables) result) :
    Simulates (transact outcome tx tables)
      (Machine.undoError tables.relay (Relay.answer outcome result)) := by
  unfold transact
  generalize tx tables = committed at h
  cases h
  case ok hv' hr => exact ⟨rfl, hv', hr⟩
  case error     => exact ⟨rfl, hv, rfl⟩

theorem apply_simulates (hv : tables.Valid) (op : Operation) :
    Simulates (apply op tables) (Relay.machine.rollback.step op tables.relay) := by
  cases op
  all_goals
    simp only [apply, Machine.rollback, Relay.machine, Relay.apply]
    refine transact_simulates hv ?_
  case createQueue => exact createQueueTx_refines hv
  case send        => exact sendTx_refines hv
  case fetch       => exact fetchTx_refines hv
  case acknowledge => exact acknowledgeTx_refines hv
  case deleteQueue => exact deleteQueueTx_refines hv

theorem QueueTables.empty_valid : QueueTables.empty.Valid where
  configs := by simp [QueueTables.empty]
  ordered := .nil
  owned   := by simp [QueueTables.empty]

theorem state_simulates {operations : Nat → Operation} :
    (machine.state operations n).Valid ∧
      (machine.state operations n).relay = Relay.machine.rollback.state operations n := by
  let R (_ : Nat) (tables : QueueTables) (relay : Relay) := tables.Valid ∧ tables.relay = relay
  refine Machine.simulation (R := R) ⟨QueueTables.empty_valid, rfl⟩ ?_
  intro k _ ⟨hv, hr⟩
  have hs := apply_simulates hv (operations k)
  exact ⟨hs.valid, hs.relay.trans <| by rw [hr]; rfl⟩

theorem output_simulates {operations : Nat → Operation} :
    machine.output operations n =
      (Relay.machine.rollback.output operations n).mapError DurableRelayError.relay := by
  have ⟨hv, hr⟩ : _ ∧ _ = Relay.machine.rollback.state operations n := state_simulates
  rw [Machine.output, Machine.output, ←hr]
  exact apply_simulates hv _ |>.output

end DurableRelay
end Cofferwire
