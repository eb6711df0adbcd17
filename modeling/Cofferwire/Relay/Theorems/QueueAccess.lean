import Cofferwire.Relay.Theorems.Durable

namespace Cofferwire
namespace DurableRelay

open Relay (QueueConfig)

def queue (tables : QueueTables) (id : QueueId) : Option QueueRow :=
  Table.lookup QueueRow.queueId id.asBytes tables.queues

-- The tables agree on a queue and its messages.
structure QueueTables.AgreeOn (tables tables' : QueueTables) (q : QueueId) : Prop where
  queue : DurableRelay.queue tables' q = DurableRelay.queue tables q
  rows  : tables'.rows q = tables.rows q

-- A transaction on a queue is permitted by a column of its row and leaves all other queues alone.
structure Accessed (tables tables' : QueueTables) (q : QueueId) (column : QueueRow → ByteVec 32)
    (principal : Principal) : Prop where
  permitted : ∃ row, queue tables q = some row ∧ column row = principal.asBytes
  others    : ∀ p, p ≠ q → tables.AgreeOn tables' p

variable {tables tables' : QueueTables} {p q : QueueId}

theorem QueueTables.AgreeOn.refl : tables.AgreeOn tables q :=
  ⟨rfl, rfl⟩

theorem QueueTables.AgreeOn.trans (h : tables.AgreeOn tables' q) (h' : tables'.AgreeOn tables'' q) :
    tables.AgreeOn tables'' q :=
  ⟨h'.queue.trans h.queue, h'.rows.trans h.rows⟩

theorem Accessed.agreeOn_or_permitted (h : Accessed tables tables' p column principal) (q : QueueId) :
    tables.AgreeOn tables' q ∨
      p = q ∧ ∃ row, queue tables q = some row ∧ principal = ⟨column row⟩ := by
  by_cases hq : p = q
  case neg => exact .inl (h.others q (Ne.symm hq))
  case pos =>
    have ⟨row, hf, hc⟩ := h.permitted
    exact .inr ⟨hq, row, hq ▸ hf, congrArg Principal.fromBytes hc.symm⟩

theorem discardExpired_agreeOn (now : Timestamp) (h : p ≠ q) :
    tables.AgreeOn (discardExpired tables q now) p :=
  ⟨rfl, rows_discardExpired_of_ne h⟩

theorem readQueue_eq_ok (h : readQueue tables q = .ok (some config)) :
    ∃ row, queue tables q = some row ∧ row.config = some config := by
  unfold readQueue at h
  split at h
  case h_1 => cases h
  case h_2 row hl =>
    split at h <;> cases h
    case h_1 hc => exact ⟨row, hl, hc⟩

theorem authorizeRecipient_eq_ok (h : authorizeRecipient tables q recipient = .ok u) :
    ∃ row, queue tables q = some row ∧ row.recipient = recipient.asBytes := by
  obtain ⟨config, hr, h⟩ := Except.bind_eq_ok.mp h
  split at h
  case h_1 => cases h
  case h_2 config =>
    split at h
    case isTrue => cases h
    case isFalse hn =>
      obtain rfl := Decidable.not_not.mp hn
      have ⟨row, hl, hc⟩ := readQueue_eq_ok hr
      exact ⟨row, hl, (QueueRow.config_eq_some.mp hc).right.left⟩

theorem createQueueTx_eq_ok (h : createQueueTx tables q config = .ok (outcome, tables')) :
    tables' = tables ∨ queue tables q = none ∧ ∀ p, p ≠ q → tables.AgreeOn tables' p := by
  unfold createQueueTx at h
  split at h
  case h_1 => split at h <;> cases h; exact .inl rfl
  case h_2 hn =>
    obtain ⟨_, hi, h⟩ := Except.bind_eq_ok.mp h
    cases h
    simp only [insertQueue] at hi
    split at hi <;> cases hi
    case h_1 hi =>
      obtain ⟨_, rfl⟩ := Table.insert_eq_some.mp hi
      refine .inr ⟨hn, fun p hp => ⟨?_, rfl⟩⟩
      exact Table.lookup_append_of_ne (asBytes_ne hp).symm

theorem enqueueTx_agreeOn (hp : p ≠ q)
    (h : enqueueTx tables config q messageId payload now ttl = .ok (outcome, tables')) :
    tables.AgreeOn tables' p := by
  unfold enqueueTx at h
  split at h
  case h_1 => split at h <;> cases h; exact .refl
  case h_2 =>
    simp only [Except.ite_error_eq_ok] at h
    obtain ⟨_, _, h⟩ := h
    split at h
    case h_1 => cases h
    case h_2 =>
      obtain ⟨_, hi, h⟩ := Except.bind_eq_ok.mp h
      cases h
      simp only [insertMessage, Except.ite_error_eq_ok] at hi
      obtain ⟨_, hi⟩ := hi
      split at hi <;> cases hi
      case h_1 hi =>
        obtain ⟨_, rfl⟩ := Table.insert_eq_some.mp hi
        refine ⟨rfl, ?_⟩
        simp [QueueTables.rows, (asBytes_ne hp).symm]

theorem sendTx_accessed
    (h : sendTx tables q sender messageId payload now ttl = .ok (outcome, tables')) :
    Accessed tables tables' q QueueRow.sender sender := by
  simp only [sendTx, Except.bind_eq_ok] at h
  obtain ⟨config, hr, h⟩ := h
  split at h
  case h_1 => cases h
  case h_2 config =>
    simp only [Except.ite_error_eq_ok] at h
    obtain ⟨hn, h⟩ := h
    obtain rfl := Decidable.not_not.mp hn
    obtain ⟨row, hl, hc⟩ := readQueue_eq_ok hr
    refine ⟨⟨row, hl, (QueueRow.config_eq_some.mp hc).left⟩, fun p hp => ?_⟩
    exact (discardExpired_agreeOn now hp).trans (enqueueTx_agreeOn hp h)

theorem currentRow_eq_some (hv : tables.Valid) (h : currentRow tables q = some row) :
    ∃ rest, tables.rows q = row :: rest := by
  rw [currentRow_eq hv] at h
  exact List.head?_eq_some_iff.mp h

theorem fetchTx_accessed (hv : tables.Valid)
    (h : fetchTx tables q recipient now = .ok (delivery, tables')) :
    Accessed tables tables' q QueueRow.recipient recipient := by
  simp only [fetchTx, Except.bind_eq_ok] at h
  obtain ⟨_, ha, h⟩ := h
  refine ⟨authorizeRecipient_eq_ok ha, fun p hp => (discardExpired_agreeOn now hp).trans ?_⟩
  have hv : (discardExpired tables q now).Valid := discardExpired_valid hv
  split at h
  case h_1 => cases h; exact .refl
  case h_2 row hr =>
    cases h
    have ⟨rest, hr⟩ := currentRow_eq_some hv hr
    refine ⟨rfl, ?_⟩
    rw [QueueTables.rows, Table.filter_update (by simp)]
    refine Table.update_eq_self fun row' hm => ?_
    simpa using sequence_ne_of_rows hv hr hp hm

theorem acknowledgeTx_accessed (hv : tables.Valid)
    (h : acknowledgeTx tables q recipient messageId now = .ok (u, tables')) :
    Accessed tables tables' q QueueRow.recipient recipient := by
  simp only [acknowledgeTx, Except.bind_eq_ok] at h
  obtain ⟨_, ha, h⟩ := h
  refine ⟨authorizeRecipient_eq_ok ha, fun p hp => (discardExpired_agreeOn now hp).trans ?_⟩
  have hv : (discardExpired tables q now).Valid := discardExpired_valid hv
  split at h
  case h_1 => cases h
  case h_2 row hr =>
    simp only [Except.ite_error_eq_ok] at h
    obtain ⟨_, _, h⟩ := h
    cases h
    have ⟨rest, hr⟩ := currentRow_eq_some hv hr
    refine ⟨rfl, ?_⟩
    rw [QueueTables.rows, List.filter_comm]
    refine List.filter_eq_self.mpr fun row' hm => ?_
    simpa using sequence_ne_of_rows hv hr hp hm

theorem deleteQueueTx_accessed (h : deleteQueueTx tables q recipient = .ok (u, tables')) :
    Accessed tables tables' q QueueRow.recipient recipient := by
  obtain ⟨_, ha, h⟩ := Except.bind_eq_ok.mp h
  cases h
  refine ⟨authorizeRecipient_eq_ok ha, fun p hp => ⟨?_, ?_⟩⟩
  · exact Table.lookup_filter_of_ne (asBytes_ne hp)
  · simp only [QueueTables.rows, List.filter_filter]
    refine List.filter_congr fun row _ => ?_
    have := asBytes_ne hp
    grind

end DurableRelay
end Cofferwire
