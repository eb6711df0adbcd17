import Cofferwire.Relay.Theorems.Durable
import Mathlib.Tactic.IntervalCases

namespace Cofferwire
namespace Relay

-- What is left of a relay at a given time.
def view (relay : Relay) (t : Timestamp) : Relay where
  queues q := (relay.queues q).map (·.discardExpired t)

theorem Queue.discardExpired_discardExpired {queue : Queue} (h : now ≤ t) :
    (queue.discardExpired now).discardExpired t = queue.discardExpired t := by
  simp only [discardExpired, List.filter_filter, mk.injEq, true_and]
  apply List.filter_congr
  intro message _
  by_cases ht : message.expiresAt > t
  case pos => simp [ht, UInt64.lt_of_le_of_lt h ht]
  case neg => simp [ht]

theorem view_insert : (insert relay q queue).view t = insert (relay.view t) q (queue.discardExpired t) := by
  ext1
  funext p
  by_cases h : p = q
  case pos => simp [view, insert, h]
  case neg => simp [view, insert, h]

theorem view_remove : (remove relay q).view t = remove (relay.view t) q := by
  ext1
  funext p
  by_cases h : p = q
  case pos => simp [view, remove, h]
  case neg => simp [view, remove, h]

theorem queues_of_view_eq (h : view relay t = view relay' t) (q : QueueId) :
    (relay.queues q = none ∧ relay'.queues q = none) ∨
      ∃ queue queue', relay.queues q = some queue ∧ relay'.queues q = some queue' ∧
        queue.config = queue'.config ∧ queue.discardExpired t = queue'.discardExpired t := by
  have h : (relay.queues q).map (·.discardExpired t) = (relay'.queues q).map (·.discardExpired t) :=
    congrFun (congrArg queues h) q
  cases hq : relay.queues q <;> cases hq' : relay'.queues q <;> simp [hq, hq'] at h
  case none.none => exact .inl ⟨rfl, rfl⟩
  case some.some queue queue' =>
    have hc := congrArg Queue.config h
    exact .inr ⟨queue, queue', rfl, rfl, hc, h⟩

-- The part of an operation which concerns an authorized queue without expired messages.
structure Body where
  denied : QueueConfig → Bool
  run    : Queue → Reply × Queue
  error  : (run queue).fst = .error e → (run queue).snd = queue

def Body.apply (body : Body) (q : QueueId) (now : Timestamp) (relay : Relay) : Reply × Relay :=
  match relay.queues q with
  | none       => (.error .queueNotFound, relay)
  | some queue =>
    if body.denied queue.config then
      (.error .unauthorized, relay)
    else
      ((body.run (queue.discardExpired now)).fst,
        relay.insert q (body.run (queue.discardExpired now)).snd)

theorem apply_eq_body (h : now ∈ op.timestamp) : ∃ body : Body, apply op = body.apply op.queueId now := by
  cases op <;> simp only [Operation.timestamp, Option.mem_def, reduceCtorEq, Option.some.injEq] at h
  case send q sender messageId payload now' ttl =>
    subst h
    let run (queue : Queue) := queue.enqueue messageId payload now' ttl
    refine ⟨⟨(·.sender ≠ sender), fun queue => ((run queue).fst.map .send, (run queue).snd), ?_⟩, ?_⟩
    · intro queue e he
      obtain ⟨_, _, _, _, _, hr⟩ | ⟨result, _, hr⟩ := enqueue_cases queue messageId payload now' ttl
      · simp [run, hr, Except.map] at he
      · simp [run, hr]
    · funext relay
      simp only [Relay.apply, send, answer, Body.apply, Operation.queueId, decide_eq_true_eq]
      cases relay.queues q
      · rfl
      · dsimp only
        split <;> rfl
  case fetch q recipient now' =>
    subst h
    refine ⟨⟨(·.recipient ≠ recipient), fun queue => (queue.front.fst.map .fetch, queue.front.snd),
      ?_⟩, ?_⟩
    · intro queue e he
      obtain ⟨_, hr⟩ | ⟨_, _, _, hr⟩ := front_cases queue <;> simp [hr, Except.map] at he
    · funext relay
      simp only [Relay.apply, fetch, recipientQueue, answer, Body.apply, Operation.queueId,
        decide_eq_true_eq]
      cases relay.queues q
      case none => rfl
      case some queue => by_cases hc : queue.config.recipient = recipient <;> simp [hc, Except.map]
  case acknowledge q recipient messageId now' =>
    subst h
    let run (queue : Queue) := queue.popFront messageId
    refine ⟨⟨(·.recipient ≠ recipient), fun queue =>
      ((run queue).fst.map fun _ => .acknowledge, (run queue).snd), ?_⟩, ?_⟩
    · intro queue e he
      obtain ⟨_, hr⟩ | ⟨_, _, _, _, _, hr⟩ := popFront_cases queue messageId
      · simp [run, hr]
      · simp [run, hr, Except.map] at he
    · funext relay
      simp only [Relay.apply, acknowledge, recipientQueue, answer, Body.apply, Operation.queueId,
        decide_eq_true_eq]
      cases relay.queues q
      case none => rfl
      case some queue => by_cases hc : queue.config.recipient = recipient <;> simp [hc, Except.map, run]

-- Two results which cannot be distinguished at the times given by `T`.
structure Result.Agree (T : Timestamp → Prop) (result result' : Reply × Relay) : Prop where
  output : result.fst = result'.fst
  view   : T t → result.snd.view t = result'.snd.view t

theorem Body.apply_agree {body : Body} {T : Timestamp → Prop}
    (h : ∀ t, T t → relay.view t = relay'.view t) (hn : T now) :
    Result.Agree T (body.apply q now relay) (body.apply q now relay') := by
  unfold Body.apply
  obtain ⟨hq, hq'⟩ | ⟨queue, queue', hq, hq', hc, hd⟩ := queues_of_view_eq (h now hn) q
  all_goals simp only [hq, hq']
  · exact ⟨rfl, h _⟩
  · rw [hc, hd]
    split
    · exact ⟨rfl, h _⟩
    · refine ⟨rfl, fun ht => ?_⟩
      rw [view_insert, view_insert, h _ ht]

theorem createQueue_agree {config : QueueConfig} {T : Timestamp → Prop}
    (h : ∀ t, T t → relay.view t = relay'.view t) (hn : T t) :
    Result.Agree T (apply (.createQueue q config) relay) (apply (.createQueue q config) relay') := by
  simp only [apply, createQueue, answer]
  obtain ⟨hq, hq'⟩ | ⟨queue, queue', hq, hq', hc, _⟩ := queues_of_view_eq (h t hn) q
  all_goals simp only [hq, hq']
  · refine ⟨rfl, fun ht => ?_⟩
    rw [view_insert, view_insert, h _ ht]
  · rw [hc]
    split <;> exact ⟨rfl, h _⟩

theorem deleteQueue_agree {T : Timestamp → Prop} (h : ∀ t, T t → relay.view t = relay'.view t)
    (hn : T t) : Result.Agree T (apply (.deleteQueue q recipient) relay)
      (apply (.deleteQueue q recipient) relay') := by
  simp only [apply, deleteQueue, recipientQueue, answer]
  obtain ⟨hq, hq'⟩ | ⟨queue, queue', hq, hq', hc, _⟩ := queues_of_view_eq (h t hn) q
  all_goals simp only [hq, hq']
  · exact ⟨rfl, h _⟩
  · rw [hc]
    by_cases hr : queue'.config.recipient = recipient
    case neg => simpa only [if_pos hr] using ⟨rfl, h _⟩
    case pos =>
      simp only [ne_eq, hr, not_true_eq_false, if_false]
      refine ⟨rfl, fun ht => ?_⟩
      rw [view_remove, view_remove, h _ ht]

theorem apply_agree {T : Timestamp → Prop} (h : ∀ t, T t → relay.view t = relay'.view t)
    (hn : ∀ now ∈ op.timestamp, T now) (ht : T t) :
    Result.Agree T (apply op relay) (apply op relay') := by
  cases ho : op.timestamp
  case some now =>
    have ⟨body, hb⟩ := apply_eq_body ho
    rw [hb]
    exact Body.apply_agree h (hn now ho)
  case none =>
    cases op <;> simp only [Operation.timestamp, reduceCtorEq] at ho
    case createQueue => exact createQueue_agree h ht
    case deleteQueue => exact deleteQueue_agree h ht

-- An operation which fails only has effects which are invisible later on.
theorem apply_error_view (he : (apply op relay).fst = .error e) (ht : ∀ now ∈ op.timestamp, now ≤ t) :
    (apply op relay).snd.view t = relay.view t := by
  cases ho : op.timestamp
  case some now =>
    have ⟨body, hb⟩ := apply_eq_body ho
    simp only [hb, Body.apply] at he ⊢
    cases hq : relay.queues op.queueId
    case none => rfl
    case some queue =>
      simp only [hq] at he ⊢
      split
      case isTrue => rfl
      case isFalse hd =>
        have hr := body.error (by simpa [hd] using he)
        rw [hr, view_insert, Queue.discardExpired_discardExpired (ht now ho)]
        exact insert_self (by simp [view, hq])
  case none =>
    cases op <;> simp only [Operation.timestamp, reduceCtorEq] at ho
    case createQueue q config =>
      simp only [apply, createQueue, answer] at he ⊢
      cases hq : relay.queues q <;> simp only [hq] at he ⊢
      · simp [Except.map] at he
      · split <;> rfl
    case deleteQueue q recipient =>
      simp only [apply, deleteQueue, answer] at he ⊢
      cases hr : relay.recipientQueue q recipient <;> simp only [hr] at he ⊢
      simp [Except.map] at he

-- It does not matter whether the effects of an operation which fails are undone.
theorem undoError_view {T : Timestamp → Prop} (h : ∀ t, T t → relay.view t = relay'.view t)
    (ha : Result.Agree T (apply op relay) (apply op relay')) (ht : T t)
    (hn : ∀ e, (apply op relay').fst = .error e → ∀ now ∈ op.timestamp, now ≤ t) :
    (Machine.undoError relay (apply op relay)).snd.view t = (apply op relay').snd.view t := by
  generalize apply op relay = result at ha
  obtain ⟨reply, _⟩ := result
  cases reply
  case ok => exact ha.view ht
  case error e =>
    have he := ha.output.symm
    rw [apply_error_view he (hn e he)]
    exact h t ht

end Relay

namespace DurableRelay

open Relay (Operation)

-- The times at which the operations that have failed so far cannot be noticed anymore.
def Settled (operations : Nat → Operation) (n : Nat) (t : Timestamp) : Prop :=
  ∀ i < n, ∀ e, Relay.machine.output operations i = .error e →
    ∀ now ∈ (operations i).timestamp, now ≤ t

theorem settled_max : Settled operations n (UInt64.ofNat (2 ^ 64 - 1)) := by
  intro _ _ _ _ now _
  have := now.toNat_lt
  simp [UInt64.le_iff_toNat_le]
  omega

theorem views_agree {operations : Nat → Operation}
    (clock : ∀ k < n, ∀ now ∈ (operations k).timestamp, Settled operations k now) :
    ∀ t, Settled operations n t →
      (Relay.machine.rollback.state operations n).view t = (Relay.machine.state operations n).view t := by
  let R (k : Nat) (s r : Relay) := ∀ t, Settled operations k t → s.view t = r.view t
  refine Machine.simulation (R := R) (fun _ _ => rfl) fun k hk hi t ht => ?_
  have ha := Relay.apply_agree hi (clock k hk) settled_max
  exact Relay.undoError_view hi ha (fun i hi => ht i (by omega)) (ht k (by omega))

theorem durable_refines_reference {operations : Nat → Operation}
    (clock : ∀ i j, i < j → j ≤ n → ∀ e, Relay.machine.output operations i = .error e →
      ∀ ti ∈ (operations i).timestamp, ∀ tj ∈ (operations j).timestamp, ti ≤ tj) :
    machine.output operations n =
      (Relay.machine.output operations n).mapError DurableRelayError.relay := by
  have hc (k) (hk : k ≤ n) : ∀ now ∈ (operations k).timestamp, Settled operations k now :=
    fun now hn i hi e he ti ht => clock i k hi hk e he ti ht now hn
  have hv := views_agree fun k hk => hc k (Nat.le_of_lt hk)
  have ha := Relay.apply_agree hv (hc n le_rfl) settled_max
  rw [output_simulates]
  exact congrArg _ <| Machine.undoError_fst.trans ha.output

section Witness

-- The clock runs backwards until an operation fails. By then, the message has expired.
def backwards : Nat → Operation
  | 0 => .createQueue queueId ⟨sender, recipient, ⟨1, 1, by decide, by decide⟩⟩
  | 1 => .send queueId sender (messageId 0) [] 20 ⟨5, by decide⟩
  | 2 => .fetch queueId recipient 10
  | 3 => .acknowledge queueId recipient (messageId 0) 30
  | _ => .fetch queueId recipient 40
where
  queueId     := ⟨.replicate 32 0⟩
  sender      := ⟨.replicate 32 1⟩
  recipient   := ⟨.replicate 32 2⟩
  messageId b := ⟨.replicate 32 b⟩

-- Only the reference model has discarded the message when the acknowledgement fails.
theorem backwards_refines :
    (∀ i j, i < j → j ≤ 4 → ∀ e, Relay.machine.output backwards i = .error e →
      ∀ ti ∈ (backwards i).timestamp, ∀ tj ∈ (backwards j).timestamp, ti ≤ tj) ∧
    machine.output backwards 3 = .error (.relay .ackMismatch) ∧
    machine.output backwards 4 = .ok (.fetch none) := by
  have clock (i j) (hi : i < j) (hj : j ≤ 4) (e) (h : Relay.machine.output backwards i = .error e) :
      ∀ ti ∈ (backwards i).timestamp, ∀ tj ∈ (backwards j).timestamp, ti ≤ tj := by
    have hi : i < 4 := by omega
    have h0 : Relay.machine.output backwards 0 = .ok (.createQueue .created) := rfl
    have h1 : Relay.machine.output backwards 1 = .ok (.send .accepted) := rfl
    have h2 : ∃ m, Relay.machine.output backwards 2 = .ok (.fetch m) := ⟨_, rfl⟩
    interval_cases i
    case «3» =>
      obtain rfl : j = 4 := by omega
      rintro _ ⟨⟩ _ ⟨⟩
      decide
    all_goals simp_all
  refine ⟨clock, ?_, (durable_refines_reference clock).trans rfl⟩
  refine (durable_refines_reference (n := 3) fun i j hi hj => clock i j hi ?_).trans rfl
  omega

end Witness

end DurableRelay
end Cofferwire
