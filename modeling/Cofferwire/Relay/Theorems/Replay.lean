import Cofferwire.Relay.Replay

namespace Cofferwire
namespace Replay

variable {database : Database σ} {call : Call σ}

def Database.Keyed (database : Database σ) : Prop :=
  ∀ ns, Table.Keyed Row.key (database.replays ns)

def Database.Extends (database database' : Database σ) : Prop :=
  ∀ ns, database.replays ns <+: database'.replays ns

def Database.Fresh (database : Database σ) (call : Call σ) : Prop :=
  ∀ row ∈ database.replays call.ns, row.key ≠ call.key

def Database.record (database : Database σ) (call : Call σ) (response : Bytes) : Database σ where
  store   := database.store
  replays := Function.update database.replays call.ns
    (database.replays call.ns ++ [call.row response])

theorem Database.mem_record : call.row response ∈ (database.record call response).replays call.ns := by
  simp [record]

theorem Database.mem_record_iff :
    row ∈ (database.record call response).replays ns ↔
      row ∈ database.replays ns ∨ (ns = call.ns ∧ row = call.row response) := by
  by_cases hn : ns = call.ns
  case pos => simp [record, hn]
  case neg => simp [record, hn]

theorem Database.Keyed.record (h : database.Keyed) (hf : database.Fresh call) :
    (database.record call response).Keyed := by
  intro ns
  by_cases hn : ns = call.ns
  case pos =>
    subst hn
    have hf : ∀ row' ∈ database.replays call.ns, row'.key ≠ (call.row response).key := hf
    simpa [Database.record] using (h call.ns).append hf
  case neg => simpa [Database.record, hn] using h ns

theorem Database.extends_record : database.Extends (database.record call response) := by
  intro ns
  by_cases hn : ns = call.ns
  case pos => simp [record, hn]
  case neg => simp [record, hn]

theorem insert_eq_some :
    insert database call response = some database' ↔
      database.Fresh call ∧ database' = database.record call response := by
  have hk : (call.row response).key = call.key := rfl
  simp only [insert, Option.bind_eq_bind, Option.bind_eq_some_iff, Option.pure_def,
    Option.some.injEq, Table.insert_eq_some, Table.lookup_eq_none, hk]
  constructor
  · rintro ⟨_, ⟨hf, rfl⟩, rfl⟩
    exact ⟨hf, rfl⟩
  · rintro ⟨hf, rfl⟩
    exact ⟨_, ⟨hf, rfl⟩, rfl⟩

theorem insert_eq_none :
    insert database call response = none ↔ ∃ row ∈ database.replays call.ns, row.key = call.key := by
  rw [←not_iff_not, ←ne_eq, Option.ne_none_iff_exists']
  simp [insert_eq_some, Database.Fresh]

theorem eq_row (hk : row.key = call.key) (hr : row.request = call.request) :
    row = call.row row.response := by
  have ⟨hs, hi⟩ := Prod.mk.inj hk
  cases row
  simp_all [Call.row]

theorem replay_eq_respond (h : replay database call = .ok (.respond response)) :
    call.row response ∈ database.replays call.ns := by
  unfold replay at h
  split at h
  case h_2 => cases h
  case h_1 row hl =>
    split at h <;> cases h
    case isTrue hr => exact eq_row (Table.key_of_lookup hl) hr ▸ Table.mem_of_lookup hl

-- The response to a call and the transaction in which it is recorded. A predicate `P` tells which
-- responses are rejections.
inductive Answered (P : Call σ → Bytes → Prop) (database : Database σ) (call : Call σ) :
    Bytes → Database σ → Prop
  | success (h : call.effect database.store = .ok (value, store)) :
    Answered P database call (call.encode (.ok value)) { database with store }
  | rejection (h : P call response) : Answered P database call response database

theorem Answered.replays_eq (h : Answered P database call response transaction) :
    transaction.replays = database.replays := by
  cases h <;> rfl

theorem Answered.fresh (h : Answered P database call response transaction) :
    transaction.Fresh call ↔ database.Fresh call := by
  simp [Database.Fresh, h.replays_eq]

variable {s s' : State κ σ}

-- Only the connection which holds the lock works on a transaction, and it does so on a copy of the
-- committed state.
inductive Phase.Valid (P : Call σ → Bytes → Prop) (s : State κ σ) (k : κ) : Phase σ → Prop
  | idle : Valid P s k .idle
  | called {call : Call σ} : Valid P s k (.called call)
  | begun {call : Call σ} (lock : s.writer = some k) : Valid P s k (.begun call s.committed)
  | rejected {call : Call σ} {response : Bytes} (rejection : P call response) :
    Valid P s k (.rejected call response)
  | answered {call : Call σ} {response : Bytes} {transaction : Database σ} (lock : s.writer = some k)
    (answer : Answered P s.committed call response transaction) :
    Valid P s k (.answered call response transaction)
  | inserted {call : Call σ} {response : Bytes} {transaction : Database σ} (lock : s.writer = some k)
    (answer : Answered P s.committed call response transaction) (fresh : s.committed.Fresh call) :
    Valid P s k (.inserted call response (transaction.record call response))
  | conflicted {call : Call σ} {row : Row} (mem : row ∈ s.committed.replays call.ns)
    (key : row.key = call.key) : Valid P s k (.conflicted call)

structure State.Valid (P : Call σ → Bytes → Prop) (s : State κ σ) : Prop where
  keyed  : s.committed.Keyed
  phases : ∀ k, (s.phase k).Valid P s k

-- What a step of connection `k` means for the committed state and for the other connections.
inductive Committed (P : Call σ → Bytes → Prop) (database : Database σ) :
    Option (Call σ × Bytes) → Database σ → Prop
  | none : Committed P database none database
  | some {call : Call σ} {response : Bytes} {transaction : Database σ}
    (answer : Answered P database call response transaction) (fresh : database.Fresh call) :
    Committed P database (some (call, response)) (transaction.record call response)

structure Step (P P' : Call σ → Bytes → Prop) (k : κ) (s : State κ σ) (output : Output σ)
    (s' : State κ σ) : Prop where
  committed : Committed P s.committed output.commit s'.committed
  reply     : ∀ call response, output.reply = some (call, .ok (.respond response)) →
    call.row response ∈ s'.committed.replays call.ns
  phase     : (s'.phase k).Valid P' s' k
  others    : ∀ j ≠ k, s'.phase j = s.phase j ∧
    (s.writer = some j → s'.writer = some j ∧ s'.committed = s.committed)

section Steps

variable {P P' : Call σ → Bytes → Prop} {k : κ} {p : Phase σ}

theorem Answered.mono (hP : ∀ call response, P call response → P' call response)
    (h : Answered P database call response transaction) :
    Answered P' database call response transaction := by
  cases h
  case success h   => exact .success h
  case rejection h => exact .rejection (hP _ _ h)

theorem Phase.Valid.frame (h : p.Valid P s k) (hP : ∀ call response, P call response → P' call response)
    (hw : s.writer = some k → s'.writer = some k ∧ s'.committed = s.committed)
    (he : s.committed.Extends s'.committed) : p.Valid P' s' k := by
  cases h
  case idle   => exact .idle
  case called => exact .called
  case begun lock =>
    have ⟨hw, hc⟩ := hw lock
    exact hc ▸ .begun hw
  case rejected rejection => exact .rejected (hP _ _ rejection)
  case answered lock answer =>
    have ⟨hw, hc⟩ := hw lock
    exact .answered hw (hc ▸ answer.mono hP)
  case inserted lock answer fresh =>
    have ⟨hw, hc⟩ := hw lock
    exact .inserted hw (hc ▸ answer.mono hP) (hc ▸ fresh)
  case conflicted mem key => exact .conflicted ((he _).mem mem) key

theorem Step.stay {output : Output σ} (hv : s.Valid P)
    (hP : ∀ call response, P call response → P' call response) (ho : output = {}) : Step P P' k s output s where
  committed := ho ▸ .none
  reply     := by simp [ho]
  phase     := (hv.phases k).frame hP (fun h => ⟨h, rfl⟩) fun _ => List.prefix_rfl
  others    := fun _ _ => ⟨rfl, fun h => ⟨h, rfl⟩⟩

variable [DecidableEq κ]

-- A step which does not commit anything.
theorem Step.silent {output : Output σ} (ho : output.commit = none)
    (hr : ∀ call response, output.reply = some (call, .ok (.respond response)) →
      call.row response ∈ s.committed.replays call.ns)
    (hw : ∀ j ≠ k, s.writer = some j → writer = some j)
    (hp : p.Valid P' ⟨s.committed, writer, Function.update s.phase k p⟩ k) :
    Step P P' k s output ⟨s.committed, writer, Function.update s.phase k p⟩ where
  committed := ho ▸ .none
  reply     := hr
  phase     := by simpa using hp
  others    := fun j hj => ⟨Function.update_of_ne hj .., fun h => ⟨hw j hj h, rfl⟩⟩

theorem unlock_writer (hj : j ≠ k) (h : s.writer = some j) : (s.unlock k).writer = some j := by
  simp [State.unlock, h, hj]

theorem Step.lock (hp : s.writer = none → p.Valid P' ⟨s.committed, some k, Function.update s.phase k p⟩ k) :
    Step P P' k s (s.lock k call p).fst (s.lock k call p).snd := by
  unfold State.lock
  split
  case h_1 => exact .silent rfl (by simp) (fun _ _ h => h) .idle
  case h_2 hn => exact .silent rfl (by simp) (by simp [hn]) (hp hn)

theorem Step.finish (hr : ∀ response, result = .ok (.respond response) →
    call.row response ∈ s.committed.replays call.ns) :
    Step P P' k s (s.finish k call result).fst (s.finish k call result).snd := by
  refine .silent rfl ?_ (fun _ => unlock_writer) .idle
  intro call response h
  cases h
  exact hr response rfl

theorem Step.commit (hl : s.writer = some k)
    (answer : Answered P s.committed call response transaction) (fresh : s.committed.Fresh call)
    (hr : ∀ response', result = .ok (.respond response') → response' = response) :
    Step P P' k s (s.commit k call response (transaction.record call response) result).fst
      (s.commit k call response (transaction.record call response) result).snd where
  committed := .some answer fresh
  reply     := by
    intro call response' h
    cases h
    cases hr response' rfl
    exact Database.mem_record
  phase     := by simpa [State.commit, State.enter] using .idle
  others    := by
    intro j hj
    refine ⟨Function.update_of_ne hj .., fun h => ?_⟩
    cases hl.symm.trans h
    contradiction

variable (hv : s.Valid P) (hP : ∀ call response, P call response → P' call response)
include hv hP

theorem fail_step (error : DurableRelayError) :
    Step P P' k s (s.fail k error).fst (s.fail k error).snd := by
  unfold State.fail
  split
  case h_1 => exact .stay hv hP rfl
  all_goals exact .finish (by simp)

theorem failLate_step (error : DurableRelayError) :
    Step P P' k s (s.failLate k error).fst (s.failLate k error).snd := by
  have hp := hv.phases k
  have hf := fail_step (k := k) hv hP error
  unfold State.failLate
  generalize s.phase k = phase at hp
  cases hp
  case inserted lock answer fresh => exact .commit lock answer fresh (by simp)
  all_goals exact hf

theorem proceed_step
    (hr : ∀ call error, call.effect s.committed.store = .error (.protocol error) →
      P' call (call.encode (.error error))) :
    Step P P' k s (s.proceed k).fst (s.proceed k).snd := by
  have hp := hv.phases k
  unfold State.proceed
  generalize s.phase k = phase at hp
  cases hp
  case idle => exact .stay hv hP rfl
  case called => exact .lock fun _ => .begun rfl
  case rejected rejection => exact .lock fun _ => .answered rfl (.rejection (hP _ _ rejection))
  case inserted lock answer fresh => exact .commit lock answer fresh (by simp)
  case conflicted call _ _ _ => exact .finish fun _ => replay_eq_respond
  case begun call lock =>
    dsimp only
    split
    case h_1 => exact .finish (by simp)
    case h_2 error he => exact .silent rfl (by simp) (fun _ => unlock_writer) (.rejected (hr call error he))
    case h_3 value store he =>
      exact .silent rfl (by simp) (fun _ _ h => h) (.answered lock (.success he))
  case answered call response transaction lock answer =>
    dsimp only
    split
    case h_1 hi =>
      obtain ⟨fresh, rfl⟩ := insert_eq_some.mp hi
      exact .silent rfl (by simp) (fun _ _ h => h)
        (.inserted lock (answer.mono hP) (answer.fresh.mp fresh))
    case h_2 hi =>
      have ⟨row, hm, hk⟩ := insert_eq_none.mp hi
      rw [answer.replays_eq] at hm
      exact .silent rfl (by simp) (fun _ => unlock_writer) (.conflicted hm hk)

theorem step_step (hr : ∀ call error, call.effect s.committed.store = .error (.protocol error) →
    P' call (call.encode (.error error))) (input : κ × Action σ) :
    Step P P' input.fst s (step input s).fst (step input s).snd := by
  obtain ⟨k, action⟩ := input
  cases action
  case call call =>
    simp only [step]
    split
    case h_1 => exact .silent rfl (by simp) (fun _ _ h => h) .called
    case h_2 => exact .stay hv hP rfl
  case proceed => exact proceed_step hv hP hr
  case fail error => exact fail_step hv hP error
  case failLate error => exact failLate_step hv hP error
  case crash => exact .silent rfl nofun (fun _ => unlock_writer) .idle

end Steps

section Committed

variable {P : Call σ → Bytes → Prop} {commit : Option (Call σ × Bytes)} {database' : Database σ}
  (h : Committed P database commit database')
include h

theorem Committed.extends : database.Extends database' := by
  cases h
  case none => exact fun _ => List.prefix_rfl
  case some answer _ =>
    intro ns
    rw [←answer.replays_eq]
    exact Database.extends_record ns

theorem Committed.keyed (hk : database.Keyed) : database'.Keyed := by
  cases h
  case none => exact hk
  case some answer fresh =>
    have hk : Database.Keyed _ := fun ns => answer.replays_eq ▸ hk ns
    exact hk.record (answer.fresh.mpr fresh)

end Committed

theorem Step.valid {P P' : Call σ → Bytes → Prop} {k : κ} {output : Output σ} (hv : s.Valid P)
    (hP : ∀ call response, P call response → P' call response) (hs : Step P P' k s output s') :
    s'.Valid P' where
  keyed    := hs.committed.keyed hv.keyed
  phases j := by
    by_cases hj : j = k
    case pos => exact hj ▸ hs.phase
    case neg =>
      have ⟨hp, hw⟩ := hs.others j hj
      exact hp ▸ (hv.phases j).frame hP hw hs.committed.extends

section Run

variable [DecidableEq κ] (store : σ) (inputs : Nat → κ × Action σ)

-- The database after `n` steps.
def committed (n : Nat) : Database σ :=
  (machine store |>.state inputs n).committed

-- The call was rejected with this response within the first `n` steps.
def Rejected (n : Nat) (call : Call σ) (response : Bytes) : Prop :=
  ∃ m < n, ∃ error,
    call.effect (committed store inputs m).store = .error (.protocol error) ∧
    response = call.encode (.error error)

variable {store inputs}

theorem Rejected.mono (h : n ≤ k) : Rejected store inputs n call response →
    Rejected store inputs k call response
  | ⟨m, hm, hr⟩ => ⟨m, Nat.lt_of_lt_of_le hm h, hr⟩

theorem machine_step (hv : (machine store |>.state inputs n).Valid (Rejected store inputs n)) :
    Step (Rejected store inputs n) (Rejected store inputs (n + 1)) (inputs n).fst
      (machine store |>.state inputs n) (machine store |>.output inputs n)
      (machine store |>.state inputs (n + 1)) :=
  step_step hv (fun _ _ => Rejected.mono (Nat.le_succ n))
    (fun _ error he => ⟨n, Nat.lt_succ_self n, error, he, rfl⟩) (inputs n)

theorem machine_valid : (machine store |>.state inputs n).Valid (Rejected store inputs n) := by
  induction n
  case zero => exact ⟨fun _ => List.nodup_nil, fun _ => .idle⟩
  case succ n hv => exact (machine_step hv).valid hv fun _ _ => Rejected.mono (Nat.le_succ n)

theorem committed_extends (h : n ≤ k) : (committed store inputs n).Extends (committed store inputs k) := by
  induction h
  case refl => exact fun _ => List.prefix_rfl
  case step hi => exact fun ns => (hi ns).trans <| (machine_step machine_valid).committed.extends ns

theorem machine_committed :
    Committed (Rejected store inputs n) (committed store inputs n)
      (machine store |>.output inputs n).commit (committed store inputs (n + 1)) :=
  (machine_step machine_valid).committed

theorem of_commit (h : (machine store |>.output inputs n).commit = some (call, response)) :
    (committed store inputs n).Fresh call ∧ ∃ transaction,
      Answered (Rejected store inputs n) (committed store inputs n) call response transaction ∧
      committed store inputs (n + 1) = transaction.record call response := by
  have hs := h ▸ machine_committed
  generalize committed store inputs (n + 1) = database' at hs
  cases hs
  case some fresh answer => exact ⟨fresh, _, answer, rfl⟩

-- Once a call is committed, its key is not free any more.
theorem commit_key_ne (hl : m < n)
    (hm : (machine store |>.output inputs m).commit = some (call, response))
    (hn : (machine store |>.output inputs n).commit = some (call', response'))
    (hs : call.ns = call'.ns) : call.key ≠ call'.key := by
  have ⟨_, transaction, _, hc⟩ := of_commit hm
  have hr : call.row response ∈ (committed store inputs (m + 1)).replays call.ns :=
    hc ▸ Database.mem_record
  have hr := (committed_extends hl call.ns).mem hr
  exact (of_commit hn).left _ (hs ▸ hr)

theorem exchange_at_most_once (store : σ) (inputs : Nat → κ × Action σ) :
    -- There is at most one record for each key and it never changes.
    (∀ n ns, Table.Keyed Row.key ((committed store inputs n).replays ns)) ∧
    (∀ n k, n ≤ k → ∀ ns,
      (committed store inputs n).replays ns <+: (committed store inputs k).replays ns) ∧
    -- Responses are recorded for the request which they are returned for.
    (∀ n call response,
      (machine store |>.output inputs n).reply = some (call, .ok (.respond response)) →
      call.row response ∈ (committed store inputs (n + 1)).replays call.ns) ∧
    -- A commit consists of a record and either the effect of the call or nothing else.
    (∀ n call response, (machine store |>.output inputs n).commit = some (call, response) →
      (∃ value store',
        call.effect (committed store inputs n).store = .ok (value, store') ∧
        response = call.encode (.ok value) ∧
        committed store inputs (n + 1) =
          Database.record { committed store inputs n with store := store' } call response) ∨
      (∃ m < n, ∃ error,
        call.effect (committed store inputs m).store = .error (.protocol error) ∧
        response = call.encode (.error error) ∧
        committed store inputs (n + 1) = (committed store inputs n).record call response)) ∧
    (∀ n, (machine store |>.output inputs n).commit = none →
      committed store inputs (n + 1) = committed store inputs n) ∧
    -- No key is committed twice.
    (∀ m n call call' response response',
      (machine store |>.output inputs m).commit = some (call, response) →
      (machine store |>.output inputs n).commit = some (call', response') →
      call.ns = call'.ns → call.key = call'.key → m = n) := by
  refine ⟨fun n => machine_valid.keyed, fun n k => committed_extends, fun n => ?_, ?_, ?_, ?_⟩
  · exact (machine_step machine_valid).reply
  · intro n call response h
    have ⟨_, transaction, ha, hc⟩ := of_commit h
    rw [hc]
    cases ha
    case success he => exact .inl ⟨_, _, he, rfl, rfl⟩
    case rejection hr =>
      have ⟨m, hm, error, he, hr⟩ := hr
      exact .inr ⟨m, hm, error, he, hr, rfl⟩
  · intro n h
    have hs := h ▸ machine_committed
    generalize committed store inputs (n + 1) = database' at hs
    cases hs
    rfl
  · intro m n call call' response response' hm hn hs hk
    rcases Nat.lt_trichotomy m n with hl | he | hl
    · exact absurd hk <| commit_key_ne hl hm hn hs
    · exact he
    · exact absurd hk.symm <| commit_key_ne hl hn hm hs.symm

end Run

-- An exchange without interruptions.
def State.complete [DecidableEq κ] (s : State κ σ) (k : κ) : Nat → Output σ × State κ σ
  | 0     => ({}, s)
  | n + 1 =>
    match s.proceed k with
    | ({ commit, reply := some reply }, s') => ({ commit, reply := some reply }, s')
    | (_, s')                               => s'.complete k n

theorem complete_answered [DecidableEq κ] (hw : s.writer = some k)
    (hp : s.phase k = .answered call response transaction) :
    (s.complete k (n + 2)).fst.reply =
      some (call, (exchange.record s.committed call transaction response).fst) ∧
    (s.complete k (n + 2)).snd =
      ⟨(exchange.record s.committed call transaction response).snd, none,
        Function.update s.phase k .idle⟩ := by
  cases hi : insert transaction call response
  all_goals
    simp [State.complete, State.proceed, State.enter, State.unlock, State.finish, State.commit,
      exchange.record, hw, hp, hi]

theorem complete_eq_exchange [DecidableEq κ] (hw : s.writer = none) (hp : s.phase k = .called call) :
    (s.complete k 5).fst.reply = some (call, (exchange s.committed call).fst) ∧
    (s.complete k 5).snd =
      ⟨(exchange s.committed call).snd, none, Function.update s.phase k .idle⟩ := by
  -- The states in which the response to the call is known.
  let answered response transaction : State κ σ :=
    ⟨s.committed, some k, Function.update s.phase k (.answered call response transaction)⟩
  have ha {response transaction n} := complete_answered (s := answered response transaction) (n := n)
    rfl (Function.update_self ..)
  rcases he : call.effect s.committed.store with (error | error) | ⟨value, store⟩
  case error.storage =>
    simp [State.complete, State.proceed, State.lock, State.enter, State.unlock, State.finish, exchange,
      hw, hp, he]
  case error.protocol =>
    have hc : s.complete k 5 = (answered (call.encode (.error error)) s.committed).complete k 2 := by
      simp [State.complete, State.proceed, State.lock, State.enter, State.unlock, hw, hp, he, answered]
    rw [hc]
    simpa [exchange, he, answered] using ha
  case ok =>
    have hc : s.complete k 5 =
        (answered (call.encode (.ok value)) { s.committed with store }).complete k 3 := by
      simp [State.complete, State.proceed, State.lock, State.enter, hw, hp, he, answered]
    rw [hc]
    simpa [exchange, he, answered] using ha

end Replay
end Cofferwire
