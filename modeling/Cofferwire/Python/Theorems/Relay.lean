import Cofferwire.Python.Relay
import Cofferwire.Python.Theorems.Response
import Cofferwire.Python.Theorems.Stack
import Cofferwire.Toy

namespace Cofferwire.Python
namespace Relay

theorem integer_new (h : n < 2 ^ 63) : Integer.new n = .ok ⟨n, h⟩ := by
  rw [Integer.new, dif_pos h]

theorem integer_new_overflow (h : 2 ^ 63 ≤ n) : Integer.new n = .error .overflowError := by
  rw [Integer.new, dif_neg (Nat.not_lt.mpr h)]

-- The messages of a queue which have expired are removed.
def pruned (database : Database) (q : ByteVec 32) (now : Nat) : Database :=
  { database with
    messages := database.messages.filter fun row => ¬(row.queue = q ∧ row.expires.value ≤ now) }

theorem prune_eq (h : now < 2 ^ 63) : prune database q now = .ok (pruned database q now) := by
  simp only [prune, integer_new h, Except.ok_bind]
  rfl

theorem prune_overflow (h : 2 ^ 63 ≤ now) : prune database q now = .error .overflowError := by
  simp only [prune, integer_new_overflow h]
  rfl

-- The execution of a command on an existing queue.
def access (database : Database) (q : ByteVec 32) (permitted : QueueRow → Bool)
    (run : QueueRow → Except Error (Answer × Database)) : Except Error (Answer × Database) :=
  match queue database q with
  | none        => .ok ((Code.queueNotFound, []), database)
  | some config => if permitted config then run config else .ok ((Code.unauthorized, []), database)

-- The execution of a request in terms of its arguments.
def run (database : Database) (now : Nat) (principal : ByteVec 32) :
    Arguments → Except Error (Answer × Database)
  | .createQueue q _ recipient maxMessages maxBytes =>
    if maxMessages < 1 ∨ maxBytes < 1 ∨ maxBytes > maxMessageBytes then
      .ok ((Code.limitOutOfRange, []), database)
    else
      executeCreate database (queue database q) q principal recipient maxMessages maxBytes
  | .send q _ message payload ttl _ => access database q (principal = ·.sender) fun config => do
    executeSend (← prune database q now) config q message payload ttl now
  | .fetch q _ => access database q (principal = ·.recipient) fun _ => do
    return executeFetch (← prune database q now) q
  | .ack q _ message => access database q (principal = ·.recipient) fun _ => do
    return executeAck (← prune database q now) q message
  | .deleteQueue q _ => access database q (principal = ·.recipient) fun _ =>
    return executeDelete database q

theorem execute_eq {request : RequestFrame} {arguments : Arguments}
    (hc : request.command = arguments.code) (hb : request.body = arguments.values) :
    execute database request now principal = run database now principal arguments := by
  have h₀ {q rest} : idAt (.id q :: rest) 0 = .ok q := idAt_eq_ok.mpr rfl
  have h₂ {q v w rest} : idAt (v :: w :: .id q :: rest) 2 = .ok q := idAt_eq_ok.mpr rfl
  have h₃ {t u v w n} : intAt [t, u, v, .int n, w] 3 = .ok n := rfl
  have h₄ {t u v w n} : intAt [t, u, v, w, .int n] 4 = .ok n := rfl
  have hp {t u v w bs} : bytesAt [t, u, v, .bytes bs, w] 3 = .ok bs := rfl
  have hfs : fetch ≠ send := by decide
  have has : ack ≠ send := by decide
  have haf : ack ≠ fetch := by decide
  have hds : deleteQueue ≠ send := by decide
  have hdf : deleteQueue ≠ fetch := by decide
  have hda : deleteQueue ≠ ack := by decide
  cases arguments <;> simp only [execute, hc, hb, Arguments.code, Arguments.values, h₀, Except.ok_bind]
  case createQueue q s r m b =>
    simp only [if_true, h₂, h₃, h₄, Except.ok_bind]
    rfl
  all_goals
    rw [if_neg (by decide)]
    simp only [run, access]
    cases queue database _
    case none => rfl
  case send q s m payload ttl _ config =>
    simp only [executeOn, h₂, hp, h₄, Except.ok_bind, if_true, ne_eq, ite_not, decide_eq_true_eq]
    rfl
  case fetch config =>
    simp only [executeOn, ne_eq, ite_not, decide_eq_true_eq, hfs, if_true, if_false]
    rfl
  case ack config =>
    simp only [executeOn, h₂, Except.ok_bind, ne_eq, ite_not, decide_eq_true_eq, has, haf, if_true,
      if_false]
    rfl
  case deleteQueue config =>
    simp only [executeOn, ne_eq, ite_not, decide_eq_true_eq, hds, hdf, hda, if_true, if_false]
    rfl

-- A number does not fit an integer of the database: the limit on messages of a new queue, the time of
-- a command which removes expired messages, or the time at which a new message expires.
def Overflows (database : Database) (now : Nat) (principal : ByteVec 32) : Arguments → Prop
  | .createQueue q _ _ maxMessages maxBytes =>
    queue database q = none ∧ 1 ≤ maxBytes ∧ maxBytes ≤ maxMessageBytes ∧ 2 ^ 63 ≤ maxMessages
  | .send q _ message payload ttl _ =>
    ∃ config, queue database q = some config ∧ principal = config.sender ∧
      (2 ^ 63 ≤ now ∨
        Table.lookup MessageRow.key (q, message) (pruned database q now).messages = none ∧
        payload.length ≤ config.maxBytes.value ∧
        (pruned database q now).messages.countP (·.queue = q) < config.maxMessages.value ∧
        1 ≤ ttl ∧ 2 ^ 63 ≤ now + ttl ∧ now + ttl < 2 ^ 64)
  | .fetch q _ | .ack q _ _ =>
    ∃ config, queue database q = some config ∧ principal = config.recipient ∧ 2 ^ 63 ≤ now
  | .deleteQueue .. => False

-- The payloads of all messages can be sent.
def Bounded (database : Database) : Prop :=
  ∀ row ∈ database.messages, row.payload.length ≤ maxMessageBytes

-- A result which amounts to a response.
inductive Replies (database : Database) (command : Command) : Except Error (Answer × Database) → Prop
  | intro (response : Response) (hc : response.command = some command) (hb : Bounded database')
    (hr : database'.replays = database.replays) :
    Replies database command (.ok ((response.status.asU8.toNat, responseValues response), database'))

-- A result is an overflow under a condition and otherwise amounts to a response.
def RepliesUnless (database : Database) (command : Command) (p : Prop)
    (result : Except Error (Answer × Database)) : Prop :=
  (p ∧ result = .error .overflowError) ∨ (¬p ∧ Replies database command result)

variable {database : Database} {command : Command}

theorem RepliesUnless.congr (h : RepliesUnless database command p result) (hp : p ↔ p') :
    RepliesUnless database command p' result := by
  rwa [RepliesUnless, ←hp]

theorem replies_error (hb : Bounded database) (status : Status) (hs : status ≠ .ok) :
    Replies database command (.ok ((status.asU8.toNat, []), database)) :=
  .intro (.error ⟨some command, status, hs⟩) rfl hb rfl

theorem access_cases {p : QueueRow → Prop} (hb : Bounded database)
    (h : ∀ config, queue database q = some config → permitted config →
      RepliesUnless database command (p config) (f config)) :
    RepliesUnless database command
      (∃ config, queue database q = some config ∧ permitted config = true ∧ p config)
      (access database q permitted f) := by
  unfold access
  cases hq : queue database q
  case none => exact .inr ⟨by simp, replies_error hb .queueNotFound (by decide)⟩
  case some config =>
    by_cases hp : permitted config
    case neg =>
      simp only [hp, Bool.false_eq_true, if_false]
      exact .inr ⟨by simp_all, replies_error hb .unauthorized (by decide)⟩
    case pos =>
      obtain ⟨hc, he⟩ | ⟨hc, hr⟩ := h config hq hp
      · simp only [hp, if_true]
        exact .inl ⟨⟨config, rfl, hp, hc⟩, he⟩
      · simp only [hp, if_true]
        exact .inr ⟨by simp_all, hr⟩

theorem executeCreate_cases (hb : Bounded database) (hm : maxBytes < 2 ^ 63) :
    RepliesUnless database .createQueue (queue database q = none ∧ 2 ^ 63 ≤ maxMessages)
      (executeCreate database (queue database q) q sender recipient maxMessages maxBytes) := by
  unfold executeCreate
  cases hq : queue database q
  case none =>
    by_cases hn : maxMessages < 2 ^ 63
    case neg =>
      have hn := Nat.le_of_not_lt hn
      simp only [integer_new_overflow hn]
      exact .inl ⟨⟨trivial, hn⟩, rfl⟩
    case pos =>
      have hi : Table.insert QueueRow.queue ⟨q, sender, recipient, ⟨_, hn⟩, ⟨_, hm⟩⟩
          database.queues = some _ :=
        Table.insert_eq_some.mpr ⟨hq, rfl⟩
      simp only [integer_new hn, integer_new hm, Except.ok_bind, insertQueue, hi]
      exact .inr ⟨by omega, .intro (.success (.createQueue .created)) rfl hb rfl⟩
  case some row =>
    simp only
    split
    · exact .inr ⟨by simp, .intro (.success (.createQueue .alreadyExists)) rfl hb rfl⟩
    · exact .inr ⟨by simp, replies_error hb .queueIdConflict (by decide)⟩

theorem executeSend_cases (hb : Bounded database) (hp : payload.length ≤ maxMessageBytes) :
    RepliesUnless database .send
      (Table.lookup MessageRow.key (q, message) database.messages = none ∧
        payload.length ≤ config.maxBytes.value ∧
        database.messages.countP (·.queue = q) < config.maxMessages.value ∧
        1 ≤ ttl ∧ 2 ^ 63 ≤ now + ttl ∧ now + ttl < 2 ^ 64)
      (executeSend database config q message payload ttl now) := by
  unfold executeSend
  cases hl : Table.lookup MessageRow.key (q, message) database.messages
  case some existing =>
    simp only
    split
    · exact .inr ⟨by simp, .intro (.success (.send .duplicate)) rfl hb rfl⟩
    · exact .inr ⟨by simp, replies_error hb .messageIdConflict (by decide)⟩
  case none =>
    simp only
    split
    · exact .inr ⟨by omega, replies_error hb .messageTooLarge (by decide)⟩
    split
    · exact .inr ⟨by omega, replies_error hb .queueFull (by decide)⟩
    split
    · exact .inr ⟨by omega, replies_error hb .limitOutOfRange (by decide)⟩
    split
    · exact .inr ⟨by omega, replies_error hb .expiryOverflow (by decide)⟩
    by_cases hn : now + ttl < 2 ^ 63
    case neg =>
      have hn := Nat.le_of_not_lt hn
      simp only [integer_new_overflow hn]
      exact .inl ⟨⟨trivial, by omega, by omega, by omega, hn, by omega⟩, rfl⟩
    case pos =>
      have hi : Table.insert MessageRow.key
          ⟨database.sequence + 1, q, message, payload, ⟨_, hn⟩, false⟩ database.messages = some _ :=
        Table.insert_eq_some.mpr ⟨hl, rfl⟩
      simp only [integer_new hn, Except.ok_bind, insertMessage, hi]
      refine .inr ⟨by omega, .intro (.success (.send .accepted)) rfl ?_ rfl⟩
      intro row hr
      rcases List.mem_append.mp hr with hr | hr
      · exact hb row hr
      · rw [List.mem_singleton.mp hr]
        exact hp

theorem oldest_mem (h : oldest database q = some row) : row ∈ database.messages :=
  List.mem_of_mem_filter (List.argmin_mem h)

theorem executeFetch_replies (hb : Bounded database) :
    Replies database .fetch (.ok (executeFetch database q)) := by
  unfold executeFetch
  cases ho : oldest database q
  case none => exact .intro (.success (.fetch none)) rfl hb rfl
  case some row =>
    have he : (UInt64.ofNat row.expires.value).toNat = row.expires.value := by
      have := row.expires.bounded
      rw [UInt64.toNat_ofNat', Nat.mod_eq_of_lt (by omega)]
    let delivery : Delivery :=
      ⟨⟨row.message⟩, ⟨row.payload, hb row (oldest_mem ho)⟩, .ofNat row.expires.value⟩
    let messages := Table.update (·.sequence = row.sequence) ({ · with delivered := true })
      database.messages
    have hr : Replies database .fetch (.ok ((Code.ok,
        responseValues (.success (.fetch (some delivery)))), { database with messages })) := by
      refine .intro (.success (.fetch (some delivery))) rfl (fun row' hr => ?_) rfl
      obtain ⟨row', hm, rfl⟩ := Table.mem_update.mp hr
      split <;> exact hb row' hm
    simp only [responseValues, bodyValues, delivery, he] at hr
    exact hr

theorem executeAck_replies (hb : Bounded database) :
    Replies database .ack (.ok (executeAck database q message)) := by
  unfold executeAck
  cases ho : oldest database q
  case none => exact replies_error hb .ackMismatch (by decide)
  case some row =>
    simp only
    split
    · exact replies_error hb .ackMismatch (by decide)
    split
    · exact replies_error hb .notDelivered (by decide)
    · exact .intro (.success .ack) rfl (fun row hr => hb row (List.mem_of_mem_filter hr)) rfl

theorem executeDelete_replies (hb : Bounded database) :
    Replies database .deleteQueue (.ok (executeDelete database q)) :=
  .intro (.success .deleteQueue) rfl (fun row hr => hb row (List.mem_of_mem_filter hr)) rfl

theorem pruned_bounded (hb : Bounded database) : Bounded (pruned database q now) :=
  fun row hr => hb row (List.mem_of_mem_filter hr)

-- A command which fails for the time or does what it does without the expired messages.
theorem prune_cases {p : Prop} {f : Database → Except Error (Answer × Database)}
    (h : RepliesUnless (pruned database q now) command p (f (pruned database q now))) :
    RepliesUnless database command (2 ^ 63 ≤ now ∨ p) (prune database q now >>= f) := by
  by_cases hn : now < 2 ^ 63
  case neg =>
    have hn := Nat.le_of_not_lt hn
    rw [prune_overflow hn]
    exact .inl ⟨.inl hn, rfl⟩
  case pos =>
    rw [prune_eq hn, Except.ok_bind]
    obtain ⟨hp, he⟩ | ⟨hp, hr⟩ := h
    · exact .inl ⟨.inr hp, he⟩
    · refine .inr ⟨not_or.mpr ⟨Nat.not_le.mpr hn, hp⟩, ?_⟩
      generalize f _ = result at hr
      obtain ⟨response, hc, hb, hr⟩ := hr
      exact .intro response hc hb hr

theorem run_cases (hb : Bounded database) (arguments : Arguments) :
    RepliesUnless database arguments.command (Overflows database now principal arguments)
      (run database now principal arguments) := by
  cases arguments <;> simp only [run, Overflows, Arguments.command]
  case createQueue q _ r m b =>
    split
    case isTrue h => exact .inr ⟨by omega, replies_error hb .limitOutOfRange (by decide)⟩
    case isFalse h =>
      have hm : b < 2 ^ 63 := by
        simp only [maxMessageBytes] at h
        omega
      obtain ⟨⟨hq, hn⟩, he⟩ | ⟨hn, hr⟩ := executeCreate_cases hb hm
      · exact .inl ⟨⟨hq, by omega, by omega, hn⟩, he⟩
      · exact .inr ⟨fun h => hn ⟨h.left, h.right.right.right⟩, hr⟩
  case send hp =>
    refine (access_cases hb fun config _ _ => prune_cases <|
      executeSend_cases (pruned_bounded hb) hp).congr ?_
    simp only [decide_eq_true_eq]
  case fetch =>
    refine (access_cases hb fun config _ _ => prune_cases (p := False) ?_).congr ?_
    · exact .inr ⟨not_false, executeFetch_replies (pruned_bounded hb)⟩
    · simp only [decide_eq_true_eq, or_false]
  case ack =>
    refine (access_cases hb fun config _ _ => prune_cases (p := False) ?_).congr ?_
    · exact .inr ⟨not_false, executeAck_replies (pruned_bounded hb)⟩
    · simp only [decide_eq_true_eq, or_false]
  case deleteQueue =>
    refine (access_cases (p := fun _ => False) hb fun config _ _ => ?_).congr (by simp)
    exact .inr ⟨not_false, executeDelete_replies hb⟩

-- The stored data from which responses are made.
structure Sound (database : Database) : Prop where
  bounded : Bounded database
  replays : ∀ row ∈ database.replays, ∃ response,
    row.response = Codec.encodeResponse ⟨⟨row.requestId⟩, response⟩

theorem new_sound : Sound Connection.new.committed where
  bounded := fun _ h => nomatch h
  replays := fun _ h => nomatch h

theorem encodeResponse_error (requestId : ByteVec 16) (command : Option Command) (status : Status)
    (hs : status ≠ .ok) :
    encodeResponse requestId (commandCode command) status.asU8.toNat [] =
      .ok (Codec.encodeResponse ⟨⟨requestId⟩, .error ⟨command, status, hs⟩⟩) :=
  encodeResponse_eq requestId (.error ⟨command, status, hs⟩)

theorem refuse_eq (requestId : ByteVec 16) (h : Refusal e status) :
    ∃ hs, refuse requestId 0 e =
      .ok (Codec.encodeResponse ⟨⟨requestId⟩, .error ⟨none, status, hs⟩⟩) := by
  have hs : status ≠ .ok := by cases h <;> decide
  refine ⟨hs, Eq.trans ?_ (encodeResponse_error requestId none status hs)⟩
  cases h <;> rfl

theorem insertReplay_eq {database' : Database} (row : ReplayRow)
    (hl : Table.lookup ReplayRow.key row.key database.replays = none)
    (hr : database'.replays = database.replays) :
    insertReplay database' row = .ok { database' with replays := database.replays ++ [row] } := by
  have hi : Table.insert ReplayRow.key row database'.replays = some (database.replays ++ [row]) :=
    Table.insert_eq_some.mpr ⟨hr ▸ hl, hr ▸ rfl⟩
  rw [insertReplay, hi]

theorem requestId_eq (h : RequestFrame.Encodes request frame) : requestId frame = request.requestId := by
  obtain ⟨w, _, ha⟩ := h.payload
  obtain ⟨w', _, rfl⟩ := h.frame
  rw [ha, List.append_assoc, requestId, dif_pos (by simp [preamble_length])]
  exact ByteVec.ext (slice_preamble _)

section

variable [Ed25519]

-- A request which has been authenticated and is not a repetition overflows.
structure OverflowedBy (database : Database) (now : Nat) (request : RequestFrame)
    (arguments : Arguments) : Prop where
  command  : request.command = arguments.code
  body     : request.body = arguments.values
  verified : verifyRequest request arguments.principal = .ok ()
  fresh    : Table.lookup ReplayRow.key (arguments.principal, request.requestId) database.replays = none
  overflow : Overflows database now arguments.principal arguments

-- The conditions under which a frame is not answered.
def Fails (stack : Stack) (database : Database) (frame : Bytes) (now : Nat) : Prop :=
  stack.ExhaustedByRequest frame ∨ ∃ request arguments,
    decodeRequest stack frame = .ok request ∧ OverflowedBy database now request arguments

-- A closed connection to a sound database, and a response which has been received over it.
structure Answers (frame : Bytes) (result : Except Error Bytes × Connection) : Prop where
  closed   : result.snd.transaction = none
  sound    : Sound result.snd.committed
  response : ∃ response, result.fst = .ok (Codec.encodeResponse ⟨⟨requestId frame⟩, response⟩)

structure Raises (result : Except Error Bytes × Connection) : Prop where
  closed : result.snd.transaction = none
  sound  : Sound result.snd.committed
  error  : ∃ e, result.fst = .error e

theorem verifyRequest_cases (request : RequestFrame) (principal : ByteVec 32) :
    verifyRequest request principal = .ok () ∨
      verifyRequest request principal = .error (.protocolError Code.authInvalid) := by
  unfold verifyRequest
  split
  · exact .inr rfl
  split
  · split
    · exact .inl rfl
    · exact .inr rfl
  · exact .inr rfl

theorem transact_cases {request : RequestFrame} (hs : Sound database) (he : request.Encodes frame)
    (hc : request.command = arguments.code) (hb : request.body = arguments.values)
    (hv : verifyRequest request arguments.principal = .ok ()) :
    (OverflowedBy database now request arguments ∧
      Raises (transact ⟨database, some database⟩ request frame now arguments.principal)) ∨
    (¬OverflowedBy database now request arguments ∧
      Answers frame (transact ⟨database, some database⟩ request frame now arguments.principal)) := by
  have hi := requestId_eq he
  have hd : Connection.database ⟨database, some database⟩ = database := rfl
  simp only [transact, hd]
  cases hl : Table.lookup ReplayRow.key (arguments.principal, request.requestId) database.replays
  case some row =>
    refine .inr ⟨fun h => ?_, ?_⟩
    · rw [h.fresh] at hl
      cases hl
    · simp only
      split
      · obtain ⟨response, hr⟩ := hs.replays row (Table.mem_of_lookup hl)
        have hk : row.requestId = request.requestId := congrArg Prod.snd (Table.key_of_lookup hl)
        exact ⟨rfl, hs, response, by rw [hi, hr, hk]⟩
      · refine ⟨rfl, hs, .error ⟨some arguments.command, .authReplay, by decide⟩, ?_⟩
        rw [hi, hc, arguments.code_eq]
        exact encodeResponse_error request.requestId (some arguments.command) .authReplay (by decide)
  case none =>
    simp only [respond, execute_eq hc hb]
    have hx : RepliesUnless database arguments.command
        (Overflows database now arguments.principal arguments) _ := run_cases hs.bounded arguments
    obtain ⟨ho, hr⟩ | ⟨ho, hr⟩ := hx
    · refine .inl ⟨⟨hc, hb, hv, hl, ho⟩, ?_⟩
      rw [hr]
      exact ⟨rfl, hs, _, rfl⟩
    · refine .inr ⟨fun h => ho h.overflow, ?_⟩
      generalize run database now arguments.principal arguments = result at hr
      cases hr
      case intro database' response hc' hb' hr' =>
        have hn : encodeResponse request.requestId request.command response.status.asU8.toNat
            (responseValues response) = .ok (Codec.encodeResponse ⟨⟨request.requestId⟩, response⟩) := by
          rw [←encodeResponse_eq, hc', hc, arguments.code_eq]
          rfl
        have hj := insertReplay_eq ⟨arguments.principal, request.requestId, frame,
          Codec.encodeResponse ⟨⟨request.requestId⟩, response⟩⟩ hl hr'
        simp only [Except.ok_bind, hn, hj]
        refine ⟨rfl, ⟨hb', fun row hr => ?_⟩, response, hi ▸ rfl⟩
        rcases List.mem_append.mp (hr : row ∈ database.replays ++ [_]) with hr | hr
        · exact hs.replays row hr
        · rw [List.mem_singleton.mp hr]
          exact ⟨response, rfl⟩

theorem exchange_cases {connection : Connection} (stack : Stack) (frame : Bytes) (now : Nat)
    (hc : connection.transaction = none) (hs : Sound connection.committed) :
    (Fails stack connection.committed frame now ∧ Raises (exchange stack connection frame now)) ∨
      (¬Fails stack connection.committed frame now ∧
        Answers frame (exchange stack connection frame now)) := by
  obtain ⟨database, _⟩ := connection
  subst hc
  have ha (e : Except Error Bytes) (command status hs') (h : e = .ok (Codec.encodeResponse
      ⟨⟨requestId frame⟩, .error ⟨command, status, hs'⟩⟩)) : Answers frame (e, ⟨database, none⟩) :=
    ⟨rfl, hs, _, h⟩
  unfold exchange
  simp only
  split
  case isTrue hv =>
    have hu := encodeResponse_error (requestId frame) none .unsupportedVersion (by decide)
    refine .inr ⟨?_, ha _ none .unsupportedVersion (by decide) hu⟩
    rintro (h | ⟨request, arguments, h, _⟩)
    · exact hv.right (exhaustedByRequest_iff.mp h).right.right.left
    · obtain ⟨w, _, hw⟩ := (decodeRequest_eq_ok.mp h).left.payload
      obtain ⟨w', _, hf⟩ := (decodeRequest_eq_ok.mp h).left.frame
      exact hv.right (by rw [hf, hw]; rfl)
  case isFalse =>
    cases hd : decodeRequest stack frame
    case error e =>
      obtain ⟨rfl, hx⟩ | ⟨status, hr⟩ := decodeRequest_eq_error hd
      · exact .inl ⟨.inl hx, rfl, hs, _, rfl⟩
      · refine .inr ⟨?_, ?_⟩
        · rintro (h | ⟨request, arguments, h, _⟩)
          · rw [decodeRequest_exhausted h] at hd
            cases hd
            cases hr
          · rw [hd] at h
            cases h
        · obtain ⟨hn, he⟩ := refuse_eq (requestId frame) hr
          exact ha _ _ _ hn he
    case ok request =>
      have he := (decodeRequest_eq_ok.mp hd).left
      obtain ⟨arguments, hc, hb⟩ := he.shape
      have hf : Fails stack database frame now ↔ OverflowedBy database now request arguments := by
        refine ⟨?_, fun h => .inr ⟨request, arguments, hd, h⟩⟩
        rintro (h | ⟨_, arguments', hd', ho⟩)
        · rw [decodeRequest_exhausted h] at hd
          cases hd
        · cases hd.symm.trans hd'
          cases Arguments.ext_values (hc.symm.trans ho.command) (hb.symm.trans ho.body)
          exact ho
      simp only [authenticate, hb, Arguments.idAt_values, Except.ok_bind]
      obtain hv | hv := verifyRequest_cases request arguments.principal
      · rw [hv]
        exact (transact_cases hs he hc hb hv).imp (And.imp_left hf.mpr) (And.imp_left (mt hf.mp))
      · rw [hv]
        refine .inr ⟨fun h => ?_, ?_⟩
        · have := (hf.mp h).verified
          rw [hv] at this
          cases this
        · refine ha _ (some arguments.command) .authInvalid (by decide) ?_
          have := encodeResponse_error (requestId frame) (some arguments.command) .authInvalid (by decide)
          rw [←this, hc, arguments.code_eq]
          rfl

theorem machine_sound (stack : Stack) (inputs : Nat → Bytes × Nat) (n : Nat) :
    ((machine stack).state inputs n).transaction = none ∧
      Sound ((machine stack).state inputs n).committed := by
  let P (connection : Connection) := connection.transaction = none ∧ Sound connection.committed
  have hi : P (machine stack).init := ⟨rfl, new_sound⟩
  refine Machine.invariant hi (fun input connection ⟨hc, hs⟩ => ?_) n
  obtain ⟨_, h⟩ | ⟨_, h⟩ := exchange_cases stack input.fst input.snd hc hs
  · exact ⟨h.closed, h.sound⟩
  · exact ⟨h.closed, h.sound⟩

-- The relay returns a response frame which can be decoded and has the request's identifier.
def Responds (stack : Stack) (frame : Bytes) (result : Except Error Bytes) : Prop :=
  ∃ response decoded, result = .ok response ∧ decodeResponse stack response = .ok decoded ∧
    (17 ≤ frame.length → decoded.requestId.toBytes = slice frame 1 17)

-- The relay answers a frame unless its numbers are too large for the database or its arrays are nested
-- too deeply. In any case it does not leave a transaction open.
theorem exchange_responds_iff (stack : Stack) (inputs : Nat → Bytes × Nat) (n : Nat) (frame : Bytes)
    (now : Nat) :
    (Responds stack frame (exchange stack ((machine stack).state inputs n) frame now).fst ↔
      ¬Fails stack ((machine stack).state inputs n).committed frame now) ∧
    (exchange stack ((machine stack).state inputs n) frame now).snd.transaction = none := by
  obtain ⟨hc, hs⟩ := machine_sound stack inputs n
  obtain ⟨hf, h⟩ | ⟨hf, h⟩ := exchange_cases stack frame now hc hs
  · obtain ⟨e, he⟩ := h.error
    refine ⟨iff_of_false ?_ (not_not.mpr hf), h.closed⟩
    rintro ⟨_, _, hr, _⟩
    rw [he] at hr
    cases hr
  · obtain ⟨response, hr⟩ := h.response
    refine ⟨iff_of_true ⟨_, _, hr, decodeResponse_eq .., fun hl => ?_⟩ hf, h.closed⟩
    simp [ResponseFrame.of, requestId, hl]

end

-- A new relay is asked for a queue with a limit which its database cannot store.
namespace Large

attribute [local instance] Toy.ed25519

theorem messages_pos : (0x8000000000000000 : UInt64) ≠ 0 := by decide
theorem bytes_pos    : (512 : UInt64) ≠ 0                := by decide
theorem bytes_le     : (512 : UInt64).toNat ≤ 64374      := by decide

def key : ByteVec 32 := .replicate 32 1

def create : Request :=
  .createQueue ⟨⟨.replicate 32 3⟩, ⟨key⟩, ⟨.replicate 32 2⟩, 0x8000000000000000, 512, messages_pos,
    bytes_pos, bytes_le⟩

def frame : Bytes :=
  let requestId := ⟨.replicate 16 0⟩
  let authenticated := Codec.encodeAuthenticatedRequest requestId create
  Codec.encodeRequest ⟨requestId, create, signRequest key authenticated⟩

theorem exchange_frame : (exchange .unbounded .new frame 0).fst = .error .overflowError := by
  decide +kernel

theorem large_limit_not_answered :
    ¬Responds .unbounded frame
      (exchange .unbounded ((machine .unbounded).state (fun _ => ([], 0)) 0) frame 0).fst := by
  rintro ⟨_, _, hr, _⟩
  cases exchange_frame.symm.trans hr

end Large

end Relay
end Cofferwire.Python
