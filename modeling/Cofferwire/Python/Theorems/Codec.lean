import Cofferwire.Codec.Theorems.Queue
import Cofferwire.Python.Codec
import Cofferwire.Python.Theorems.Cbor

namespace Cofferwire.Python

open Reader (Recognizes)

def Value.id (bytes : ByteVec 32) : Value :=
  .bytes bytes.toBytes

theorem id_eq_ok : id v = .ok bytes ↔ v = .id bytes := by
  cases v <;> simp only [id, Value.id, reduceCtorEq]
  case bytes value =>
    split
    case isTrue h => simp [ByteVec.ext_iff]
    case isFalse h =>
      simp only [reduceCtorEq, Value.bytes.injEq, false_iff]
      rintro rfl
      exact h bytes.size

theorem idAt_eq_ok : idAt body i = .ok bytes ↔ body[i]? = some (.id bytes) := by
  simp only [idAt, index, Except.bind_eq_ok, id_eq_ok]
  cases body[i]? <;> simp

theorem isInt_iff {v : Value} : v.isInt ↔ ∃ n, v = .int n := by
  cases v <;> simp [Value.isInt]

-- The arguments of a command, as far as its body has been validated.
inductive Arguments
  | createQueue (queue sender recipient : ByteVec 32) (maxMessages maxBytes : Nat)
  | send (queue sender message : ByteVec 32) (payload : Bytes) (ttl : Nat)
    (bounded : payload.length ≤ maxMessageBytes)
  | fetch (queue recipient : ByteVec 32)
  | ack (queue recipient message : ByteVec 32)
  | deleteQueue (queue recipient : ByteVec 32)

namespace Arguments

def command : Arguments → Command
  | createQueue .. => .createQueue
  | send ..        => .send
  | fetch ..       => .fetch
  | ack ..         => .ack
  | deleteQueue .. => .deleteQueue

def code : Arguments → Nat
  | createQueue .. => Python.createQueue
  | send ..        => Python.send
  | fetch ..       => Python.fetch
  | ack ..         => Python.ack
  | deleteQueue .. => Python.deleteQueue

theorem code_eq (arguments : Arguments) : arguments.code = arguments.command.asU8.toNat := by
  cases arguments <;> rfl

-- The values of a body in the order of their encoding.
def values : Arguments → List Value
  | createQueue queue sender recipient maxMessages maxBytes =>
    [.id queue, .id sender, .id recipient, .int maxMessages, .int maxBytes]
  | send queue sender message payload ttl _ =>
    [.id queue, .id sender, .id message, .bytes payload, .int ttl]
  | fetch queue recipient       => [.id queue, .id recipient]
  | ack queue recipient message => [.id queue, .id recipient, .id message]
  | deleteQueue queue recipient => [.id queue, .id recipient]

theorem ext_values {arguments arguments' : Arguments} (hc : arguments.code = arguments'.code)
    (hv : arguments.values = arguments'.values) : arguments = arguments' := by
  have hi {v w : ByteVec 32} : Value.id v = Value.id w ↔ v = w := by simp [Value.id, ByteVec.ext_iff]
  cases arguments <;> cases arguments'
  case createQueue.createQueue | send.send | fetch.fetch | ack.ack | deleteQueue.deleteQueue =>
    simpa [values, hi] using hv
  all_goals exact absurd hc (by simp only [code]; decide)

def principal : Arguments → ByteVec 32
  | createQueue _ sender .. | send _ sender .. => sender
  | fetch _ recipient | ack _ recipient _ | deleteQueue _ recipient => recipient

theorem idAt_values (arguments : Arguments) : idAt arguments.values 1 = .ok arguments.principal := by
  cases arguments <;> exact idAt_eq_ok.mpr rfl

-- The arguments of a request which has been decoded by the other implementation.
def of : Request → Arguments
  | .createQueue value => .createQueue value.queueId.asBytes value.sender.asBytes
    value.recipient.asBytes value.limits.maxMessages.toNat value.limits.maxMessageBytes.toNat
  | .send value        => .send value.queueId.asBytes value.sender.asBytes value.messageId.asBytes
    value.payload.asBytes value.ttl.toNat value.payload.bounded
  | .fetch value       => .fetch value.queueId.asBytes value.recipient.asBytes
  | .ack value         => .ack value.queueId.asBytes value.recipient.asBytes value.messageId.asBytes
  | .deleteQueue value => .deleteQueue value.queueId.asBytes value.recipient.asBytes

theorem code_of (request : Request) : (of request).code = request.command.asU8.toNat := by
  cases request <;> rfl

end Arguments

-- A body which is valid for a command.
def Shape (command : Nat) (body : List Value) : Prop :=
  ∃ arguments : Arguments, command = arguments.code ∧ body = arguments.values

theorem size_eq_some (h : size command = some n) :
    (command = createQueue ∧ n = 5) ∨ (command = send ∧ n = 5) ∨ (command = fetch ∧ n = 2) ∨
    (command = ack ∧ n = 3) ∨ (command = deleteQueue ∧ n = 2) := by
  unfold size at h
  grind

theorem validateBody_eq_ok :
    validateBody command v = .ok body ↔ v = .list body ∧ Shape command body where
  mp h := by
    cases v <;> simp only [validateBody, reduceCtorEq] at h
    case list items =>
      split at h
      case h_1 => cases h
      case h_2 n hs =>
        rcases size_eq_some hs with ⟨rfl, rfl⟩ | ⟨rfl, rfl⟩ | ⟨rfl, rfl⟩ | ⟨rfl, rfl⟩ | ⟨rfl, rfl⟩
        all_goals
          obtain ⟨hl, h⟩ := Except.ite_error_eq_ok.mp h
          have hl := not_not.mp hl
        case inl =>
          rw [if_pos rfl] at h
          simp only [Except.bind_eq_ok, idAt_eq_ok, Except.ite_error_eq_ok, not_not] at h
          obtain ⟨q, hq, s, hs, r, hr, hi, ⟨⟩⟩ := h
          match body, hl with
          | [_, _, _, _, _], _ =>
            cases hq; cases hs; cases hr
            simp only [List.drop_succ_cons, List.drop_zero, List.all_cons, List.all_nil, Bool.and_true,
              Bool.and_eq_true, isInt_iff] at hi
            obtain ⟨⟨m, rfl⟩, b, rfl⟩ := hi
            exact ⟨rfl, .createQueue q s r m b, rfl, rfl⟩
        case inr.inl =>
          rw [if_neg (by decide), if_pos rfl] at h
          simp only [Except.bind_eq_ok, idAt_eq_ok] at h
          obtain ⟨q, hq, s, hs, m, hm, v, hv, h⟩ := h
          cases v <;> simp only [reduceCtorEq, Except.bind_eq_ok, Except.ite_error_eq_ok, not_not] at h
          case bytes payload =>
            obtain ⟨hp, w, hw, hi, ⟨⟩⟩ := h
            obtain ⟨ttl, rfl⟩ := isInt_iff.mp hi
            match body, hl with
            | [_, _, _, _, _], _ =>
              cases hq; cases hs; cases hm; cases hv; cases hw
              exact ⟨rfl, .send q s m _ ttl (Nat.le_of_not_lt hp), rfl, rfl⟩
        all_goals
          rw [if_neg (by decide), if_neg (by decide)] at h
        case inr.inr.inr.inl =>
          rw [if_pos rfl] at h
          simp only [Except.bind_eq_ok, idAt_eq_ok] at h
          obtain ⟨q, hq, r, hr, m, hm, ⟨⟩⟩ := h
          match body, hl with
          | [_, _, _], _ =>
            cases hq; cases hr; cases hm
            exact ⟨rfl, .ack q r m, rfl, rfl⟩
        all_goals
          rw [if_neg (by decide)] at h
          simp only [Except.bind_eq_ok, idAt_eq_ok] at h
          obtain ⟨q, hq, r, hr, ⟨⟩⟩ := h
        case inr.inr.inl =>
          match body, hl with
          | [_, _], _ =>
            cases hq; cases hr
            exact ⟨rfl, .fetch q r, rfl, rfl⟩
        case inr.inr.inr.inr =>
          match body, hl with
          | [_, _], _ =>
            cases hq; cases hr
            exact ⟨rfl, .deleteQueue q r, rfl, rfl⟩
  mpr := by
    rintro ⟨rfl, arguments, rfl, rfl⟩
    cases arguments
    case createQueue q s r m b =>
      change validateBody createQueue (.list [.id q, .id s, .id r, .int m, .int b]) = _
      simp only [validateBody]
      refine Except.ite_error_eq_ok.mpr ⟨by simp, ?_⟩
      simp only [if_true, Except.bind_eq_ok, idAt_eq_ok, Except.ite_error_eq_ok]
      exact ⟨q, rfl, s, rfl, r, rfl, by simp [Value.isInt], rfl⟩
    case send q s m payload ttl hp =>
      change validateBody send (.list [.id q, .id s, .id m, .bytes payload, .int ttl]) = _
      simp only [validateBody]
      refine Except.ite_error_eq_ok.mpr ⟨by simp, ?_⟩
      rw [if_neg (by decide), if_pos trivial]
      simp only [Except.bind_eq_ok, idAt_eq_ok]
      refine ⟨q, rfl, s, rfl, m, rfl, _, rfl, ?_⟩
      exact Except.ite_error_eq_ok.mpr ⟨Nat.not_lt.mpr hp, rfl⟩
    case fetch q r =>
      change validateBody fetch (.list [.id q, .id r]) = _
      simp only [validateBody]
      refine Except.ite_error_eq_ok.mpr ⟨by simp, ?_⟩
      rw [if_neg (by decide), if_neg (by decide), if_neg (by decide)]
      simp only [Except.bind_eq_ok, idAt_eq_ok]
      exact ⟨q, rfl, r, rfl, rfl⟩
    case ack q r m =>
      change validateBody ack (.list [.id q, .id r, .id m]) = _
      simp only [validateBody]
      refine Except.ite_error_eq_ok.mpr ⟨by simp, ?_⟩
      rw [if_neg (by decide), if_neg (by decide), if_pos trivial]
      simp only [Except.bind_eq_ok, idAt_eq_ok]
      exact ⟨q, rfl, r, rfl, m, rfl, rfl⟩
    case deleteQueue q r =>
      change validateBody deleteQueue (.list [.id q, .id r]) = _
      simp only [validateBody]
      refine Except.ite_error_eq_ok.mpr ⟨by simp, ?_⟩
      rw [if_neg (by decide), if_neg (by decide), if_neg (by decide)]
      simp only [Except.bind_eq_ok, idAt_eq_ok]
      exact ⟨q, rfl, r, rfl, rfl⟩

theorem idAt_eq_error (h : idAt body i = .error e) (hi : i < body.length) :
    ∃ message, e = .valueError message := by
  obtain ⟨v, hv⟩ : ∃ v, body[i]? = some v := ⟨_, List.getElem?_eq_getElem hi⟩
  simp only [idAt, index, hv, Option.elim_some, Except.ok_bind] at h
  unfold id at h
  split at h <;> try split at h
  all_goals cases h
  all_goals exact ⟨_, rfl⟩

theorem validateBody_eq_error (h : validateBody command v = .error e) :
    e = .protocolError Code.unknownCommand ∨ ∃ message, e = .valueError message := by
  cases v <;> simp only [validateBody] at h
  case int | bytes =>
    cases h
    exact .inr ⟨_, rfl⟩
  case list body =>
    split at h
    case h_1 =>
      cases h
      exact .inl rfl
    case h_2 n hs =>
      right
      rw [Except.ite_error_eq_error, not_not] at h
      obtain ⟨_, rfl⟩ | ⟨hl, h⟩ := h
      · exact ⟨_, rfl⟩
      have hi {i} (hn : i < n) (h : idAt body i = .error e) := idAt_eq_error h (hl ▸ hn)
      have hx {i} (hn : i < n) (h : index body i = .error e) : False := by
        rw [index, List.getElem?_eq_getElem (hl ▸ hn)] at h
        cases h
      rcases size_eq_some hs with ⟨rfl, rfl⟩ | ⟨rfl, rfl⟩ | ⟨rfl, rfl⟩ | ⟨rfl, rfl⟩ | ⟨rfl, rfl⟩
      case inr.inl =>
        rw [if_pos rfl] at h
        simp only [Except.bind_eq_error, Except.ite_error_eq_error] at h
        obtain h | ⟨_, _, h | ⟨_, _, h | ⟨_, _, ⟨_, rfl⟩ | ⟨_, ⟨⟩⟩⟩⟩⟩ := h
        · exact hi (by decide) h
        · exact hi (by decide) h
        · exact hi (by decide) h
        · exact ⟨_, rfl⟩
      case inr.inr.inl =>
        rw [if_neg (by decide), if_pos rfl] at h
        simp only [Except.bind_eq_error] at h
        obtain h | ⟨_, _, h | ⟨_, _, h | ⟨_, _, h | ⟨v, _, h⟩⟩⟩⟩ := h
        · exact hi (by decide) h
        · exact hi (by decide) h
        · exact hi (by decide) h
        · exact (hx (by decide) h).elim
        · cases v
          case bytes =>
            simp only [Except.bind_eq_error, Except.ite_error_eq_error] at h
            obtain ⟨_, rfl⟩ | ⟨_, h | ⟨_, _, ⟨_, rfl⟩ | ⟨_, ⟨⟩⟩⟩⟩ := h
            · exact ⟨_, rfl⟩
            · exact (hx (by decide) h).elim
            · exact ⟨_, rfl⟩
          case int | list =>
            cases h
            exact ⟨_, rfl⟩
      all_goals rw [if_neg (by decide), if_neg (by decide)] at h
      case inr.inr.inr.inr.inl =>
        rw [if_pos rfl] at h
        simp only [Except.bind_eq_error] at h
        obtain h | ⟨_, _, h | ⟨_, _, h | ⟨_, _, ⟨⟩⟩⟩⟩ := h
        · exact hi (by decide) h
        · exact hi (by decide) h
        · exact hi (by decide) h
      all_goals
        rw [if_neg (by decide)] at h
        simp only [Except.bind_eq_error] at h
        obtain h | ⟨_, _, h | ⟨_, _, ⟨⟩⟩⟩ := h
        · exact hi (by decide) h
        · exact hi (by decide) h

def preamble (requestId : ByteVec 16) : Bytes :=
  version :: requestId.toBytes

theorem preamble_length (requestId : ByteVec 16) : (preamble requestId).length = 17 := by
  simp [preamble, requestId.size]

theorem slice_preamble (requestId : ByteVec 16) :
    slice (preamble requestId ++ w) 1 17 = requestId.toBytes := by
  have h : (requestId.toBytes ++ w).take _ = _ := List.take_left
  rwa [requestId.size] at h

theorem drop_preamble (requestId : ByteVec 16) : (preamble requestId ++ w).drop 17 = w := by
  have h : (preamble requestId ++ w).drop _ = _ := List.drop_left
  rwa [preamble_length] at h

theorem take_preamble (requestId : ByteVec 16) :
    (preamble requestId ++ w ++ w').take (17 + w.length) = preamble requestId ++ w := by
  have h : (preamble requestId ++ w ++ w').take _ = _ := List.take_left
  rwa [List.length_append, preamble_length] at h

theorem eq_preamble {requestId : ByteVec 16} (hl : 17 ≤ frame.length)
    (hv : frame.head? = some version) (hr : requestId.toBytes = slice frame 1 17) :
    frame = preamble requestId ++ frame.drop 17 := by
  cases frame <;> simp at hl hv
  case cons b bytes =>
    subst hv
    rw [preamble, hr]
    exact congrArg _ (List.take_append_drop 16 bytes).symm

def RequestFrame.payload (request : RequestFrame) : List Value :=
  [.int 0, .int request.command, .list request.body]

theorem discriminate_eq_ok :
    discriminate payload = .ok (command, body) ↔ payload = [.int 0, .int command, body] := by
  unfold discriminate
  split <;> simp_all

-- The frames which are decoded, in terms of the encodings of what they are decoded to.
structure RequestFrame.Encodes (request : RequestFrame) (frame : Bytes) : Prop where
  encoded       : request.encoded = frame
  bounded       : frame.length ≤ maxFrameBytes
  shape         : Shape request.command request.body
  auth          : request.auth.length ≤ maxAuthBytes
  payload       : ∃ w, cbor (.list request.payload) = .ok w ∧
    request.authenticated = preamble request.requestId ++ w
  frame         : ∃ w, cbor (.bytes request.auth) = .ok w ∧ frame = request.authenticated ++ w

theorem decodeRequest_eq_ok {request : RequestFrame} :
    decodeRequest stack frame = .ok request ↔
      request.Encodes frame ∧ ∀ v ∈ request.payload, v.Fits stack frame.length 0 := by
  have ht : Recognizes (Decoder.array (some 3) (Decoder.item stack frame.length 0)) _ :=
    Decoder.array_recognizes (Decoder.item_recognizes stack frame.length 0)
  have ha := Decoder.byteString_recognizes maxAuthBytes
  simp only [decodeRequest, Except.ite_error_eq_ok, Except.dite_error_eq_ok, Except.bind_eq_ok,
    Prod.exists, ne_eq, not_not, Nat.not_lt]
  constructor
  case mp =>
    rintro ⟨hm, hl, hv, payload, c, hp, command, _, hd, body, hb, auth, c', hs, hf, ⟨⟩⟩
    obtain ⟨w, w', ⟨hw, _, hi⟩, ⟨hw', hx⟩, hd', rfl⟩ := (ht.run_then ha hl).mp ⟨c', hp, hs, hf⟩
    obtain rfl := discriminate_eq_ok.mp hd
    obtain ⟨rfl, hb⟩ := validateBody_eq_ok.mp hb
    generalize hr : ByteVec.mk (slice frame 1 17) _ = requestId
    have he : frame = preamble requestId ++ _ := eq_preamble hl hv (by rw [←hr])
    rw [hd', ←List.append_assoc] at he
    have ht : frame.take (17 + w.length) = preamble requestId ++ w := by
      rw [he]
      exact take_preamble requestId
    exact ⟨⟨rfl, hm, ‹_›, hx, ⟨w, hw, ht⟩, w', hw', ht.symm ▸ he⟩, hi⟩
  case mpr =>
    obtain ⟨requestId, command, body, auth, authenticated, encoded⟩ := request
    rintro ⟨⟨he, hm, hb, hx, ⟨w, hw, ha'⟩, w', hw', hf⟩, hi⟩
    simp only at he ha' hf
    subst he ha' hf
    have hl : 17 ≤ (preamble requestId ++ w ++ w').length := by
      simp only [List.length_append, preamble_length]
      omega
    have hd : (preamble requestId ++ w ++ w').drop 17 = w ++ w' := by
      rw [List.append_assoc, drop_preamble]
    obtain ⟨c', hp, hs, hf⟩ := (ht.run_then ha hl).mpr
      ⟨w, w', ⟨hw, by simp [RequestFrame.payload], hi⟩, ⟨hw', hx⟩, hd, rfl⟩
    refine ⟨hm, hl, rfl, _, _, hp, command, _, rfl, body, validateBody_eq_ok.mpr ⟨rfl, hb⟩, auth, c', hs,
      hf, ?_⟩
    have hr : slice (preamble requestId ++ w ++ w') 1 17 = requestId.toBytes := by
      rw [List.append_assoc]
      exact slice_preamble requestId
    refine congrArg Except.ok ?_
    simp only [RequestFrame.mk.injEq, true_and, and_true]
    exact ⟨ByteVec.ext hr, take_preamble requestId⟩

-- The request which the other decoder reports, as reported by this one.
def RequestFrame.of (decoded : Codec.DecodedRequest) : RequestFrame where
  requestId     := decoded.frame.requestId.asBytes
  command       := decoded.frame.request.command.asU8.toNat
  body          := (Arguments.of decoded.frame.request).values
  auth          := decoded.frame.auth.asBytes
  authenticated := decoded.authenticatedBytes
  encoded       := Codec.encodeRequest decoded.frame

-- The condition on limits which only the other decoder checks.
def LimitsValid (request : RequestFrame) : Prop :=
  ∀ queue sender recipient maxMessages maxBytes, request.command = createQueue →
    request.body = [queue, sender, recipient, .int maxMessages, .int maxBytes] →
      1 ≤ maxMessages ∧ 1 ≤ maxBytes ∧ maxBytes ≤ 64374

theorem cbor_id (bytes : ByteVec 32) : cbor (.id bytes) = .ok (Codec.encodeId bytes) :=
  cbor_bytes (by simp [bytes.size])

theorem cbor_values (request : Request) :
    cbor (.list (Arguments.of request).values) = .ok (Codec.encodeRequestBody request) := by
  cases request
  case createQueue =>
    refine (cbor_list (n := 5) (join_cons (cbor_id _) <| join_cons (cbor_id _) <|
      join_cons (cbor_id _) <| join_cons (cbor_int _) <| join_cons (cbor_int _) join_nil) rfl).trans ?_
    simp [Codec.encodeRequestBody]
  case send send =>
    have hp : send.payload.asBytes.length < 2 ^ 64 := Nat.lt_of_le_of_lt send.payload.bounded (by decide)
    refine (cbor_list (n := 5) (join_cons (cbor_id _) <| join_cons (cbor_id _) <|
      join_cons (cbor_id _) <| join_cons (cbor_bytes hp) <| join_cons (cbor_int _) join_nil) rfl).trans ?_
    simp [Codec.encodeRequestBody]
  case ack =>
    refine (cbor_list (n := 3) (join_cons (cbor_id _) <| join_cons (cbor_id _) <|
      join_cons (cbor_id _) join_nil) rfl).trans ?_
    simp [Codec.encodeRequestBody]
  case fetch | deleteQueue =>
    refine (cbor_list (n := 2) (join_cons (cbor_id _) <| join_cons (cbor_id _) join_nil) rfl).trans ?_
    simp [Codec.encodeRequestBody]

theorem cbor_payload (decoded : Codec.DecodedRequest) :
    cbor (.list (RequestFrame.of decoded).payload) =
      .ok (Codec.encodeRequestPayload decoded.frame.request) := by
  have hc : decoded.frame.request.command.asU8.toNat =
      decoded.frame.request.command.asU8.toUInt64.toNat := UInt8.toNat_toUInt64 _ |>.symm
  refine (cbor_list (n := 3) (join_cons (cbor_int 0) <| join_cons (hc ▸ cbor_int _) <|
    join_cons (cbor_values _) join_nil) rfl).trans ?_
  simp [Codec.encodeRequestPayload]

theorem encodes_of (h : Codec.decodeRequest frame = .ok decoded) :
    (RequestFrame.of decoded).Encodes frame := by
  obtain ⟨rfl, ha⟩ := Codec.decodeRequest_eq_ok.mp h
  have hb := decoded.frame.auth.bounded
  refine ⟨rfl, Codec.encodeRequest_length_le, ⟨_, (Arguments.code_of _).symm, rfl⟩, hb,
    ⟨_, cbor_payload decoded, ha⟩, _, cbor_bytes (Nat.lt_of_le_of_lt hb (by decide)), ?_⟩
  exact congrArg (· ++ _) ha.symm

theorem exists_toNat (h : cbor (.list body) = .ok w) (hm : .int n ∈ body) :
    ∃ v : UInt64, n = v.toNat := by
  obtain ⟨_, _, _, hj, _⟩ := cbor_list_eq_ok.mp h
  obtain ⟨_, hc, _⟩ := exists_cbor_of_mem hj hm
  obtain ⟨v, hv, _⟩ := argument_eq_ok.mp hc
  exact ⟨v, hv⟩

theorem exists_values {request : RequestFrame} (hs : Shape request.command request.body)
    (hb : cbor (.list request.body) = .ok w) (hl : LimitsValid request) :
    ∃ request' : Request, request.command = request'.command.asU8.toNat ∧
      request.body = (Arguments.of request').values := by
  obtain ⟨requestId, command, body, auth, authenticated, encoded⟩ := request
  obtain ⟨arguments, hc, ha⟩ := hs
  simp only at hc ha hb
  subst hc ha
  cases arguments
  case createQueue q s r m b =>
    obtain ⟨hm, hb', hb''⟩ := hl _ _ _ m b rfl rfl
    obtain ⟨m, rfl⟩ := exists_toNat hb (n := m) (by simp [Arguments.values])
    obtain ⟨b, rfl⟩ := exists_toNat hb (n := b) (by simp [Arguments.values])
    have hm : m ≠ 0 := by rintro rfl; contradiction
    have hb : b ≠ 0 := by rintro rfl; contradiction
    exact ⟨.createQueue ⟨⟨q⟩, ⟨s⟩, ⟨r⟩, ⟨m, b, hm, hb, hb''⟩⟩, rfl, rfl⟩
  case send q s m payload ttl hp =>
    obtain ⟨ttl, rfl⟩ := exists_toNat hb (n := ttl) (by simp [Arguments.values])
    exact ⟨.send ⟨⟨q⟩, ⟨s⟩, ⟨m⟩, ⟨payload, hp⟩, ttl⟩, rfl, rfl⟩
  case fetch q r       => exact ⟨.fetch ⟨⟨q⟩, ⟨r⟩⟩, rfl, rfl⟩
  case ack q r m       => exact ⟨.ack ⟨⟨q⟩, ⟨r⟩, ⟨m⟩⟩, rfl, rfl⟩
  case deleteQueue q r => exact ⟨.deleteQueue ⟨⟨q⟩, ⟨r⟩⟩, rfl, rfl⟩

theorem exists_of {request : RequestFrame} (h : request.Encodes frame) (hl : LimitsValid request) :
    ∃ decoded, Codec.decodeRequest frame = .ok decoded ∧ request = .of decoded := by
  obtain ⟨w, hw, ha⟩ := h.payload
  obtain ⟨w', hw', hf⟩ := h.frame
  obtain ⟨_, _, _, hj, _⟩ := cbor_list_eq_ok.mp hw
  obtain ⟨_, hb, _⟩ := exists_cbor_of_mem hj (v := .list request.body) (by simp [RequestFrame.payload])
  obtain ⟨request', hc, hv⟩ := exists_values h.shape hb hl
  let decoded : Codec.DecodedRequest := {
    frame              := ⟨⟨request.requestId⟩, request', ⟨request.auth, h.auth⟩⟩
    authenticatedBytes := request.authenticated
  }
  have hp : request.payload = (RequestFrame.of decoded).payload := by
    simp only [RequestFrame.payload, RequestFrame.of, hc, hv, decoded]
  obtain rfl := Except.ok.inj ((hp ▸ hw).symm.trans (cbor_payload decoded))
  obtain rfl := Except.ok.inj (hw'.symm.trans (cbor_bytes (Nat.lt_of_le_of_lt h.auth (by decide))))
  have he : frame = Codec.encodeRequest decoded.frame := hf.trans (congrArg (· ++ _) ha)
  refine ⟨decoded, Codec.decodeRequest_eq_ok.mpr ⟨he, ha⟩, ?_⟩
  have hn := h.encoded.trans he
  obtain ⟨requestId, command, body, auth, authenticated, encoded⟩ := request
  simp only [RequestFrame.of, RequestFrame.mk.injEq]
  exact ⟨rfl, hc, hv, rfl, rfl, hn⟩

theorem decodeRequest_unbounded {request : RequestFrame} :
    decodeRequest .unbounded frame = .ok request ↔ request.Encodes frame := by
  rw [decodeRequest_eq_ok]
  refine ⟨And.left, fun h => ⟨h, fun v hv => ?_⟩⟩
  obtain ⟨w, hw, ha⟩ := h.payload
  obtain ⟨_, _, hf⟩ := h.frame
  obtain ⟨_, _, _, hj, rfl⟩ := cbor_list_eq_ok.mp hw
  obtain ⟨w', hw', hl⟩ := exists_cbor_of_mem hj hv
  refine fits_unbounded hw' ?_ h.bounded
  simp only [hf, ha, List.length_append]
  omega

theorem limitsValid_of (decoded : Codec.DecodedRequest) : LimitsValid (.of decoded) := by
  obtain ⟨⟨_, request, _⟩, _⟩ := decoded
  intro q s r m b hc hb
  cases request <;> simp only [RequestFrame.of, Arguments.of, Arguments.values, Request.command] at hc hb
  case createQueue create =>
    simp only [List.cons.injEq, Value.int.injEq] at hb
    obtain ⟨_, _, _, rfl, rfl, _⟩ := hb
    have hm := mt UInt64.toNat_inj.mp create.limits.messages_pos
    have hb := mt UInt64.toNat_inj.mp create.limits.bytes_pos
    exact ⟨Nat.pos_of_ne_zero hm, Nat.pos_of_ne_zero hb, create.limits.bytes_le⟩
  all_goals exact absurd hc (by decide)

-- Both decoders accept the same frames, except for the limits, and decode them to the same request.
theorem request_decoders_agree (frame : Bytes) :
    ((∃ decoded, Codec.decodeRequest frame = .ok decoded) ↔
      ∃ request, decodeRequest .unbounded frame = .ok request ∧ LimitsValid request) ∧
    (∀ decoded request, Codec.decodeRequest frame = .ok decoded →
      decodeRequest .unbounded frame = .ok request → request = .of decoded) := by
  have hd {decoded} (h : Codec.decodeRequest frame = .ok decoded) :
      decodeRequest .unbounded frame = .ok (.of decoded) :=
    decodeRequest_unbounded.mpr (encodes_of h)
  refine ⟨⟨?_, ?_⟩, ?_⟩
  · rintro ⟨decoded, h⟩
    exact ⟨_, hd h, limitsValid_of decoded⟩
  · rintro ⟨request, h, hl⟩
    obtain ⟨decoded, h, _⟩ := exists_of (decodeRequest_unbounded.mp h) hl
    exact ⟨decoded, h⟩
  · intro decoded request h h'
    exact Except.ok.inj (h'.symm.trans (hd h))

end Cofferwire.Python
