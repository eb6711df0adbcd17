import Cofferwire.Python.Theorems.Codec

namespace Cofferwire.Python

open Reader (Recognizes)

-- The values of a body in the order of their encoding.
def bodyValues : ResponseBody → List Value
  | .createQueue outcome => [.int outcome.asU8.toNat]
  | .send outcome        => [.int outcome.asU8.toNat]
  | .fetch none          => [.int 0]
  | .fetch (some delivery) => [
      .int 1,
      .id delivery.messageId.asBytes,
      .bytes delivery.payload.asBytes,
      .int delivery.expiresAt.toNat
    ]
  | .ack | .deleteQueue  => []

def responseValues : Response → List Value
  | .success body => bodyValues body
  | .error _      => []

def commandCode (command : Option Command) : Nat :=
  command.elim 0 (·.asU8.toNat)

theorem cbor_uint8 (v : UInt8) : cbor (.int v.toNat) = .ok (Codec.encodeUnsigned v.toUInt64) := by
  rw [←UInt8.toNat_toUInt64, cbor_int]

theorem payload_lt (payload : Payload) : payload.asBytes.length < 2 ^ 64 :=
  Nat.lt_of_le_of_lt payload.bounded (by decide)

theorem cbor_bodyValues (body : ResponseBody) :
    cbor (.list (bodyValues body)) = .ok (Codec.encodeSuccessBody body) := by
  cases body
  case createQueue | send =>
    refine (cbor_list (n := 1) (join_cons (cbor_uint8 _) join_nil) rfl).trans ?_
    simp [Codec.encodeSuccessBody]
  case fetch delivery =>
    cases delivery
    case none =>
      refine (cbor_list (n := 1) (join_cons (cbor_int 0) join_nil) rfl).trans ?_
      simp [Codec.encodeSuccessBody]
    case some =>
      refine (cbor_list (n := 4) (join_cons (cbor_int 1) <| join_cons (cbor_id _) <|
        join_cons (cbor_bytes (payload_lt _)) <| join_cons (cbor_int _) join_nil) rfl).trans ?_
      simp [Codec.encodeSuccessBody]
  case ack | deleteQueue => rfl

def ResponseFrame.of (requestId : ByteVec 16) (response : Response) : ResponseFrame where
  requestId := requestId
  command   := commandCode response.command
  status    := response.status.asU8.toNat
  body      := responseValues response

def ResponseFrame.payload (frame : ResponseFrame) : List Value :=
  [.int 1, .int frame.command, .int frame.status, .list frame.body]

theorem cbor_commandCode (command : Option Command) :
    cbor (.int (commandCode command)) =
      .ok (Codec.encodeUnsigned (command.elim 0 (·.asU8.toUInt64))) := by
  cases command
  case none   => rfl
  case some c => exact cbor_uint8 c.asU8

theorem cbor_responsePayload (requestId : ByteVec 16) (response : Response) :
    cbor (.list (ResponseFrame.of requestId response).payload) =
      .ok (Codec.encodeResponsePayload response) := by
  have hp {w} (hb : cbor (.list (responseValues response)) = .ok w) :=
    cbor_list (n := 4) (join_cons (cbor_int 1) <| join_cons (cbor_commandCode response.command) <|
      join_cons (cbor_uint8 response.status.asU8) <| join_cons hb join_nil) rfl
  cases response
  case success body =>
    refine (hp (cbor_bodyValues body)).trans ?_
    simp [Codec.encodeResponsePayload]
  case error =>
    refine (hp rfl).trans ?_
    simp [Codec.encodeResponsePayload]
    rfl

theorem status_le (status : Status) : status.asU8.toNat ≤ Code.authReplay := by
  cases status <;> decide

theorem responseValues_of_ne_ok (h : response.status.asU8.toNat ≠ Code.ok) :
    responseValues response = [] := by
  cases response
  case success => exact absurd rfl h
  case error   => rfl

theorem encodeResponse_eq (requestId : ByteVec 16) (response : Response) :
    encodeResponse requestId (commandCode response.command) response.status.asU8.toNat
      (responseValues response) = .ok (Codec.encodeResponse ⟨⟨requestId⟩, response⟩) := by
  simp only [encodeResponse, Except.ite_error_eq_ok, not_not, status_le, true_and, Except.bind_eq_ok]
  refine ⟨fun ⟨h, hb⟩ => ?_, _, cbor_responsePayload requestId response, rfl⟩
  simp [responseValues_of_ne_ok h] at hb

-- The values without any nesting.
def Value.Flat : Value → Prop
  | .int _       => True
  | .bytes value => value.length ≤ maxFrameBytes
  | .list _      => False

theorem Value.Flat.fits {v : Value} (h : v.Flat) (hl : level ≤ 1) : v.Fits stack (fuel + 1) level := by
  obtain ⟨he, hr⟩ := stack.roomy level hl
  cases v
  case int   => exact ⟨he, hr, trivial⟩
  case bytes => exact ⟨he, hr, h⟩
  case list  => exact h.elim

theorem flat_id (bytes : ByteVec 32) : (Value.id bytes).Flat := by
  simp [Value.id, Value.Flat, bytes.size, maxFrameBytes]

theorem flat_responseValues (response : Response) : ∀ v ∈ responseValues response, v.Flat := by
  rcases response with (outcome | outcome | (_ | delivery) | _ | _) | _
  case success.fetch.some =>
    have hp : (Value.bytes delivery.payload.asBytes).Flat :=
      Nat.le_trans delivery.payload.bounded (by decide)
    simp only [responseValues, bodyValues, List.forall_mem_cons]
    exact ⟨trivial, flat_id _, hp, trivial, by simp⟩
  all_goals simp [responseValues, bodyValues, Value.Flat]

theorem fits_responsePayload (requestId : ByteVec 16) (response : Response) :
    ∀ v ∈ (ResponseFrame.of requestId response).payload, v.Fits stack (fuel + 2) 0 := by
  obtain ⟨he, hr⟩ := stack.roomy 0 (by decide)
  have hi {n} : (Value.int n).Fits stack (fuel + 2) 0 := ⟨he, hr, trivial⟩
  have hb : (Value.list (responseValues response)).Fits stack (fuel + 2) 0 :=
    ⟨he, hr, fun v hv => (flat_responseValues response v hv).fits (by decide)⟩
  simp only [ResponseFrame.payload, ResponseFrame.of, List.forall_mem_cons, hi, hb, true_and]
  simp

theorem decodeResponse_eq (stack : Stack) (requestId : ByteVec 16) (response : Response) :
    decodeResponse stack (Codec.encodeResponse ⟨⟨requestId⟩, response⟩) =
      .ok (.of requestId response) := by
  have hm : (Codec.encodeResponse ⟨⟨requestId⟩, response⟩).length ≤ maxFrameBytes :=
    Codec.encodeResponse_length_le
  have hf : Codec.encodeResponse ⟨⟨requestId⟩, response⟩ =
      preamble requestId ++ Codec.encodeResponsePayload response := rfl
  generalize Codec.encodeResponse ⟨⟨requestId⟩, response⟩ = frame at hm hf
  have hl : 17 ≤ frame.length := by
    simp only [hf, List.length_append, preamble_length]
    omega
  have hv : frame.head? = some version := by rw [hf]; rfl
  have hs : slice frame 1 17 = requestId.toBytes := by rw [hf, slice_preamble]
  obtain ⟨fuel, hn⟩ : ∃ fuel, frame.length = fuel + 2 := ⟨frame.length - 2, by omega⟩
  have hd : frame.drop 17 = Codec.encodeResponsePayload response := by rw [hf, drop_preamble]
  have ht : Recognizes (Decoder.array (some 4) (Decoder.item stack frame.length 0)) _ :=
    Decoder.array_recognizes (Decoder.item_recognizes stack frame.length 0)
  obtain ⟨c, hr, hc⟩ := (ht.run_to_end hl).mpr
    ⟨hd ▸ cbor_responsePayload requestId response, by simp [ResponseFrame.payload],
      hn ▸ fits_responsePayload requestId response⟩
  have hp : ¬(frame.length > maxFrameBytes ∨ frame.length < 17 ∨ frame.head? ≠ some version) := by
    simp [hv]
    omega
  simp only [decodeResponse, Except.dite_error_eq_ok, Except.bind_eq_ok, Prod.exists]
  refine ⟨hp, _, c, hr, Except.ite_error_eq_ok.mpr ⟨not_not.mpr hc, ?_⟩⟩
  refine Except.ite_error_eq_ok.mpr ⟨?_, ?_⟩
  · rintro (h | ⟨h, hb⟩)
    · exact h (status_le _)
    · simp [ResponseFrame.of, responseValues_of_ne_ok h] at hb
  · exact congrArg (fun id => Except.ok (ResponseFrame.mk id _ _ _)) (ByteVec.ext hs)

end Cofferwire.Python
