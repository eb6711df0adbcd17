import Cofferwire.Codec.Frame
import Cofferwire.Codec.Theorems.Cbor

namespace Cofferwire.Codec

open Reader (Recognizes)

theorem encodePreamble_length (requestId : RequestId) :
    (encodePreamble requestId).length = preambleBytes := by
  simp [encodePreamble, preambleBytes, requestId.asBytes.size]

theorem decodePreambleWithin_eq_ok :
    decodePreambleWithin maxBytes bytes = .ok requestId ↔
      bytes.length ≤ maxBytes ∧ encodePreamble requestId <+: bytes := by
  unfold decodePreambleWithin
  split
  case isTrue h => simp; omega
  split
  case isTrue h =>
    simp only [reduceCtorEq, false_iff, not_and]
    intro _ hp
    have := encodePreamble_length requestId ▸ hp.length_le
    omega
  case isFalse hm h =>
    cases bytes
    case nil => simp [preambleBytes] at h
    case cons b bytes =>
      have hm : (b :: bytes).length ≤ maxBytes := Nat.not_lt.mp hm
      have hs := requestId.asBytes.size
      simp only [hm, true_and, encodePreamble, List.cons_prefix_cons, version,
        List.getElem_cons_zero, List.drop_one, List.tail_cons]
      rw [List.prefix_iff_eq_take, hs]
      obtain ⟨⟨id, _⟩⟩ := requestId
      grind

theorem finish_eq_ok : finish decoder bytes = .ok u ↔ decoder.offset = bytes.length := by
  simp [finish]

section Whole

variable {r : Decode α} {L : Bytes → α → Prop} {r' : Decode β} {L' : Bytes → β → Prop}

-- A frame whose payload ends with the frame.
theorem decode_plain_eq_ok (h : Recognizes r L) (make : RequestId → α → γ) :
    (do
      let requestId ← decodePreambleWithin maxBytes bytes
      let (a, decoder) ← r.run ⟨bytes, preambleBytes⟩
      finish decoder bytes
      return make requestId a) = Except.ok out ↔
    ∃ requestId w a, L w a ∧ bytes = encodePreamble requestId ++ w ∧ bytes.length ≤ maxBytes ∧
      out = make requestId a := by
  simp only [Except.bind_eq_ok, decodePreambleWithin_eq_ok, Prod.exists, finish_eq_ok,
    exists_const]
  constructor
  case mp =>
    rintro ⟨requestId, ⟨hm, t, rfl⟩, a, c, hr, hf, ⟨⟩⟩
    have hw := h.run_to_end (by simp [encodePreamble_length]) |>.mp ⟨c, hr, hf⟩
    rw [←encodePreamble_length requestId, List.drop_left] at hw
    exact ⟨requestId, t, a, hw, rfl, hm, rfl⟩
  case mpr =>
    rintro ⟨requestId, w, a, hw, rfl, hm, rfl⟩
    have hd : L ((encodePreamble requestId ++ w).drop preambleBytes) a := by
      rwa [←encodePreamble_length requestId, List.drop_left]
    have ⟨c, hr, hf⟩ := h.run_to_end (by simp [encodePreamble_length]) |>.mpr hd
    exact ⟨requestId, ⟨hm, w, rfl⟩, a, c, hr, hf, rfl⟩

-- A frame whose payload is followed by a proof. The bytes in front of the proof are kept.
theorem decode_signed_eq_ok (h : Recognizes r L) (h' : Recognizes r' L')
    (make : RequestId → α → β → Bytes → γ) :
    (do
      let requestId ← decodePreambleWithin maxBytes bytes
      let (a, decoder) ← r.run ⟨bytes, preambleBytes⟩
      let authenticatedEnd := decoder.offset
      let (b, decoder) ← r'.run decoder
      finish decoder bytes
      return make requestId a b (bytes.take authenticatedEnd)) = Except.ok out ↔
    ∃ requestId w a w' b, L w a ∧ L' w' b ∧ bytes = encodePreamble requestId ++ w ++ w' ∧
      bytes.length ≤ maxBytes ∧ out = make requestId a b (encodePreamble requestId ++ w) := by
  simp only [Except.bind_eq_ok, decodePreambleWithin_eq_ok, Prod.exists, finish_eq_ok,
    exists_const]
  constructor
  case mp =>
    rintro ⟨requestId, ⟨hm, t, rfl⟩, a, c, hr, b, c', hr', hf, ⟨⟩⟩
    have hn := encodePreamble_length requestId
    obtain ⟨w, w', hw, hw', hd, rfl⟩ := h.run_then h' (by simp [hn]) |>.mp ⟨c', hr, hr', hf⟩
    rw [←hn, List.drop_left] at hd
    subst hd
    refine ⟨requestId, w, a, w', b, hw, hw', by simp, hm, ?_⟩
    rw [←hn, ←List.append_assoc, ←List.length_append, List.take_left]
  case mpr =>
    rintro ⟨requestId, w, a, w', b, hw, hw', rfl, hm, rfl⟩
    have hn := encodePreamble_length requestId
    have hd : (encodePreamble requestId ++ w ++ w').drop preambleBytes = w ++ w' := by
      rw [←hn, List.append_assoc, List.drop_left]
    obtain ⟨c', hr, hr', hf⟩ := h.run_then h' (by simp [hn]) |>.mpr ⟨w, w', hw, hw', hd, rfl⟩
    refine ⟨requestId, ⟨hm, w ++ w', by simp⟩, a, _, hr, b, c', hr', hf, ?_⟩
    rw [←hn, ←List.length_append, List.take_left]
    rfl

end Whole

theorem expectValue_recognizes :
    Recognizes (expectValue field n) fun w _ => w = encodeUnsigned n := by
  unfold expectValue
  refine (Decoder.unsigned_recognizes.bind fun m => (Recognizes.pure ()).ite (.throw _)).congr ?_
  simp

theorem fixedBytes_recognizes (hn : n < 2 ^ 64) :
    Recognizes (fixedBytes n field) fun w v => w = encodeBytes v.toBytes := by
  unfold fixedBytes
  refine Recognizes.congr (.bind (M := fun bs w v => w = [] ∧ v.toBytes = bs)
    (Decoder.bytes_recognizes hn) fun bs => ?_) ?_
  · split
    case isTrue h =>
      apply (Recognizes.pure _).congr
      simp [ByteVec.ext_iff]
    case isFalse h =>
      apply (Recognizes.throw _).congr
      rintro w ⟨_, h'⟩
      simp only [false_iff, not_and]
      rintro _ rfl
      contradiction
  · intro w v
    have := v.size
    simp only [↓existsAndEq]
    grind

-- All identifiers are wrappers of 32 bytes.
theorem fixedBytes_map_recognizes {fromBytes : ByteVec 32 → α} {asBytes : α → ByteVec 32}
    (h : ∀ id bytes, id = fromBytes bytes ↔ asBytes id = bytes) :
    Recognizes (do return fromBytes (← fixedBytes 32 field)) fun w id =>
      w = encodeId (asBytes id) := by
  refine ((fixedBytes_recognizes (by decide)).bind fun _ => .pure _).congr ?_
  simp [encodeId, h]

theorem encodeId_length {bytes : ByteVec 32} : (encodeId bytes).length = 34 := by
  simp [encodeId, encodeBytes, encodeArgument, bytes.size]

theorem u8TryFrom_eq_some : u8TryFrom v = some b ↔ v = b.toUInt64 := by
  have := b.toNat_lt
  simp only [u8TryFrom, Option.ite_none_right_eq_some, Option.some.injEq, UInt64.le_iff_toNat_le,
    ←UInt8.toNat_inj, ←UInt64.toNat_inj, UInt64.toNat_toUInt8, UInt8.toNat_toUInt64,
    UInt64.reduceToNat]
  omega

-- Narrowing a code to a byte and looking the byte up in a registry.
theorem u8TryFrom_recognizes {r : UInt8 → Decode α} (code : α → UInt8)
    (h : ∀ byte, Recognizes (r byte) fun w a => w = [] ∧ byte = code a) :
    Recognizes (match u8TryFrom v with | some byte => r byte | none => throw err) fun w a =>
      w = [] ∧ v = (code a).toUInt64 := by
  split
  case h_1 byte hb =>
    apply (h byte).congr
    intro w a
    rw [u8TryFrom_eq_some.mp hb, UInt8.toUInt64_inj]
  case h_2 hn =>
    apply (Recognizes.throw _).congr
    intro w a
    simp only [←u8TryFrom_eq_some, hn, reduceCtorEq, and_false]

end Cofferwire.Codec
