import Cofferwire.Codec.Theorems.Cbor
import Cofferwire.Python.Cbor

namespace Cofferwire.Python

open Reader (Recognizes Words)
open Codec (encodeArgument Spells)

theorem argument_toNat (v : UInt64) : argument major v.toNat = .ok (encodeArgument major v) := by
  have hv : v.toNat ≤ 18446744073709551615 := Nat.le_of_lt_succ v.toNat_lt
  have hs : v.toNat < 24 ↔ v.toNat ≤ 23 := Nat.lt_succ_iff
  simp only [argument, encodeArgument, UInt64.le_iff_toNat_le, UInt64.reduceToNat, hs, hv, if_true]
  split
  case isTrue => rfl
  split
  case isTrue => simp [BigEndian.encode]
  split
  case isTrue => rfl
  split <;> rfl

theorem argument_eq_ok :
    argument major n = .ok w ↔ ∃ v : UInt64, n = v.toNat ∧ w = encodeArgument major v where
  mp h := by
    have hn : n < 2 ^ 64 := by
      simp only [argument] at h
      split at h <;> try split at h <;> try split at h <;> try split at h <;> try split at h
      all_goals first | omega | cases h
    have hv : n = (UInt64.ofNat n).toNat := by
      rw [UInt64.toNat_ofNat', Nat.mod_eq_of_lt hn]
    rw [hv, argument_toNat] at h
    exact ⟨_, hv, Except.ok.inj h.symm⟩
  mpr := by
    rintro ⟨v, rfl, rfl⟩
    exact argument_toNat v

theorem argument_lead (hm : major < 8) (h : argument major n = .ok w) :
    ∃ b t, w = b :: t ∧ b >>> 5 = major := by
  obtain ⟨v, rfl, rfl⟩ := argument_eq_ok.mp h
  obtain ⟨x, t, hs, he⟩ := Codec.encodeArgument_iff.mp (rfl : encodeArgument major v = _)
  exact ⟨_, t, he, (Codec.lead_iff hm hs.lt).mpr rfl |>.left⟩

theorem cbor_bytes_eq_ok :
    cbor (.bytes bs) = .ok w ↔ ∃ w', argument 2 bs.length = .ok w' ∧ w = w' ++ bs := by
  simp only [cbor, Except.bind_eq_ok, pure, Except.pure, Except.ok.injEq]
  grind

theorem cbor_list_eq_ok : cbor (.list items) = .ok w ↔
    ∃ w₁ w₂, argument 4 items.length = .ok w₁ ∧ join items = .ok w₂ ∧ w = w₁ ++ w₂ := by
  simp only [cbor, Except.bind_eq_ok, pure, Except.pure, Except.ok.injEq]
  grind

theorem join_cons_eq_ok : join (item :: items) = .ok w ↔
    ∃ w₁ w₂, cbor item = .ok w₁ ∧ join items = .ok w₂ ∧ w = w₁ ++ w₂ := by
  simp only [join, Except.bind_eq_ok, pure, Except.pure, Except.ok.injEq]
  grind

theorem cbor_int (v : UInt64) : cbor (.int v.toNat) = .ok (Codec.encodeUnsigned v) :=
  argument_toNat v

theorem cbor_bytes (h : bs.length < 2 ^ 64) : cbor (.bytes bs) = .ok (Codec.encodeBytes bs) := by
  refine cbor_bytes_eq_ok.mpr ⟨_, argument_eq_ok.mpr ⟨.ofNat bs.length, ?_, rfl⟩, rfl⟩
  rw [UInt64.toNat_ofNat', Nat.mod_eq_of_lt h]

theorem cbor_list (h : join vs = .ok w) (hl : vs.length = n.toNat) :
    cbor (.list vs) = .ok (Codec.encodeArray n ++ w) :=
  cbor_list_eq_ok.mpr ⟨_, w, hl ▸ argument_toNat n, h, rfl⟩

theorem join_nil : join [] = .ok [] := rfl

theorem join_cons (h : cbor v = .ok w) (h' : join vs = .ok w') : join (v :: vs) = .ok (w ++ w') :=
  join_cons_eq_ok.mpr ⟨w, w', h, h', rfl⟩

def Value.major : Value → UInt8
  | .int _   => 0
  | .bytes _ => 2
  | .list _  => 4

-- The lead byte of an encoding tells the type of the value.
theorem cbor_lead (h : cbor v = .ok w) : ∃ b t, w = b :: t ∧ b >>> 5 = v.major := by
  cases v
  case int => exact argument_lead (by decide : 0 < 8) h
  case bytes =>
    obtain ⟨_, h', rfl⟩ := cbor_bytes_eq_ok.mp h
    obtain ⟨b, t, rfl, hb⟩ := argument_lead (by decide) h'
    exact ⟨b, _, rfl, hb⟩
  case list =>
    obtain ⟨_, _, h', _, rfl⟩ := cbor_list_eq_ok.mp h
    obtain ⟨b, t, rfl, hb⟩ := argument_lead (by decide) h'
    exact ⟨b, _, rfl, hb⟩

-- The values which are decoded without running out of fuel or stack. Byte strings are bounded.
def Value.Fits (stack : Stack) : (fuel level : Nat) → Value → Prop
  | 0, _, _ => False
  | fuel + 1, level, value => stack.enters level ∧ stack.reads level ∧
    match value with
    | .int _       => True
    | .bytes value => value.length ≤ maxFrameBytes
    | .list items  => ∀ item ∈ items, item.Fits stack fuel (level + 1)

theorem words_iff {P : Value → Prop} :
    Words (fun w v => cbor v = .ok w ∧ P v) w vs ↔ join vs = .ok w ∧ ∀ v ∈ vs, P v := by
  induction vs generalizing w
  case nil => simp [Words, join, pure, Except.pure, eq_comm]
  case cons v vs hi =>
    simp only [Words, hi, join_cons_eq_ok, List.forall_mem_cons]
    grind

theorem exists_cbor_of_mem (h : join vs = .ok w) (hv : v ∈ vs) :
    ∃ w', cbor v = .ok w' ∧ w'.length ≤ w.length := by
  induction vs generalizing w
  case nil => contradiction
  case cons hi =>
    obtain ⟨w₁, w₂, h₁, h₂, rfl⟩ := join_cons_eq_ok.mp h
    rw [List.length_append]
    rcases List.mem_cons.mp hv with rfl | hv
    · exact ⟨w₁, h₁, by omega⟩
    · obtain ⟨w', hw, hl⟩ := hi h₂ hv
      exact ⟨w', hw, by omega⟩

-- Encodings which are no longer than a frame have enough fuel, as long as the stack has no bounds.
theorem fits_unbounded (h : cbor v = .ok w) (hl : w.length ≤ fuel) (hm : fuel ≤ maxFrameBytes) :
    v.Fits .unbounded fuel level := by
  induction fuel generalizing v w level
  case zero =>
    obtain ⟨_, _, rfl, _⟩ := cbor_lead h
    contradiction
  case succ fuel hi =>
    refine ⟨rfl, rfl, ?_⟩
    cases v
    case int => trivial
    case bytes =>
      obtain ⟨_, _, rfl⟩ := cbor_bytes_eq_ok.mp h
      rw [List.length_append] at hl
      simp only
      omega
    case list items =>
      obtain ⟨w₁, w₂, h₁, h₂, rfl⟩ := cbor_list_eq_ok.mp h
      obtain ⟨_, _, rfl, _⟩ := argument_lead (by decide) h₁
      intro v hv
      obtain ⟨w', hw, hl'⟩ := exists_cbor_of_mem h₂ hv
      simp only [List.cons_append, List.length_cons, List.length_append] at hl
      exact hi hw (by omega) (by omega)

namespace Decoder

theorem call_recognizes (h : Recognizes r L) :
    Recognizes (call room r) fun w a => room = true ∧ L w a := by
  cases room
  case true  => simpa [call] using h
  case false => simpa [call] using Recognizes.throw _

theorem spells_lt (h : Spells x w v) : x < 28 := by
  rcases h with ⟨h, _⟩ | ⟨rfl, _⟩ | ⟨rfl, _⟩ | ⟨rfl, _⟩ | ⟨rfl, _⟩
  case inl => exact UInt8.lt_of_le_of_lt h (by decide)
  all_goals decide

-- The part of `head` which follows a lead byte that announces `k` bytes.
theorem wide_recognizes {e : Nat → Error} (hk : k ≤ 8) (hm : m < 2 ^ 64) :
    Recognizes (do
      let bs ← Reader.take k e
      if BigEndian.decode bs < m then throw e' else pure (BigEndian.decode bs)) fun w n =>
      ∃ v : UInt64, (w = BigEndian.encode k v.toNat ∧ v.toNat < 256 ^ k ∧ .ofNat m ≤ v) ∧ n = v.toNat := by
  refine ((Recognizes.take k e).bind fun bs => (Recognizes.throw _).ite (.pure _)).congr ?_
  have hd {bs : Bytes} (hl : bs.length = k) :
      (UInt64.ofNat (BigEndian.decode bs)).toNat = BigEndian.decode bs := by
    have hb := BigEndian.decode_lt bs
    have hp : 256 ^ bs.length ≤ 256 ^ 8 := Nat.pow_le_pow_right (by decide) (hl ▸ hk)
    rw [UInt64.toNat_ofNat', Nat.mod_eq_of_lt (by omega)]
  have hm : (UInt64.ofNat m).toNat = m := by rw [UInt64.toNat_ofNat', Nat.mod_eq_of_lt hm]
  intro w n
  simp only [←and_assoc, ←Codec.ofNat_decode_iff hk, UInt64.le_iff_toNat_le, hm]
  constructor
  case mp =>
    rintro ⟨_, bs, _, ⟨⟨rfl, hl⟩, ⟨_, h⟩ | ⟨⟨h, rfl⟩, rfl⟩⟩, rfl⟩
    · contradiction
    · refine ⟨_, ⟨⟨by simpa using hl, rfl⟩, ?_⟩, ?_⟩ <;> simp only [List.append_nil, hd hl]
      exact Nat.le_of_not_lt h
  case mpr =>
    rintro ⟨_, ⟨⟨hl, rfl⟩, hv⟩, rfl⟩
    rw [hd hl] at hv ⊢
    exact ⟨w, w, [], ⟨⟨rfl, hl⟩, .inr ⟨⟨Nat.not_lt.mpr hv, rfl⟩, rfl⟩⟩, by simp⟩

theorem head_recognizes (hm : major < 8) :
    Recognizes (head major) fun w n => argument major n = .ok w := by
  refine Recognizes.congr (L := fun w n => ∃ (w₁ : Bytes) (b : UInt8) (w₂ : Bytes),
    w₁ = [b] ∧ (b >>> 5 = major ∧ ∃ v : UInt64, Spells (b &&& 31) w₂ v ∧ n = v.toNat) ∧ w = w₁ ++ w₂)
    ((Recognizes.item _).bind fun b => ?_) ?_
  · simp only
    generalize b &&& 31 = x
    split
    case isTrue h =>
      apply (Recognizes.throw _).congr
      intro w n
      simp only [false_iff]
      rintro ⟨hb, v, hs, _⟩
      exact h.elim (· hb) (UInt8.not_le.mpr (spells_lt hs))
    case isFalse h =>
      obtain ⟨hb, hx⟩ := not_or.mp h
      simp only [not_not.mp hb, true_and]
      split
      case isTrue hx =>
        apply (Recognizes.pure _).congr
        intro w n
        have hn : x ≠ 24 ∧ x ≠ 25 ∧ x ≠ 26 ∧ x ≠ 27 := by
          refine ⟨?_, ?_, ?_, ?_⟩ <;> rintro rfl <;> revert hx <;> decide
        have hl : x ≤ 23 := by
          simp only [UInt8.lt_iff_toNat_lt, UInt8.le_iff_toNat_le, UInt8.reduceToNat] at hx ⊢
          omega
        simp [Spells, hl, hn]
      case isFalse hx' =>
        have hc : x = 24 ∨ x = 25 ∨ x = 26 ∨ x = 27 := by
          simp only [UInt8.lt_iff_toNat_lt, UInt8.le_iff_toNat_le, ←UInt8.toNat_inj, ge_iff_le,
            UInt8.reduceToNat] at hx hx' ⊢
          omega
        rcases hc with rfl | rfl | rfl | rfl
        all_goals exact (wide_recognizes (by decide) (by decide)).congr <| by simp [Spells, width, minimum]
  · intro w n
    simp only [argument_eq_ok, Codec.encodeArgument_iff]
    constructor
    case mp =>
      rintro ⟨_, b, t, rfl, ⟨h₁, v, h₂, rfl⟩, rfl⟩
      refine ⟨v, rfl, _, t, h₂, ?_⟩
      rw [←Codec.lead_iff hm h₂.lt |>.mp ⟨h₁, rfl⟩]
      rfl
    case mpr =>
      rintro ⟨v, rfl, x, t, h, rfl⟩
      obtain ⟨h₁, h₂⟩ := Codec.lead_iff hm h.lt |>.mpr rfl
      exact ⟨_, _, t, rfl, ⟨h₁, v, h₂.symm ▸ h, rfl⟩, rfl⟩

theorem byteString_recognizes (maximum : Nat) :
    Recognizes (byteString maximum) fun w bs => cbor (.bytes bs) = .ok w ∧ bs.length ≤ maximum := by
  refine ((head_recognizes (by decide)).bind fun n => (Recognizes.throw _).ite (.take n _)).congr ?_
  intro w bs
  rw [cbor_bytes_eq_ok]
  constructor
  case mp =>
    rintro ⟨w', n, _, hw, ⟨_, h⟩ | ⟨hn, rfl, rfl⟩, rfl⟩
    · contradiction
    · exact ⟨⟨w', hw, rfl⟩, Nat.le_of_not_lt hn⟩
  case mpr =>
    rintro ⟨⟨w', hw, rfl⟩, hl⟩
    exact ⟨w', _, bs, hw, .inr ⟨Nat.not_lt.mpr hl, rfl, rfl⟩, rfl⟩

theorem array_recognizes {P : Value → Prop} (h : Recognizes r fun w v => cbor v = .ok w ∧ P v) :
    Recognizes (array length r) fun w vs =>
      cbor (.list vs) = .ok w ∧ (∀ n ∈ length, vs.length = n) ∧ ∀ v ∈ vs, P v := by
  refine ((head_recognizes (by decide)).bind fun n => (Recognizes.throw _).ite (h.times n)).congr ?_
  intro w vs
  simp only [words_iff, cbor_list_eq_ok]
  constructor
  case mp =>
    rintro ⟨w₁, n, w₂, hn, ⟨_, h⟩ | ⟨hl, rfl, hj, hp⟩, rfl⟩
    · contradiction
    · refine ⟨⟨w₁, w₂, hn, hj, rfl⟩, fun n hn => ?_, hp⟩
      cases hn
      simpa using hl
  case mpr =>
    rintro ⟨⟨w₁, w₂, hn, hj, rfl⟩, hl, hp⟩
    refine ⟨w₁, _, w₂, hn, .inr ⟨?_, rfl, hj, hp⟩, rfl⟩
    cases length
    case none   => simp
    case some n => simpa using hl n rfl

theorem item_recognizes (stack : Stack) (fuel level : Nat) :
    Recognizes (item stack fuel level) fun w v => cbor v = .ok w ∧ v.Fits stack fuel level := by
  induction fuel generalizing level
  case zero => exact (Recognizes.throw _).congr <| by simp [Value.Fits]
  case succ fuel hi =>
    unfold item
    cases he : stack.enters level
    case false => exact (Recognizes.throw _).congr <| by simp [Value.Fits, he]
    case true =>
      let M (b : UInt8) (w : Bytes) (v : Value) :=
        b >>> 5 = v.major ∧ cbor v = .ok w ∧ v.Fits stack (fuel + 1) level
      refine (Recognizes.peek_bind (M := M) (fun b => ?_) ?_).congr ?_
      · simp only [M]
        generalize b >>> 5 = major
        split
        case isTrue h =>
          refine (call_recognizes ((head_recognizes (by decide)).map Value.int)).congr fun w v => ?_
          cases v <;> simp [h, he, Value.major, cbor, Value.Fits, and_comm]
        split
        case isTrue h =>
          refine (call_recognizes ((byteString_recognizes _).map Value.bytes)).congr fun w v => ?_
          cases v <;> simp [h, he, Value.major, Value.Fits]
          grind
        split
        case isTrue h =>
          refine (call_recognizes ((array_recognizes (hi (level + 1))).map Value.list)).congr fun w v => ?_
          cases v <;> simp [h, he, Value.major, Value.Fits]
          grind
        case isFalse =>
          refine (Recognizes.throw _).congr fun w v => ?_
          cases v <;> simp_all [Value.major]
      · rintro b v ⟨_, h, _⟩
        obtain ⟨_, _, ⟨⟩, _⟩ := cbor_lead h
      · intro w v
        constructor
        · rintro ⟨_, _, _, h⟩
          exact h
        · rintro ⟨h, hf⟩
          obtain ⟨b, t, rfl, hb⟩ := cbor_lead h
          exact ⟨b, rfl, hb, h, hf⟩

end Decoder
end Cofferwire.Python
