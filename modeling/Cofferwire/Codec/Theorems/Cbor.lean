import Cofferwire.Codec.Cbor

namespace Cofferwire.Codec

open Reader (Recognizes)

-- A lead byte consists of the major type in its upper three and the argument in its lower five bits.
theorem lead_iff {b major x : UInt8} (hm : major < 8) (hx : x < 32) :
    (b >>> 5 = major ∧ b &&& 0x1f = x) ↔ b = major <<< 5 ||| x := by
  have hd : b.toNat >>> 5 = b.toNat / 32 := Nat.shiftRight_eq_div_pow ..
  have hr : b.toNat &&& 31 = b.toNat % 32 := Nat.and_two_pow_sub_one_eq_mod _ 5
  have hs : major.toNat <<< 5 = 32 * major.toNat := by rw [Nat.shiftLeft_eq, Nat.mul_comm]
  have hl : 32 * major.toNat ||| x.toNat = 32 * major.toNat + x.toNat :=
    Nat.two_pow_add_eq_or_of_lt (i := 5) hx major.toNat |>.symm
  simp only [UInt8.lt_iff_toNat_lt, UInt8.reduceToNat] at hm hx
  simp only [←UInt8.toNat_inj, UInt8.toNat_shiftRight, UInt8.toNat_and, UInt8.toNat_or,
    UInt8.toNat_shiftLeft, UInt8.reduceToNat, Nat.reduceMod, hd, hr, hs]
  rw [Nat.mod_eq_of_lt (a := 32 * major.toNat) (by omega), hl]
  omega

-- A word of `width` bytes is the encoding of the number which it denotes.
theorem ofNat_decode_iff {bs : Bytes} {v : UInt64} (hw : width ≤ 8) :
    (bs.length = width ∧ UInt64.ofNat (BigEndian.decode bs) = v) ↔
      (bs = BigEndian.encode width v.toNat ∧ v.toNat < 256 ^ width) where
  mp := by
    rintro ⟨rfl, rfl⟩
    have hp : 256 ^ bs.length ≤ 256 ^ 8 := Nat.pow_le_pow_right (by decide) hw
    have hl := BigEndian.decode_lt bs
    have hm : BigEndian.decode bs % 2 ^ 64 = BigEndian.decode bs := Nat.mod_eq_of_lt (by omega)
    rw [UInt64.toNat_ofNat', hm, BigEndian.encode_decode]
    exact ⟨rfl, hl⟩
  mpr := by
    rintro ⟨rfl, hl⟩
    rw [BigEndian.decode_encode hl]
    simp

-- The ways of spelling an argument `v`: by the additional information `x` of the lead byte and the
-- bytes `w` that follow it.
def Spells (x : UInt8) (w : Bytes) (v : UInt64) : Prop :=
  (x ≤ 23 ∧ w = [] ∧ v = x.toUInt64) ∨
  (x = 24 ∧ w = BigEndian.encode 1 v.toNat ∧ v.toNat < 256 ^ 1 ∧ 24 ≤ v) ∨
  (x = 25 ∧ w = BigEndian.encode 2 v.toNat ∧ v.toNat < 256 ^ 2 ∧ 256 ≤ v) ∨
  (x = 26 ∧ w = BigEndian.encode 4 v.toNat ∧ v.toNat < 256 ^ 4 ∧ 65536 ≤ v) ∨
  (x = 27 ∧ w = BigEndian.encode 8 v.toNat ∧ v.toNat < 256 ^ 8 ∧ 4294967296 ≤ v)

theorem Spells.lt (h : Spells x w v) : x < 32 := by
  rcases h with ⟨h, _⟩ | ⟨rfl, _⟩ | ⟨rfl, _⟩ | ⟨rfl, _⟩ | ⟨rfl, _⟩
  case inl => exact UInt8.lt_of_le_of_lt h (by decide)
  all_goals decide

theorem encodeArgument_iff :
    w = encodeArgument major v ↔ ∃ x t, Spells x t v ∧ w = (major <<< 5 ||| x) :: t where
  mp := by
    rintro rfl
    have hv := v.toNat_lt
    simp only [encodeArgument, UInt64.le_iff_toNat_le, UInt64.reduceToNat]
    split
    case isTrue h =>
      refine ⟨v.toUInt8, [], .inl ⟨?_, rfl, ?_⟩, rfl⟩
      · simp only [UInt8.le_iff_toNat_le, UInt64.toNat_toUInt8, UInt8.reduceToNat]
        omega
      · simp only [←UInt64.toNat_inj, UInt8.toNat_toUInt64, UInt64.toNat_toUInt8]
        omega
    split <;> try split <;> try split
    all_goals
      refine ⟨_, _, ?_, rfl⟩
      simp only [Spells, UInt64.le_iff_toNat_le, UInt64.reduceToNat, true_and]
      simp
      omega
  mpr := by
    rintro ⟨x, t, h, rfl⟩
    simp only [Spells, UInt64.le_iff_toNat_le, UInt64.reduceToNat] at h
    simp only [encodeArgument, UInt64.le_iff_toNat_le, UInt64.reduceToNat]
    rcases h with ⟨h, rfl, rfl⟩ | ⟨rfl, rfl, h⟩ | ⟨rfl, rfl, h⟩ | ⟨rfl, rfl, h⟩ | ⟨rfl, rfl, h⟩
    case inl =>
      rw [UInt8.le_iff_toNat_le] at h
      simp_all
    all_goals
      repeat rw [if_neg (by omega)]
      try rw [if_pos (by omega)]

theorem encodeArgument_ne_nil : encodeArgument major v ≠ [] := by
  obtain ⟨x, t, _, h⟩ := encodeArgument_iff.mp (rfl : encodeArgument major v = _)
  simp [h]

namespace Decoder

theorem byte_recognizes : Recognizes byte fun w b => w = [b] :=
  .item _

theorem wide_recognizes (hw : width ≤ 8) :
    Recognizes (wide start width minimum) fun w v =>
      w = BigEndian.encode width v.toNat ∧ v.toNat < 256 ^ width ∧ minimum ≤ v := by
  unfold wide
  refine ((Recognizes.items ..).bind fun bs => (Recognizes.throw _).ite (.pure _)).congr ?_
  intro w v
  rw [←and_assoc, ←ofNat_decode_iff hw]
  simp only [and_false, false_or]
  constructor
  case mp =>
    rintro ⟨_, bs, _, ⟨rfl, hl⟩, ⟨hm, rfl, rfl⟩, rfl⟩
    simpa using ⟨hl, UInt64.not_lt.mp hm⟩
  case mpr =>
    rintro ⟨⟨hl, rfl⟩, hm⟩
    exact ⟨w, w, [], ⟨rfl, hl⟩, ⟨UInt64.not_lt.mpr hm, rfl, rfl⟩, by simp⟩

theorem argument_recognizes (hm : major < 8) :
    Recognizes (argument major expected) fun w v => w = encodeArgument major v := by
  refine Recognizes.congr (L := fun w v => ∃ (w₁ : Bytes) (b : UInt8) (w₂ : Bytes),
    w₁ = [b] ∧ (b >>> 5 = major ∧ Spells (b &&& 0x1f) w₂ v) ∧ w = w₁ ++ w₂)
    (.get_bind fun c => byte_recognizes.bind fun b => ?_) ?_
  · split
    case isTrue h => exact (Recognizes.throw _).congr <| by simp_all
    case isFalse h =>
      have h : b >>> 5 = major := by simpa using h
      simp only [Spells, h, true_and]
      generalize b &&& 0x1f = x
      split
      case isTrue hx =>
        apply (Recognizes.pure _).congr
        intro w v
        have : x ≠ 24 ∧ x ≠ 25 ∧ x ≠ 26 ∧ x ≠ 27 := by
          refine ⟨?_, ?_, ?_, ?_⟩ <;> rintro rfl <;> revert hx <;> decide
        simp [hx, this]
      split <;> try split <;> try split <;> try split
      all_goals
        try subst ‹_ = _›
        first
          | exact (wide_recognizes (by decide)).congr <| by simp
          | exact (Recognizes.throw _).congr <| by simp_all
  · intro w v
    rw [encodeArgument_iff]
    constructor
    case mp =>
      rintro ⟨_, b, t, rfl, ⟨h₁, h₂⟩, rfl⟩
      refine ⟨_, t, h₂, ?_⟩
      rw [←lead_iff hm h₂.lt |>.mp ⟨h₁, rfl⟩]
      rfl
    case mpr =>
      rintro ⟨x, t, h, rfl⟩
      have ⟨h₁, h₂⟩ := lead_iff hm h.lt |>.mpr rfl
      exact ⟨_, _, t, rfl, ⟨h₁, h₂.symm ▸ h⟩, rfl⟩

theorem unsigned_recognizes : Recognizes (unsigned field) fun w v => w = encodeUnsigned v :=
  argument_recognizes (by decide)

theorem arrayLength_recognizes : Recognizes arrayLength fun w v => w = encodeArray v :=
  argument_recognizes (by decide)

theorem array_recognizes : Recognizes (array field n) fun w _ => w = encodeArray n := by
  unfold array
  refine (arrayLength_recognizes.bind fun m => (Recognizes.throw _).ite (.pure ())).congr ?_
  simp

theorem bytes_recognizes {max : Nat} (hm : max < 2 ^ 64) :
    Recognizes (bytes field max) fun w bs => w = encodeBytes bs ∧ bs.length ≤ max := by
  unfold bytes
  refine ((argument_recognizes (by decide)).bind fun n =>
    (Recognizes.throw _).ite (.take n.toNat _)).congr ?_
  intro w bs
  constructor
  case mp =>
    rintro ⟨_, n, _, rfl, h, rfl⟩
    obtain ⟨_, h⟩ | ⟨hn, rfl, hl⟩ := h
    · contradiction
    · simp [encodeBytes, hl]
      omega
  case mpr =>
    rintro ⟨rfl, hl⟩
    have hn : (UInt64.ofNat bs.length).toNat = bs.length := by
      rw [UInt64.toNat_ofNat']
      omega
    exact ⟨_, _, _, rfl, .inr ⟨by omega, rfl, hn.symm⟩, rfl⟩

end Decoder

theorem validate_recognizes {x : Except TypeError α} :
    Recognizes (validate x) fun w a => w = [] ∧ x = .ok a :=
  (Recognizes.lift _).congr <| by simp [Except.mapError_eq_ok]

-- An argument takes up to nine bytes, less for smaller values.
theorem encodeArgument_length_le : (encodeArgument major v).length ≤ 9 := by
  simp only [encodeArgument]
  split <;> try split <;> try split <;> try split
  all_goals simp

theorem encodeArgument_length_le_three (h : v.toNat < 65536) :
    (encodeArgument major v).length ≤ 3 := by
  simp only [encodeArgument, UInt64.le_iff_toNat_le, UInt64.reduceToNat]
  split <;> try split <;> try split <;> try split
  all_goals first | omega | simp

theorem encodeUnsigned_length_le : (encodeUnsigned v).length ≤ 9 :=
  encodeArgument_length_le

theorem encodeArray_length_le : (encodeArray v).length ≤ 9 :=
  encodeArgument_length_le

theorem encodeBytes_length_le_add (bs : Bytes) : (encodeBytes bs).length ≤ 9 + bs.length := by
  rw [encodeBytes, List.length_append]
  exact Nat.add_le_add_right encodeArgument_length_le _

theorem encodeBytes_length_le {max : Nat} (hl : bs.length ≤ max) (hm : max < 65536) :
    (encodeBytes bs).length ≤ 3 + max := by
  have hn : (UInt64.ofNat bs.length).toNat < 65536 := by
    rw [UInt64.toNat_ofNat']
    omega
  have : (encodeArgument 2 _).length ≤ 3 := encodeArgument_length_le_three hn
  rw [encodeBytes, List.length_append]
  omega

end Cofferwire.Codec
