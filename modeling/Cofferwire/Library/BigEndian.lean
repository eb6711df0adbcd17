import Mathlib.Data.List.Basic
import Mathlib.Tactic.Ring

namespace BigEndian

-- The `w` low-order base-256 digits of `n`, most significant digit first.
def encode : (w n : Nat) → List UInt8
  | 0,     _ => []
  | w + 1, n => .ofNat (n / 256 ^ w) :: encode w n

def decode : List UInt8 → Nat
  | []      => 0
  | b :: bs => b.toNat * 256 ^ bs.length + decode bs

@[simp]
theorem encode_length : (w n : Nat) → (encode w n).length = w
  | 0,     _ => rfl
  | w + 1, n => by simp [encode, encode_length w n]

theorem decode_lt (bs : List UInt8) : decode bs < 256 ^ bs.length := by
  induction bs
  case nil => simp [decode]
  case cons b bs hi =>
    have hb := b.toNat_lt
    have hm : (b.toNat + 1) * 256 ^ bs.length ≤ 256 * 256 ^ bs.length :=
      Nat.mul_le_mul_right _ (by omega)
    simp only [decode, List.length_cons, Nat.pow_succ]
    rw [Nat.add_mul] at hm
    omega

theorem decode_encode_mod (w n : Nat) : decode (encode w n) = n % 256 ^ w := by
  induction w
  case zero => simp [encode, decode, Nat.mod_one]
  case succ w hi =>
    simp only [encode, decode, hi, encode_length, UInt8.toNat_ofNat']
    rw [Nat.mod_pow_succ (x := n) (b := 256) (k := w), Nat.add_comm, Nat.mul_comm]

theorem decode_encode {w n : Nat} (h : n < 256 ^ w) : decode (encode w n) = n := by
  rw [decode_encode_mod, Nat.mod_eq_of_lt h]

theorem encode_inj (ha : a < 256 ^ w) (hb : b < 256 ^ w) (h : encode w a = encode w b) : a = b := by
  rw [←decode_encode ha, h, decode_encode hb]

-- Digits above position `w` do not show in a `w`-digit encoding.
theorem encode_add_mul (w m k : Nat) : encode w (m * 256 ^ (w + k) + n) = encode w n := by
  induction w generalizing k
  case zero => rfl
  case succ w hi =>
    have hd : (m * 256 ^ (w + 1 + k) + n) / 256 ^ w = n / 256 ^ w + 256 * (m * 256 ^ k) := by
      rw [show m * 256 ^ (w + 1 + k) = 256 ^ w * (256 * (m * 256 ^ k)) by ring,
        Nat.add_comm, Nat.add_mul_div_left _ _ (Nat.pow_pos (by decide))]
    have hd' : UInt8.ofNat ((m * 256 ^ (w + 1 + k) + n) / 256 ^ w) = .ofNat (n / 256 ^ w) := by
      apply UInt8.toNat_inj.mp
      simp only [UInt8.toNat_ofNat', hd]
      omega
    rw [encode, encode, hd', show w + 1 + k = w + (1 + k) by omega, hi]

theorem encode_decode (bs : List UInt8) : encode bs.length (decode bs) = bs := by
  induction bs
  case nil => rfl
  case cons b bs hi =>
    have hd : (b.toNat * 256 ^ bs.length + decode bs) / 256 ^ bs.length = b.toNat := by
      rw [Nat.add_comm, Nat.add_mul_div_right _ _ (Nat.pow_pos (by decide)),
        Nat.div_eq_of_lt (decode_lt bs), Nat.zero_add]
    have ht := encode_add_mul (n := decode bs) bs.length b.toNat 0
    simp only [Nat.add_zero, hi] at ht
    simp [encode, decode, hd, ht]

theorem eq_encode_iff (h : n < 256 ^ w) : bs = encode w n ↔ bs.length = w ∧ decode bs = n where
  mp := by
    rintro rfl
    exact ⟨encode_length .., decode_encode h⟩
  mpr := by
    rintro ⟨rfl, rfl⟩
    exact encode_decode bs |>.symm

-- Comparing equally long byte strings byte by byte is comparing the numbers that they encode.
theorem le_iff_decode_le {bs₁ bs₂ : List UInt8} (hl : bs₁.length = bs₂.length) :
    bs₁ ≤ bs₂ ↔ decode bs₁ ≤ decode bs₂ := by
  induction bs₁ generalizing bs₂ <;> cases bs₂ <;> simp at hl
  case nil.nil => simp [decode]
  case cons.cons b₁ bs₁ hi b₂ bs₂ =>
    have h₁ := decode_lt bs₁
    have h₂ := hl ▸ decode_lt bs₂
    rw [List.cons_le_cons_iff, hi hl, UInt8.lt_iff_toNat_lt, ←UInt8.toNat_inj]
    simp only [decode, hl] at h₁ h₂ ⊢
    generalize 256 ^ bs₂.length = p at *
    rcases Nat.lt_trichotomy b₁.toNat b₂.toNat with h | h | h
    case inl =>
      have := Nat.mul_le_mul_right p (Nat.succ_le_of_lt h)
      rw [Nat.succ_mul] at this
      simp only [h, true_or, true_iff]
      omega
    case inr.inl => simp [h]
    case inr.inr =>
      have := Nat.mul_le_mul_right p (Nat.succ_le_of_lt h)
      rw [Nat.succ_mul] at this
      omega

end BigEndian
