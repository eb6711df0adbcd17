import Cofferwire.Strict.Decoder
import Cofferwire.Strict.Theorems.Codec

namespace Cofferwire.Strict.Mutable

open Codec (DecodeError)
open MutableReader (Advances run_get_bind)

abbrev Refines (r : Decode α) (p : Codec.Decode α) : Prop :=
  MutableReader.Refines bound r p

theorem byte_run_none (h : c.bytes[c.offset]? = none) :
    byte.run.run c = some (.error (.truncated c.offset), c) := by
  rw [byte, run_get_bind, h]
  rfl

theorem byte_run_some (h : c.bytes[c.offset]? = some b) (hc : c.Within bound) :
    byte.run.run c = some (.ok b, c.advance 1) ∧ (c.advance 1).Valid := by
  have hl : c.offset < c.bytes.length := (List.getElem?_eq_some_iff.mp h).choose
  have ha : add c.offset 1 = some (c.offset + 1) := by
    have hb := hc.bounded
    rw [bound] at hb
    exact add_eq_some (by omega)
  rw [byte, run_get_bind, h, ha]
  exact ⟨rfl, hl⟩

theorem byte_refines : Refines byte Codec.Decoder.byte where
  exists_run c hc := by
    cases hb : c.bytes[c.offset]?
    case none =>
      have hp : Codec.Decoder.byte.run c = .error (.truncated c.offset) := by
        simp only [Codec.Decoder.byte, StateT.run, Reader.item, hb]
      exact ⟨_, 0, byte_run_none hb, hc.valid, hp ▸ .error _ _⟩
    case some b =>
      have hp : Codec.Decoder.byte.run c = .ok (b, c.advance 1) := by
        simp only [Codec.Decoder.byte, StateT.run, Reader.item, hb]
      obtain ⟨hr, hv⟩ := byte_run_some hb hc
      exact ⟨_, 1, hr, hv, hp ▸ .ok b⟩

theorem byteArray_refines (n : Nat) : Refines (byteArray n) (Reader.items n .truncated) := by
  induction n
  case zero      => exact .pure []
  case succ n hi => exact byte_refines.bind fun _ => hi.bind fun _ => .pure _

theorem wide_refines :
    Refines (wide start width minimum) (Codec.Decoder.wide start width minimum) :=
  (byteArray_refines width).bind fun _ => .ite (.throw _ _) (.pure _)

theorem argument_refines :
    Refines (argument major expected) (Codec.Decoder.argument major expected) := by
  refine .get_bind fun c => byte_refines.bind fun initial => .ite (.throw _ _) ?_
  exact .ite (.pure _) <| .ite wide_refines <| .ite wide_refines <| .ite wide_refines <|
    .ite wide_refines (.throw _ _)

-- If the sum with the offset overflows, then the word is too short anyway.
theorem bytes_refines {max : UInt64} :
    Refines (bytes field max) (Codec.Decoder.bytes field max.toNat) := by
  refine argument_refines.bind fun length => ?_
  simp only [gt_iff_lt, UInt64.lt_iff_toNat_lt]
  refine .ite (.throw _ _) ⟨fun c hc => ?_⟩
  have hp : (Reader.take length.toNat DecodeError.truncated).run c =
      if c.offset + length.toNat ≤ c.bytes.length then
        .ok (c.rest.take length.toNat, c.advance length.toNat)
      else
        .error (.truncated c.offset) := rfl
  rw [run_get_bind, hp]
  by_cases hl : c.offset + length.toNat ≤ c.bytes.length
  case pos =>
    have hb := hc.bounded
    rw [bound] at hb
    rw [add_eq_some (by omega), if_pos hl]
    dsimp only
    rw [if_pos ⟨Nat.le_add_right .., hl⟩, slice, Nat.add_sub_cancel_left]
    exact ⟨_, length.toNat, rfl, hl, .ok _⟩
  case neg =>
    rw [if_neg hl]
    by_cases ho : c.offset + length.toNat < 2 ^ 64
    case pos =>
      rw [add_eq_some ho]
      dsimp only
      rw [if_neg (not_and_of_not_right _ hl)]
      exact ⟨_, 0, rfl, hc.valid, .error _ _⟩
    case neg =>
      rw [add, if_neg ho]
      exact ⟨_, 0, rfl, hc.valid, .error _ _⟩

-- Behind the end of the input, a reader fails if it starts with a byte.
theorem byte_bind_run (hv : ¬c.Valid) (f : UInt8 → Decode α) :
    (byte >>= f).run.run c = some (.error (.truncated c.offset), c) := by
  have hb : c.bytes[c.offset]? = none := List.getElem?_eq_none (Nat.le_of_not_le hv)
  rw [ExceptT.run_bind, StateT.run_bind, byte_run_none hb]
  rfl

theorem argument_run (hv : ¬c.Valid) :
    (argument major expected).run.run c = some (.error (.truncated c.offset), c) := by
  rw [argument, run_get_bind, byte_bind_run hv]

theorem bytes_run {max : UInt64} (hv : ¬c.Valid) :
    (bytes field max).run.run c = some (.error (.truncated c.offset), c) := by
  rw [bytes, ExceptT.run_bind, StateT.run_bind, argument_run hv]
  rfl

theorem rest_eq_nil {c : Cursor UInt8} (hv : ¬c.Valid) : c.rest = [] :=
  List.drop_eq_nil_of_le (Nat.le_of_not_le hv)

theorem argument_run_eq_ok (hc : c.bytes.length < bound) (hm : major < 8) :
    (argument major expected).run.run c = some (.ok v, c.advance k) ↔
      k ≤ c.rest.length ∧ c.rest.take k = Codec.encodeArgument major v := by
  by_cases hv : c.Valid
  case pos =>
    rw [argument_refines.run_eq_ok (Codec.Decoder.argument_recognizes hm) ⟨hv, hc⟩]
    constructor
    case mp =>
      rintro ⟨w, rfl, hp, hk⟩
      cases Cursor.advance_inj.mp hk
      exact ⟨hp.length_le, (List.prefix_iff_eq_take.mp hp).symm⟩
    case mpr =>
      rintro ⟨hk, ht⟩
      refine ⟨_, rfl, ht ▸ List.take_prefix _ _, ?_⟩
      rw [←ht, List.length_take_of_le hk]
  case neg =>
    simp [argument_run hv, rest_eq_nil hv, Codec.encodeArgument_ne_nil.symm]

theorem bytes_run_eq_ok {max : UInt64} (hc : c.bytes.length < bound) :
    (bytes field max).run.run c = some (.ok bs, c.advance k) ↔
      bs.length ≤ max.toNat ∧ k ≤ c.rest.length ∧
      ∃ l, k = l + bs.length ∧ c.rest.take l = Codec.encodeArgument 2 (.ofNat bs.length) ∧
        (c.rest.drop l).take bs.length = bs := by
  by_cases hv : c.Valid
  case pos =>
    rw [bytes_refines.run_eq_ok (Codec.Decoder.bytes_recognizes max.toNat_lt) ⟨hv, hc⟩]
    constructor
    case mp =>
      rintro ⟨w, ⟨rfl, hl⟩, hp, hk⟩
      cases Cursor.advance_inj.mp hk
      refine ⟨hl, hp.length_le, (Codec.encodeArgument 2 (.ofNat bs.length)).length, ?_, ?_⟩
      · simp [Codec.encodeBytes]
      · obtain ⟨t, ht⟩ := hp
        simp [←ht, Codec.encodeBytes]
    case mpr =>
      rintro ⟨hl, hk, l, rfl, ht, hd⟩
      have hw : c.rest.take (l + bs.length) = Codec.encodeBytes bs := by
        rw [List.take_add, ht, hd, Codec.encodeBytes]
      refine ⟨_, ⟨rfl, hl⟩, hw ▸ List.take_prefix _ _, ?_⟩
      rw [←hw, List.length_take_of_le hk]
  case neg =>
    simp [bytes_run hv, rest_eq_nil hv, Codec.encodeArgument_ne_nil.symm]

theorem advances_of_valid {r : Decode α} {p : Codec.Decode α} (h : Refines r p)
    (hc : c.bytes.length < bound) (hn : ¬c.Valid → r.run.run c = some (.error e, c)) :
    Advances r c := by
  by_cases hv : c.Valid
  case pos => exact h.advances ⟨hv, hc⟩
  case neg => exact ⟨_, 0, hn hv, fun h => h⟩

-- Each argument has exactly one spelling, and a byte string follows the one of its length.
theorem one_spelling (expected field : String) (max : UInt64) (c : Cursor UInt8)
    (hc : c.bytes.length < 2 ^ 63) :
    (∀ major ∈ [(0 : UInt8), 2, 4], ∀ v k,
      (argument major expected).run.run c = some (.ok v, c.advance k) ↔
        k ≤ c.rest.length ∧ c.rest.take k = Codec.encodeArgument major v) ∧
    (∀ major ∈ [(0 : UInt8), 2, 4], ∀ v rest, c.rest = Codec.encodeArgument major v ++ rest →
      (argument major expected).run.run c =
        some (.ok v, c.advance (Codec.encodeArgument major v).length)) ∧
    (∀ bs k,
      (bytes field max).run.run c = some (.ok bs, c.advance k) ↔
        bs.length ≤ max.toNat ∧ k ≤ c.rest.length ∧
        ∃ l, k = l + bs.length ∧ c.rest.take l = Codec.encodeArgument 2 (.ofNat bs.length) ∧
          (c.rest.drop l).take bs.length = bs) ∧
    Advances byte c ∧ (∀ major, Advances (argument major expected) c) ∧
    Advances (bytes field max) c := by
  have hm : ∀ major ∈ [(0 : UInt8), 2, 4], major < 8 := by
    simp only [List.forall_mem_cons, List.not_mem_nil, false_imp_iff, implies_true, and_true]
    decide
  refine ⟨?_, ?_, ?_, ?_, ?_, ?_⟩
  · exact fun major h v k => argument_run_eq_ok hc (hm major h)
  · intro major h v rest hr
    rw [argument_run_eq_ok hc (hm major h), hr]
    simp
  · exact fun bs k => bytes_run_eq_ok hc
  · refine advances_of_valid byte_refines hc fun hv => byte_run_none ?_
    exact List.getElem?_eq_none (Nat.le_of_not_le hv)
  · exact fun major => advances_of_valid argument_refines hc argument_run
  · exact advances_of_valid bytes_refines hc bytes_run

theorem two_byte_argument_read :
    (argument 0 "ttl").run.run ⟨[0x18, 0x20, 0x18, 0x01], 0⟩ =
      some (.ok 32, ⟨[0x18, 0x20, 0x18, 0x01], 2⟩) :=
  (one_spelling "ttl" "auth" 68 ⟨[0x18, 0x20, 0x18, 0x01], 0⟩ (by decide)).left 0 (by decide) 32 2
    |>.mpr (by decide)

end Cofferwire.Strict.Mutable
