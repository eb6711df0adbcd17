import Cofferwire.Python.Theorems.Codec

namespace Cofferwire.Python

open Reader (Recognizes Raises AgreesUnless)

-- From an item at the beginning of `rest`, which is nested in `level` arrays, the decoder comes to
-- one at the beginning of `rest'`. An array leads to each item whose predecessors are well-formed.
inductive Reaches : (rest : Bytes) → (level : Nat) → (rest' : Bytes) → (level' : Nat) → Prop
  | refl : Reaches rest level rest level
  | step (head : argument 4 n = .ok w) (items : join vs = .ok w') (lt : vs.length < n)
    (reaches : Reaches rest (level + 1) rest' level') : Reaches (w ++ w' ++ rest) level rest' level'

-- There is no room for an item, or not for reading its head if it comes to that.
def Stack.Lacks (stack : Stack) (level : Nat) (rest : Bytes) : Prop :=
  stack.enters level = false ∨ (stack.reads level = false ∧
    ∃ b t, rest = b :: t ∧ (b >>> 5 = 0 ∨ b >>> 5 = 2 ∨ b >>> 5 = 4))

-- The decoder comes to an item for which there is no room.
def Stack.Exhausted (stack : Stack) (level : Nat) (rest : Bytes) : Prop :=
  ∃ rest' level', Reaches rest level rest' level' ∧ stack.Lacks level' rest'

-- The first item of an array which exhausts the stack.
structure Stack.ExhaustedBy (stack : Stack) (level n : Nat) (rest : Bytes) (vs : List Value) : Prop where
  lt        : vs.length < n
  exhausted : ∃ w rest', join vs = .ok w ∧ rest = w ++ rest' ∧ stack.Exhausted level rest'

theorem Stack.exhausted_iff {stack : Stack} :
    stack.Exhausted level rest ↔ stack.Lacks level rest ∨
      ∃ n w rest' vs, argument 4 n = .ok w ∧ rest = w ++ rest' ∧
        stack.ExhaustedBy (level + 1) n rest' vs where
  mp := by
    rintro ⟨_, _, hr, hl⟩
    cases hr
    case refl => exact .inl hl
    case step n w vs w' rest hn hj ht hr =>
      exact .inr ⟨n, w, w' ++ rest, vs, hn, by simp, ht, w', rest, hj, rfl, _, _, hr, hl⟩
  mpr := by
    rintro (h | ⟨n, w, _, vs, hn, rfl, ht, w', rest, hj, rfl, rest', level', hr, hl⟩)
    · exact ⟨_, _, .refl, h⟩
    · rw [←List.append_assoc]
      exact ⟨rest', level', .step hn hj ht hr, hl⟩

namespace Decoder

theorem item_agreesUnless (stack : Stack) (fuel level level' : Nat) :
    AgreesUnless .recursionError (item stack fuel level) (item .unbounded fuel level') := by
  have hc {α} {room} {r r' : Decode α} (h : AgreesUnless .recursionError r r') :
      AgreesUnless .recursionError (call room r) (call true r') := by
    cases room
    case false => exact .throw _
    case true  => exact h
  induction fuel generalizing level level'
  case zero => exact .refl _
  case succ fuel hi =>
    have ha : AgreesUnless .recursionError (array none (item stack fuel (level + 1)))
        (array none (item .unbounded fuel (level' + 1))) :=
      (AgreesUnless.refl _).bind fun n => (AgreesUnless.refl _).ite ((hi _ _).times n)
    refine hc <| (AgreesUnless.refl _).bind fun b => ?_
    exact (hc (.refl _)).ite <| (hc (.refl _)).ite <| (hc (ha.bind fun _ => .refl _)).ite (.refl _)

theorem head_raises : Raises (head major) fun e => ∃ message, e = .valueError message :=
  (Raises.item fun _ => ⟨_, rfl⟩).bind fun _ => (Raises.throw ⟨_, rfl⟩).ite <| (Raises.pure _).ite <|
    (Raises.take (fun _ => ⟨_, rfl⟩) _).bind fun _ => (Raises.throw ⟨_, rfl⟩).ite (.pure _)

theorem byteString_raises : Raises (byteString maximum) fun e => ∃ message, e = .valueError message :=
  head_raises.bind fun _ => (Raises.throw ⟨_, rfl⟩).ite <| .take (fun _ => ⟨_, rfl⟩) _

theorem call_raises {E : Error → Prop} (h : Raises r E) (he : E .recursionError) :
    Raises (call room r) E :=
  h.ite (.throw he)

theorem array_raises {E : Error → Prop} (h : Raises r E) (he : ∀ message, E (.valueError message)) :
    Raises (array length r) E :=
  (head_raises.mono fun _ ⟨_, h⟩ => h ▸ he _).bind fun n => (Raises.throw (he _)).ite (h.times n)

theorem item_raises {E : Error → Prop} (he : ∀ message, E (.valueError message))
    (hr : E .recursionError) : Raises (item stack fuel level) E := by
  induction fuel generalizing level
  case zero => exact .throw (he _)
  case succ fuel hi =>
    have hh : Raises uint E := head_raises.mono fun _ ⟨_, h⟩ => h ▸ he _
    have hb : Raises (byteString maxFrameBytes) E := byteString_raises.mono fun _ ⟨_, h⟩ => h ▸ he _
    have ha : Raises (array none (item stack fuel (level + 1))) E := array_raises hi he
    refine call_raises ((Raises.peek (he _)).bind fun b => ?_) hr
    refine (call_raises (hh.bind fun _ => .pure _) hr).ite ?_
    refine (call_raises (hb.bind fun _ => .pure _) hr).ite ?_
    exact (call_raises (ha.bind fun _ => .pure _) hr).ite (.throw (he _))

theorem times_recursionError (hv : c.Valid) (hl : c.rest.length ≤ fuel) (hm : fuel ≤ maxFrameBytes) :
    (Reader.times n (item stack fuel level)).run c = .error .recursionError ↔
      ∃ vs w rest, vs.length < n ∧ join vs = .ok w ∧ c.rest = w ++ rest ∧
        (item stack fuel level).run (c.advance w.length) = .error .recursionError := by
  constructor
  case mp =>
    intro h
    obtain ⟨i, hi, vs, c', ht, he⟩ := Reader.times_eq_error.mp h
    obtain ⟨w, ⟨rfl, hw⟩, ⟨rest, hp⟩, rfl⟩ := ((item_recognizes ..).times i).run_eq_ok c hv .. |>.mp ht
    exact ⟨vs, w, rest, hi, (words_iff.mp hw).left, hp.symm, he⟩
  case mpr =>
    rintro ⟨vs, w, rest, hn, hj, hp, he⟩
    have hf : ∀ v ∈ vs, v.Fits .unbounded fuel level := by
      intro v hv
      obtain ⟨w', hw, hl'⟩ := exists_cbor_of_mem hj hv
      refine fits_unbounded hw ?_ hm
      rw [hp, List.length_append] at hl
      omega
    have hu := ((item_recognizes .unbounded fuel level).times vs.length).run_eq_ok c hv vs _ |>.mpr
      ⟨w, ⟨rfl, words_iff.mpr ⟨hj, hf⟩⟩, ⟨rest, hp.symm⟩, rfl⟩
    obtain h | h := (item_agreesUnless stack fuel level level).times vs.length c
    · obtain ⟨i, hi, h⟩ := Reader.times_eq_error.mp h
      exact Reader.times_eq_error.mpr ⟨i, by omega, h⟩
    · exact Reader.times_eq_error.mpr ⟨_, hn, vs, _, h.trans hu, he⟩

theorem head_run (hv : c.Valid) (h : argument major n = .ok w) (hm : major < 8) (hp : c.rest = w ++ rest) :
    (head major).run c = .ok (n, c.advance w.length) :=
  (head_recognizes hm).run_eq_ok c hv n _ |>.mpr ⟨w, h, ⟨rest, hp.symm⟩, rfl⟩

theorem array_recursionError (hv : c.Valid) (hl : c.rest.length ≤ fuel) (hm : fuel ≤ maxFrameBytes)
    (hi : ∀ c : Cursor UInt8, c.Valid → c.rest.length < fuel →
      ((item stack fuel level).run c = .error .recursionError ↔ stack.Exhausted level c.rest)) :
    (array length (item stack fuel level)).run c = .error .recursionError ↔
      ∃ n w rest vs, (∀ m ∈ length, n = m) ∧ argument 4 n = .ok w ∧ c.rest = w ++ rest ∧
        stack.ExhaustedBy level n rest vs := by
  have hr {n w rest} (hw : argument 4 n = .ok w) (hp : c.rest = w ++ rest) :
      (array length (item stack fuel level)).run c = .error .recursionError ↔
        (∀ m ∈ length, n = m) ∧ ∃ vs, stack.ExhaustedBy level n rest vs := by
    have ha : (array length (item stack fuel level)).run c =
        (if length.any (n ≠ ·) then throw (.valueError "wrong array length")
          else Reader.times n (item stack fuel level) : Decode _).run (c.advance w.length) := by
      simp only [array, StateT.run_bind, head_run hv hw (by decide) hp]
      rfl
    obtain ⟨b, t, hb, _⟩ := argument_lead (by decide) hw
    have hv' := hv.advance ⟨rest, hp.symm⟩
    have hp' : (c.advance w.length).rest = rest := by rw [Cursor.rest_advance, hp, List.drop_left]
    have hl' : rest.length < fuel := by
      simp only [hp, hb, List.cons_append, List.length_cons, List.length_append] at hl
      omega
    have hi' {w' rest'} (he : rest = w' ++ rest') :
        (item stack fuel level).run ((c.advance w.length).advance w'.length) = .error .recursionError ↔
          stack.Exhausted level rest' := by
      have hr : ((c.advance w.length).advance w'.length).rest = rest' := by
        rw [Cursor.rest_advance, hp', he, List.drop_left]
      refine (hi _ (hv'.advance ⟨rest', hp'.symm ▸ he.symm⟩) ?_).trans (by rw [hr])
      rw [he, List.length_append] at hl'
      rw [hr]
      omega
    rw [ha]
    split
    case isTrue hn =>
      have hn : ¬∀ m ∈ length, n = m := by cases length <;> simp_all
      simp only [hn, false_and, iff_false]
      exact fun h => nomatch h
    case isFalse hn =>
      have hn : ∀ m ∈ length, n = m := by cases length <;> simp_all
      rw [times_recursionError hv' (by rw [hp']; omega) hm]
      refine ⟨fun ⟨vs, w', rest', ht, hj, he, h⟩ => ⟨hn, vs, ht, w', rest', hj, hp' ▸ he, ?_⟩,
        fun ⟨_, vs, ht, w', rest', hj, he, h⟩ => ⟨vs, w', rest', ht, hj, hp'.trans he, ?_⟩⟩
      · exact (hi' (hp' ▸ he)).mp h
      · exact (hi' he).mpr h
  constructor
  case mp =>
    intro h
    cases hh : (head 4).run c
    case error e =>
      obtain ⟨_, rfl⟩ := head_raises.run_eq_error c e hh
      rw [array, StateT.run_bind, hh] at h
      cases h
    case ok result =>
      obtain ⟨w, hw, ⟨rest, hp⟩, _⟩ := (head_recognizes (by decide)).run_eq_ok c hv .. |>.mp hh
      obtain ⟨hn, vs, he⟩ := (hr hw hp.symm).mp h
      exact ⟨_, w, rest, vs, hn, hw, hp.symm, he⟩
  case mpr =>
    rintro ⟨n, w, rest, vs, hn, hw, hp, he⟩
    exact (hr hw hp).mpr ⟨hn, vs, he⟩

theorem item_recursionError (hv : c.Valid) (hl : c.rest.length < fuel) (hm : fuel ≤ maxFrameBytes) :
    (item stack fuel level).run c = .error .recursionError ↔ stack.Exhausted level c.rest := by
  induction fuel generalizing level c
  case zero => contradiction
  case succ fuel hi =>
    rw [Stack.exhausted_iff, item]
    cases he : stack.enters level
    case false => exact iff_of_true rfl (.inl (.inl he))
    case true =>
      simp only [call, if_true, StateT.run_bind, Reader.peek_run, Stack.Lacks, he, Bool.true_eq_false,
        false_or]
      cases hr : c.rest
      case nil =>
        refine iff_of_false (by rintro ⟨⟩) ?_
        rintro (⟨_, _, _, ⟨⟩, _⟩ | ⟨_, _, _, _, hw, he, _⟩)
        obtain ⟨_, _, rfl, _⟩ := argument_lead (by decide) hw
        contradiction
      case cons b t =>
        have hs : (∃ n w rest' vs, argument 4 n = .ok w ∧ b :: t = w ++ rest' ∧
            stack.ExhaustedBy (level + 1) n rest' vs) → b >>> 5 = 4 := by
          rintro ⟨_, _, _, _, hw, he, _⟩
          obtain ⟨_, _, rfl, hb⟩ := argument_lead (by decide) hw
          cases he
          exact hb
        have hn {α} {r : Decode α} (h : Raises r fun e => ∃ message, e = .valueError message) :
            r.run c ≠ .error .recursionError := by
          intro he
          obtain ⟨_, ⟨⟩⟩ := h.run_eq_error c _ he
        have hl' : (∃ b' t', b :: t = b' :: t' ∧ (b' >>> 5 = 0 ∨ b' >>> 5 = 2 ∨ b' >>> 5 = 4)) ↔
            b >>> 5 = 0 ∨ b >>> 5 = 2 ∨ b >>> 5 = 4 := by
          simp
        simp only [List.head?_cons, Option.elim_some, Except.ok_bind, hl']
        split
        case isTrue hb =>
          split
          case isFalse h => exact iff_of_true rfl (.inl ⟨by simpa using h, .inl hb⟩)
          case isTrue h =>
            refine iff_of_false (hn (head_raises.bind fun _ => .pure _)) ?_
            rintro (⟨h', _⟩ | h')
            · simp [h] at h'
            · exact absurd (hb.symm.trans (hs h')) (by decide)
        split
        case isTrue hb =>
          split
          case isFalse h => exact iff_of_true rfl (.inl ⟨by simpa using h, .inr (.inl hb)⟩)
          case isTrue h =>
            refine iff_of_false (hn (byteString_raises.bind fun _ => .pure _)) ?_
            rintro (⟨h', _⟩ | h')
            · simp [h] at h'
            · exact absurd (hb.symm.trans (hs h')) (by decide)
        split
        case isTrue hb =>
          split
          case isFalse h => exact iff_of_true rfl (.inl ⟨by simpa using h, .inr (.inr hb)⟩)
          case isTrue h =>
            have ha : (array none (item stack fuel (level + 1))).run c = _ ↔ _ :=
              array_recursionError hv (Nat.le_of_lt_succ hl) (by omega) fun c hv hl => hi hv hl (by omega)
            simp only [h, Bool.true_eq_false, false_and, false_or]
            refine (Reader.map_eq_error.trans ha).trans ?_
            simp [hr]
        case isFalse h₀ h₂ h₄ =>
          refine iff_of_false (by rintro ⟨⟩) ?_
          rintro (⟨_, h | h | h⟩ | h)
          · exact h₀ h
          · exact h₂ h
          · exact h₄ h
          · exact h₄ (hs h)

end Decoder

-- The exceptions which stand for a status.
inductive Refusal : Error → Status → Prop
  | unsupportedVersion : Refusal (.protocolError Code.unsupportedVersion) .unsupportedVersion
  | frameTooLarge      : Refusal (.protocolError Code.frameTooLarge) .frameTooLarge
  | unknownCommand     : Refusal (.protocolError Code.unknownCommand) .unknownCommand
  | authInvalid        : Refusal (.protocolError Code.authInvalid) .authInvalid
  | malformedFrame     : Refusal (.valueError message) .malformedFrame

theorem discriminate_eq_error (h : discriminate payload = .error e) :
    ∃ message, e = .valueError message := by
  unfold discriminate at h
  split at h <;> cases h
  exact ⟨_, rfl⟩

-- One of the three items of a request exhausts the stack.
def Stack.ExhaustedByRequest (stack : Stack) (frame : Bytes) : Prop :=
  frame.length ≤ maxFrameBytes ∧ ∃ requestId w rest vs,
    argument 4 3 = .ok w ∧ frame = preamble requestId ++ (w ++ rest) ∧ stack.ExhaustedBy 0 3 rest vs

theorem exhaustedByRequest_iff {stack : Stack} :
    stack.ExhaustedByRequest frame ↔ frame.length ≤ maxFrameBytes ∧ 17 ≤ frame.length ∧
      frame.head? = some version ∧
      (Decoder.array (some 3) (Decoder.item stack frame.length 0)).run ⟨frame, 17⟩ =
        .error .recursionError := by
  refine and_congr_right fun hm => ?_
  have hr (hl : 17 ≤ frame.length) :
      (Decoder.array (some 3) (Decoder.item stack frame.length 0)).run ⟨frame, 17⟩ = _ ↔ _ :=
    Decoder.array_recursionError hl (by simp [Cursor.rest]) hm fun c hv hl =>
      Decoder.item_recursionError hv hl hm
  constructor
  case mp =>
    rintro ⟨requestId, w, rest, vs, hw, hf, he⟩
    have hl : 17 ≤ frame.length := by
      simp only [hf, List.length_append, preamble_length]
      omega
    refine ⟨hl, by rw [hf]; rfl, (hr hl).mpr ⟨3, w, rest, vs, by simp, hw, ?_, he⟩⟩
    simp only [Cursor.rest, hf, drop_preamble]
  case mpr =>
    rintro ⟨hl, hv, h⟩
    obtain ⟨n, w, rest, vs, hn, hw, hf, he⟩ := (hr hl).mp h
    obtain rfl := hn 3 rfl
    refine ⟨⟨slice frame 1 17, slice_length hl⟩, w, rest, vs, hw, ?_, he⟩
    exact (eq_preamble hl hv rfl).trans (congrArg _ hf)

-- Decoding fails for lack of room or for a reason which stands for a status.
theorem decodeRequest_eq_error (h : decodeRequest stack frame = .error e) :
    (e = .recursionError ∧ stack.ExhaustedByRequest frame) ∨ ∃ status, Refusal e status := by
  have hv {e} (h : ∃ message, e = Error.valueError message) : ∃ status, Refusal e status := by
    obtain ⟨_, rfl⟩ := h
    exact ⟨_, .malformedFrame⟩
  simp only [decodeRequest, Except.ite_error_eq_error, Except.dite_error_eq_error, Except.bind_eq_error,
    Prod.exists, ne_eq, not_not, Nat.not_lt] at h
  obtain ⟨_, rfl⟩ | ⟨hm, ⟨_, rfl⟩ | ⟨hl, ⟨_, rfl⟩ | ⟨hv', h⟩⟩⟩ := h
  · exact .inr ⟨_, .frameTooLarge⟩
  · exact .inr ⟨_, .malformedFrame⟩
  · exact .inr ⟨_, .unsupportedVersion⟩
  · obtain h | ⟨payload, c, _, h | ⟨command, body, _, h | ⟨body', _, h | ⟨auth, c', _, ⟨_, rfl⟩ |
      ⟨_, ⟨⟩⟩⟩⟩⟩⟩ := h
    · have hi : Reader.Raises (Decoder.array (some 3) (Decoder.item stack frame.length 0)) fun e =>
          e = .recursionError ∨ ∃ message, e = .valueError message :=
        Decoder.array_raises (Decoder.item_raises (fun m => .inr ⟨m, rfl⟩) (.inl rfl))
          fun m => .inr ⟨m, rfl⟩
      obtain rfl | he := hi.run_eq_error _ _ h
      · exact .inl ⟨rfl, exhaustedByRequest_iff.mpr ⟨hm, hl, hv', h⟩⟩
      · exact .inr (hv he)
    · exact .inr (hv (discriminate_eq_error h))
    · obtain rfl | h := validateBody_eq_error h
      · exact .inr ⟨_, .unknownCommand⟩
      · exact .inr (hv h)
    · exact .inr (hv (Decoder.byteString_raises.run_eq_error _ _ h))
    · exact .inr ⟨_, .malformedFrame⟩

theorem decodeRequest_exhausted {stack : Stack} (h : stack.ExhaustedByRequest frame) :
    decodeRequest stack frame = .error .recursionError := by
  obtain ⟨hm, hl, hv, h⟩ := exhaustedByRequest_iff.mp h
  simp only [decodeRequest, Nat.not_lt.mpr hm, Nat.not_lt.mpr hl, hv, h, if_false, dite_false, ne_eq,
    not_true_eq_false]
  rfl

end Cofferwire.Python
