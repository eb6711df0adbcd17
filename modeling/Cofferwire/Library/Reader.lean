import Cofferwire.Library.Except
import Mathlib.Data.List.Infix

-- A position in an input word.
structure Cursor (β : Type) where
  bytes  : List β
  offset : Nat

namespace Cursor

variable {c : Cursor β}

def rest (c : Cursor β) : List β :=
  c.bytes.drop c.offset

def advance (c : Cursor β) (n : Nat) : Cursor β :=
  { c with offset := c.offset + n }

-- The position lies within the word, where its end still counts as within.
def Valid (c : Cursor β) : Prop :=
  c.offset ≤ c.bytes.length

@[simp]
theorem advance_zero : c.advance 0 = c := rfl

theorem advance_advance : (c.advance m).advance n = c.advance (m + n) := by
  simp [advance, Nat.add_assoc]

theorem advance_inj : c.advance m = c.advance n ↔ m = n := by
  simp [advance]

theorem rest_advance : (c.advance n).rest = c.rest.drop n := by
  simp [rest, advance, Nat.add_comm]

theorem Valid.advance (hv : c.Valid) (h : w <+: c.rest) : (c.advance w.length).Valid := by
  have hl := h.length_le
  simp only [Valid, rest, List.length_drop, Cursor.advance] at *
  omega

end Cursor

abbrev Reader (ε β α : Type) :=
  StateT (Cursor β) (Except ε) α

namespace Reader

-- The next item of the input.
def item (truncated : Nat → ε) : Reader ε β β := fun c =>
  match c.bytes[c.offset]? with
  | some b => .ok (b, c.advance 1)
  | none   => .error (truncated c.offset)

-- The next `n` items of the input, read one by one.
def items (n : Nat) (truncated : Nat → ε) : Reader ε β (List β) :=
  match n with
  | 0     => return []
  | n + 1 => return (← item truncated) :: (← items n truncated)

-- The next `n` items of the input, read at once.
def take (n : Nat) (truncated : Nat → ε) : Reader ε β (List β) := fun c =>
  if c.offset + n ≤ c.bytes.length then
    .ok (c.rest.take n, c.advance n)
  else
    .error (truncated c.offset)

-- The next item of the input, which remains to be read.
def peek (truncated : ε) : Reader ε β β := fun c =>
  match c.bytes[c.offset]? with
  | some b => .ok (b, c)
  | none   => .error truncated

theorem peek_run {truncated : ε} {c : Cursor β} :
    (peek truncated).run c = c.rest.head?.elim (.error truncated) fun b => .ok (b, c) := by
  simp only [StateT.run, peek, Cursor.rest, List.head?_drop]
  split <;> simp [*]

-- Runs a reader `n` times in a row.
def times (n : Nat) (r : Reader ε β α) : Reader ε β (List α) :=
  match n with
  | 0     => return []
  | n + 1 => return (← r) :: (← times n r)

-- The words which consist of words for each of the values.
def Words (L : List β → α → Prop) (w : List β) : List α → Prop
  | []      => w = []
  | a :: as => ∃ w₁ w₂, L w₁ a ∧ Words L w₂ as ∧ w = w₁ ++ w₂

-- A reader recognizes a language if it succeeds exactly when a word of the language comes next, it
-- then consumes that word and returns the value which the language assigns to it.
structure Recognizes (r : Reader ε β α) (L : List β → α → Prop) : Prop where
  run_eq_ok (c : Cursor β) (hv : c.Valid) (a : α) (c' : Cursor β) :
    r.run c = .ok (a, c') ↔ ∃ w, L w a ∧ w <+: c.rest ∧ c' = c.advance w.length

namespace Recognizes

variable {r : Reader ε β α} {L L' : List β → α → Prop}

theorem congr (h : Recognizes r L) (hl : ∀ w a, L w a ↔ L' w a) : Recognizes r L' := by
  constructor
  intro c hv a c'
  simp only [h.run_eq_ok c hv a c', hl]

theorem pure (a : α) : Recognizes (ε := ε) (Pure.pure a) fun (w : List β) b => w = [] ∧ b = a := by
  constructor
  intro c hv b c'
  constructor
  case mp =>
    rintro ⟨rfl, rfl⟩
    exact ⟨[], ⟨rfl, rfl⟩, List.nil_prefix, rfl⟩
  case mpr =>
    rintro ⟨_, ⟨rfl, rfl⟩, _, rfl⟩
    rfl

theorem throw (e : ε) : Recognizes (throw e : Reader ε β α) fun _ _ => False := by
  constructor
  intro c hv a c'
  simp [MonadExcept.throw, throwThe, MonadExceptOf.throw, StateT.run, StateT.lift]

-- Words of consecutive readers follow each other.
theorem bind {f : α → Reader ε β γ} {M : α → List β → γ → Prop}
    (h : Recognizes r L) (hf : ∀ a, Recognizes (f a) (M a)) :
    Recognizes (r >>= f) fun w b => ∃ w₁ a w₂, L w₁ a ∧ M a w₂ b ∧ w = w₁ ++ w₂ := by
  constructor
  intro c hv b c''
  simp only [StateT.run_bind, Except.bind_eq_ok, Prod.exists]
  constructor
  case mp =>
    rintro ⟨a, c', h₁, h₂⟩
    have ⟨w₁, hw₁, hp₁, hc₁⟩ := (h.run_eq_ok c hv ..).mp h₁
    subst hc₁
    have ⟨w₂, hw₂, hp₂, hc₂⟩ := ((hf a).run_eq_ok _ (hv.advance hp₁) ..).mp h₂
    have ⟨t, ht⟩ := hp₁
    simp only [Cursor.rest_advance, ←ht, List.drop_left] at hp₂
    refine ⟨_, ⟨w₁, a, w₂, hw₁, hw₂, rfl⟩, ?_, ?_⟩
    · rw [←ht]
      exact List.prefix_append_right_inj w₁ |>.mpr hp₂
    · rw [hc₂, Cursor.advance_advance, List.length_append]
  case mpr =>
    rintro ⟨_, ⟨w₁, a, w₂, hw₁, hw₂, rfl⟩, ⟨t, ht⟩, rfl⟩
    have hp₁ : w₁ <+: c.rest := ⟨w₂ ++ t, by simp [←ht]⟩
    refine ⟨a, c.advance w₁.length, (h.run_eq_ok c hv ..).mpr ⟨w₁, hw₁, hp₁, rfl⟩, ?_⟩
    refine ((hf a).run_eq_ok _ (hv.advance hp₁) ..).mpr ⟨w₂, hw₂, ?_, ?_⟩
    · exact ⟨t, by simp [Cursor.rest_advance, ←ht]⟩
    · rw [Cursor.advance_advance, List.length_append]

theorem map (f : α → γ) (h : Recognizes r L) :
    Recognizes (r >>= fun a => Pure.pure (f a)) fun w b => ∃ a, L w a ∧ b = f a := by
  apply (h.bind fun a => pure (f a)).congr
  intro w b
  constructor
  case mp =>
    rintro ⟨w, a, _, hw, ⟨rfl, rfl⟩, rfl⟩
    exact ⟨a, by simpa using hw, rfl⟩
  case mpr =>
    rintro ⟨a, hw, rfl⟩
    exact ⟨w, a, [], hw, ⟨rfl, rfl⟩, by simp⟩

theorem lift (x : Except ε α) :
    Recognizes (liftM x : Reader ε β α) fun w a => w = [] ∧ x = .ok a := by
  cases x
  case ok a =>
    apply (pure a).congr
    simp [eq_comm]
  case error e =>
    apply (throw e).congr
    simp

-- An optional value which a reader cannot do without.
theorem elim (o : Option α) (e : ε) :
    Recognizes (o.elim (MonadExcept.throw e) Pure.pure : Reader ε β α) fun w a => w = [] ∧ o = some a := by
  cases o
  case none =>
    apply (throw e).congr
    simp
  case some a =>
    apply (pure a).congr
    simp [eq_comm]

-- A reader may look at its position as long as this does not affect the language.
theorem get_bind {f : Cursor β → Reader ε β α} (h : ∀ c, Recognizes (f c) L) :
    Recognizes (get >>= f) L where
  run_eq_ok c := (h c).run_eq_ok c

theorem ite {p : Prop} [Decidable p] {r' : Reader ε β α} (h : Recognizes r L)
    (h' : Recognizes r' L') :
    Recognizes (if p then r else r') fun w a => (p ∧ L w a) ∨ (¬p ∧ L' w a) := by
  by_cases hp : p
  case pos => simpa [hp] using h
  case neg => simpa [hp] using h'

theorem item (truncated : Nat → ε) :
    Recognizes (Reader.item truncated) fun w (b : β) => w = [b] := by
  constructor
  intro c hv b c'
  simp only [StateT.run, Reader.item, Cursor.rest]
  constructor
  case mp =>
    intro h
    split at h <;> simp at h
    case _ b' hb =>
      have ⟨hl, he⟩ := List.getElem?_eq_some_iff.mp hb
      refine ⟨[b], rfl, ?_, h.right.symm⟩
      rw [List.drop_eq_getElem_cons hl, he, h.left]
      exact ⟨_, rfl⟩
  case mpr =>
    rintro ⟨_, rfl, ⟨t, ht⟩, rfl⟩
    have hb : c.bytes[c.offset]? = some b := by
      rw [←List.head?_drop, ←ht]
      rfl
    simp [hb]

theorem items (n : Nat) (truncated : Nat → ε) :
    Recognizes (Reader.items n truncated) fun w (bs : List β) => w = bs ∧ bs.length = n := by
  induction n
  case zero =>
    apply (pure []).congr
    simp +contextual
  case succ n hi =>
    apply ((item truncated).bind fun b => hi.bind fun bs => pure (b :: bs)).congr
    intro w bs
    cases bs <;> simp
    grind

theorem take (n : Nat) (truncated : Nat → ε) :
    Recognizes (Reader.take n truncated) fun w (bs : List β) => w = bs ∧ bs.length = n := by
  constructor
  intro c hv bs c'
  simp only [StateT.run, Reader.take]
  constructor
  case mp =>
    intro h
    split at h <;> simp at h
    case _ hl =>
      have hn : bs.length = n := by
        rw [←h.left]
        simp only [Cursor.rest, List.length_take, List.length_drop]
        omega
      exact ⟨bs, ⟨rfl, hn⟩, h.left ▸ List.take_prefix .., hn ▸ h.right.symm⟩
  case mpr =>
    rintro ⟨_, ⟨rfl, rfl⟩, ⟨t, ht⟩, rfl⟩
    have hl := congrArg List.length ht
    simp only [Cursor.Valid, Cursor.rest, List.length_append, List.length_drop] at hl hv
    rw [if_pos (by omega), ←ht, List.take_left]

theorem times (h : Recognizes r L) (n : Nat) :
    Recognizes (Reader.times n r) fun w as => as.length = n ∧ Words L w as := by
  induction n
  case zero =>
    apply (pure []).congr
    intro w as
    cases as <;> simp [Words]
  case succ n hi =>
    apply (h.bind fun a => hi.bind fun as => pure (a :: as)).congr
    intro w as
    cases as <;> simp [Words]
    grind

-- A reader may decide by the next item as long as it does not stop before it.
theorem peek_bind {truncated : ε} {f : β → Reader ε β α} {M : β → List β → α → Prop}
    (h : ∀ b, Recognizes (f b) (M b)) (hn : ∀ b a, ¬M b [] a) :
    Recognizes (peek truncated >>= f) fun w a => ∃ b, w.head? = some b ∧ M b w a := by
  constructor
  intro c hv a c'
  have hw {w : List β} {b' : β} (hm : M b' w a) (hp : w <+: c.rest) : w.head? = c.rest.head? := by
    obtain ⟨t, ht⟩ := hp
    cases w
    case nil => exact absurd hm (hn b' a)
    case cons => rw [←ht]; rfl
  rw [StateT.run_bind, peek_run]
  cases hr : c.rest.head?
  case none =>
    refine ⟨fun h => (nomatch h), ?_⟩
    rintro ⟨w, ⟨b, hb, hm⟩, hp, _⟩
    simp [hw hm hp, hr] at hb
  case some b =>
    refine ((h b).run_eq_ok c hv a c').trans ?_
    constructor
    · rintro ⟨w, hm, hp, rfl⟩
      exact ⟨w, ⟨b, (hw hm hp).trans hr, hm⟩, hp, rfl⟩
    · rintro ⟨w, ⟨b', hb, hm⟩, hp, rfl⟩
      have : b' = b := Option.some.inj (hb.symm.trans ((hw hm hp).trans hr))
      exact ⟨w, this ▸ hm, hp, rfl⟩

-- A reader which starts at `offset` and stops at the end of the input has read all that was left.
theorem run_to_end (h : Recognizes r L) (hl : offset ≤ bytes.length) :
    (∃ c', r.run ⟨bytes, offset⟩ = .ok (a, c') ∧ c'.offset = bytes.length) ↔
      L (bytes.drop offset) a := by
  have hv : (Cursor.mk bytes offset).Valid := hl
  simp only [h.run_eq_ok _ hv, Cursor.rest]
  constructor
  case mp =>
    rintro ⟨_, ⟨w, hw, hp, rfl⟩, he⟩
    have hd : w.length = (bytes.drop offset).length := by
      simp only [Cursor.advance, List.length_drop] at he ⊢
      omega
    exact hp.eq_of_length hd ▸ hw
  case mpr =>
    intro hw
    refine ⟨_, ⟨_, hw, List.prefix_rfl, rfl⟩, ?_⟩
    simp only [Cursor.advance, List.length_drop]
    omega

-- Two readers, the second of which stops at the end of the input.
theorem run_then {r' : Reader ε β γ} {M : List β → γ → Prop} (h : Recognizes r L)
    (h' : Recognizes r' M) (hl : offset ≤ bytes.length) :
    (∃ c', r.run ⟨bytes, offset⟩ = .ok (a, c) ∧ r'.run c = .ok (b, c') ∧
      c'.offset = bytes.length) ↔
    ∃ w w', L w a ∧ M w' b ∧ bytes.drop offset = w ++ w' ∧ c = ⟨bytes, offset + w.length⟩ := by
  have hv : (Cursor.mk bytes offset).Valid := hl
  constructor
  case mp =>
    rintro ⟨c', hr, hr', he⟩
    obtain ⟨w, hw, ⟨w', hp⟩, rfl⟩ := (h.run_eq_ok _ hv a c).mp hr
    have hw' : M (bytes.drop (offset + w.length)) b :=
      (h'.run_to_end (hv.advance ⟨w', hp⟩)).mp ⟨c', hr', he⟩
    rw [←List.drop_drop, show bytes.drop offset = w ++ w' from hp.symm, List.drop_left] at hw'
    exact ⟨w, w', hw, hw', hp.symm, rfl⟩
  case mpr =>
    rintro ⟨w, w', hw, hw', hp, rfl⟩
    have hp' : w <+: (Cursor.mk bytes offset).rest := ⟨w', hp.symm⟩
    have hr := (h.run_eq_ok _ hv a _).mpr ⟨w, hw, hp', rfl⟩
    have hd : (w ++ w').drop w.length = w' := List.drop_left
    rw [←hd, ←hp, List.drop_drop] at hw'
    obtain ⟨c', hr', he⟩ := (h'.run_to_end (hv.advance hp')).mpr hw'
    exact ⟨c', hr, hr', he⟩

theorem run_all (h : Recognizes r L) :
    (∃ c', r.run ⟨bytes, 0⟩ = .ok (a, c') ∧ c'.rest = []) ↔ L bytes a := by
  have hv : (Cursor.mk bytes 0).Valid := Nat.zero_le _
  refine Iff.trans ?_ (h.run_to_end hv)
  refine exists_congr fun c' => and_congr_right fun hr => ?_
  obtain ⟨w, _, hp, rfl⟩ := (h.run_eq_ok _ hv a c').mp hr
  have hl := hv.advance hp
  simp only [Cursor.rest, List.drop_eq_nil_iff]
  simp only [Cursor.Valid, Cursor.advance] at hl ⊢
  omega

-- No word of the language extends another one.
theorem append_inj (h : Recognizes r L) (ha : L w a) (hb : L w' b) (he : w ++ x = w' ++ y) :
    a = b ∧ w = w' ∧ x = y := by
  have hv : (Cursor.mk (w ++ x) 0).Valid := Nat.zero_le _
  have hr := (h.run_eq_ok _ hv a _).mpr ⟨w, ha, List.prefix_append .., rfl⟩
  have hr' := (h.run_eq_ok _ hv b _).mpr ⟨w', hb, he ▸ List.prefix_append .., rfl⟩
  have hc := Prod.mk.inj (Except.ok.inj (hr.symm.trans hr'))
  have hl : w.length = w'.length := by
    simpa [Cursor.advance] using congrArg Cursor.offset hc.right
  exact ⟨hc.left, List.append_inj he hl⟩

-- No word of the language has two values.
theorem unique (h : Recognizes r L) (ha : L w a) (hb : L w b) : a = b :=
  (h.append_inj ha hb (rfl : w ++ [] = w ++ [])).left

end Recognizes

-- A reader consumes a word which comes next and returns a value for it.
structure Reads (r : Reader ε β α) (w : List β) (a : α) : Prop where
  run_eq (c : Cursor β) (hv : c.Valid) (h : w <+: c.rest) : r.run c = .ok (a, c.advance w.length)

namespace Reads

variable {r : Reader ε β α}

theorem of_recognizes {L : List β → α → Prop} (h : Recognizes r L) (hw : L w a) : Reads r w a where
  run_eq c hv hp := (h.run_eq_ok c hv a _).mpr ⟨w, hw, hp, rfl⟩

theorem pure (a : α) : Reads (Pure.pure a : Reader ε β α) [] a where
  run_eq _ _ _ := rfl

theorem bind {f : α → Reader ε β γ} (h : Reads r w a) (hf : Reads (f a) w' b) :
    Reads (r >>= f) (w ++ w') b where
  run_eq c hv hp := by
    have hp₁ : w <+: c.rest := (List.prefix_append w w').trans hp
    have hp₂ : w' <+: (c.advance w.length).rest := by
      obtain ⟨t, ht⟩ := hp
      exact ⟨t, by simp [Cursor.rest_advance, ←ht]⟩
    rw [StateT.run_bind, h.run_eq c hv hp₁]
    refine (hf.run_eq _ (hv.advance hp₁) hp₂).trans ?_
    rw [Cursor.advance_advance, List.length_append]

-- A reader which does not consume anything.
theorem bind_nil {f : α → Reader ε β γ} (h : Reads r [] a) (hf : Reads (f a) w b) :
    Reads (r >>= f) w b :=
  h.bind hf

theorem map (f : α → γ) (h : Reads r w a) : Reads (r >>= fun a => Pure.pure (f a)) w (f a) := by
  rw [←List.append_nil w]
  exact h.bind (pure _)

theorem run_all (h : Reads r bytes a) : r.run ⟨bytes, 0⟩ = .ok (a, ⟨bytes, bytes.length⟩) := by
  have := h.run_eq ⟨bytes, 0⟩ (Nat.zero_le _) List.prefix_rfl
  simpa [Cursor.advance] using this

end Reads

-- A reader only fails with certain errors.
structure Raises (r : Reader ε β α) (E : ε → Prop) : Prop where
  run_eq_error (c : Cursor β) (e : ε) : r.run c = .error e → E e

namespace Raises

variable {E E' : ε → Prop} {r r' : Reader ε β α}

theorem mono (h : Raises r E) (he : ∀ e, E e → E' e) : Raises r E' where
  run_eq_error c e hr := he e (h.run_eq_error c e hr)

theorem pure (a : α) : Raises (Pure.pure a : Reader ε β α) E where
  run_eq_error _ _ h := by cases h

theorem throw (h : E e) : Raises (throw e : Reader ε β α) E where
  run_eq_error _ _ h' := by
    cases h'
    exact h

theorem bind {f : α → Reader ε β γ} (h : Raises r E) (hf : ∀ a, Raises (f a) E) :
    Raises (r >>= f) E where
  run_eq_error c e he := by
    rw [StateT.run_bind] at he
    cases hr : r.run c
    case error e' =>
      rw [hr] at he
      cases he
      exact h.run_eq_error c _ hr
    case ok result =>
      rw [hr] at he
      exact (hf _).run_eq_error _ _ he

theorem lift {x : Except ε α} (h : ∀ e, x = .error e → E e) :
    Raises (liftM x : Reader ε β α) E := by
  cases x
  case ok a    => exact pure a
  case error e => exact throw (h e rfl)

theorem get_bind {f : Cursor β → Reader ε β α} (h : ∀ c, Raises (f c) E) : Raises (get >>= f) E where
  run_eq_error c := (h c).run_eq_error c

theorem ite {p : Prop} [Decidable p] (h : Raises r E) (h' : Raises r' E) :
    Raises (if p then r else r') E := by
  split
  case isTrue  => exact h
  case isFalse => exact h'

theorem item {truncated : Nat → ε} (h : ∀ n, E (truncated n)) :
    Raises (Reader.item truncated : Reader ε β β) E where
  run_eq_error c e he := by
    simp only [StateT.run, Reader.item] at he
    split at he <;> cases he
    exact h _

theorem items {truncated : Nat → ε} (h : ∀ n, E (truncated n)) (n : Nat) :
    Raises (Reader.items n truncated : Reader ε β (List β)) E := by
  induction n
  case zero      => exact pure []
  case succ n hi => exact (item h).bind fun _ => hi.bind fun _ => pure _

theorem peek {truncated : ε} (h : E truncated) : Raises (Reader.peek truncated : Reader ε β β) E where
  run_eq_error c e he := by
    simp only [StateT.run, Reader.peek] at he
    split at he <;> cases he
    exact h

theorem times (h : Raises r E) (n : Nat) : Raises (Reader.times n r) E := by
  induction n
  case zero      => exact pure []
  case succ n hi => exact h.bind fun _ => hi.bind fun _ => pure _

theorem take {truncated : Nat → ε} (h : ∀ n, E (truncated n)) (n : Nat) :
    Raises (Reader.take n truncated : Reader ε β (List β)) E where
  run_eq_error c e he := by
    simp only [StateT.run, Reader.take] at he
    split at he <;> cases he
    exact h _

end Raises

theorem map_eq_error {r : Reader ε β α} {f : α → γ} :
    (r >>= fun a => pure (f a)).run c = .error e ↔ r.run c = .error e := by
  rw [StateT.run_bind]
  cases r.run c
  case error e' => simp
  case ok result => exact iff_of_false (fun h => nomatch h) (fun h => nomatch h)

-- Repeated reading fails when the reader fails after it has succeeded less often than it should.
theorem times_eq_error {r : Reader ε β α} :
    (times n r).run c = .error e ↔
      ∃ i < n, ∃ as c', (times i r).run c = .ok (as, c') ∧ r.run c' = .error e := by
  induction n generalizing c
  case zero =>
    refine iff_of_false (fun h => ?_) (by simp)
    cases h
  case succ n hi =>
    have ht {m} : (times (m + 1) r).run c = r.run c >>= fun p =>
        (times m r).run p.snd >>= fun q => .ok (p.fst :: q.fst, q.snd) := rfl
    simp only [ht, Except.bind_eq_error, Prod.exists, reduceCtorEq, and_false, exists_false, or_false, hi]
    constructor
    case mp =>
      rintro (h | ⟨a, c', hr, i, hl, as, c'', ht', he⟩)
      · exact ⟨0, Nat.succ_pos n, [], c, rfl, h⟩
      · refine ⟨i + 1, Nat.succ_lt_succ hl, a :: as, c'', ?_, he⟩
        exact ht ▸ Except.bind_eq_ok.mpr ⟨_, hr, Except.bind_eq_ok.mpr ⟨_, ht', rfl⟩⟩
    case mpr =>
      rintro ⟨_ | i, hl, as, c'', ht', he⟩
      · cases ht'
        exact .inl he
      · rw [ht] at ht'
        obtain ⟨⟨a, c'⟩, hr, hs⟩ := Except.bind_eq_ok.mp ht'
        obtain ⟨⟨as, _⟩, hu, ⟨⟩⟩ := Except.bind_eq_ok.mp hs
        exact .inr ⟨a, c', hr, i, Nat.lt_of_succ_lt_succ hl, as, _, hu, he⟩

-- Two readers which do the same, except that the first one may give up with a certain error.
def AgreesUnless (e : ε) (r r' : Reader ε β α) : Prop :=
  ∀ c, r.run c = .error e ∨ r.run c = r'.run c

namespace AgreesUnless

variable {r r' : Reader ε β α}

theorem refl (r : Reader ε β α) : AgreesUnless e r r :=
  fun _ => .inr rfl

theorem throw (r' : Reader ε β α) : AgreesUnless e (throw e) r' :=
  fun _ => .inl rfl

theorem bind {f f' : α → Reader ε β γ} (h : AgreesUnless e r r')
    (hf : ∀ a, AgreesUnless e (f a) (f' a)) : AgreesUnless e (r >>= f) (r' >>= f') := by
  intro c
  rw [StateT.run_bind, StateT.run_bind]
  obtain h | h := h c <;> rw [h]
  · exact .inl rfl
  · cases r'.run c
    case error => exact .inr rfl
    case ok result => exact hf result.fst result.snd

theorem ite {p : Prop} [Decidable p] {s s' : Reader ε β α} (h : AgreesUnless e r r')
    (h' : AgreesUnless e s s') : AgreesUnless e (if p then r else s) (if p then r' else s') := by
  split
  case isTrue  => exact h
  case isFalse => exact h'

theorem times (h : AgreesUnless e r r') (n : Nat) : AgreesUnless e (times n r) (times n r') := by
  induction n
  case zero      => exact refl _
  case succ n hi => exact h.bind fun _ => hi.bind fun _ => refl _

end AgreesUnless
end Reader
