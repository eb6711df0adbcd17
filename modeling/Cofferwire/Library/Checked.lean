import Cofferwire.Library.Reader

-- A fallible computation which is undefined if one of its operations is, for example because a sum
-- overflows or an item does not exist.
abbrev Checked (ε α : Type) :=
  ExceptT ε Option α

-- Errors are regular results.
instance Checked.monadLiftExcept : MonadLift (Except ε) (ExceptT ε Option) where
  monadLift x := some x

abbrev CheckedReader (ε β α : Type) :=
  StateT (Cursor β) (Checked ε) α

namespace Checked

-- The computation is defined and does the same as a plain one.
def Agrees (x : Checked ε α) (y : Except ε α) : Prop :=
  x.run = some y

namespace Agrees

variable {x : Checked ε α} {y : Except ε α}

theorem pure (a : α) : Agrees (Pure.pure a : Checked ε α) (.ok a) :=
  rfl

theorem throw (e : ε) : Agrees (throw e : Checked ε α) (.error e) :=
  rfl

theorem lift (y : Except ε α) : Agrees (liftM y) y :=
  rfl

theorem bind {f : α → Checked ε β} {g : α → Except ε β} (h : Agrees x y)
    (hf : ∀ a, y = .ok a → Agrees (f a) (g a)) : Agrees (x >>= f) (y >>= g) := by
  rw [Agrees, ExceptT.run_bind, h]
  cases y
  case error => rfl
  case ok a  => exact hf a rfl

-- An operation which is defined.
theorem bind_some {f : α → Checked ε β} {y : Except ε β} (h : o = some a) (hf : Agrees (f a) y) :
    Agrees (liftM o >>= f) y := by
  subst h
  exact hf

-- Errors can be translated.
theorem adapt (f : ε → ε') (h : Agrees x y) :
    ExceptT.adapt f x = (liftM (y.mapError f) : Checked ε' α) :=
  congrArg (fun z => ExceptT.mk (Except.mapError f <$> z)) h

theorem ite {p : Prop} [Decidable p] {x' : Checked ε α} {y' : Except ε α} (h : p → Agrees x y)
    (h' : ¬p → Agrees x' y') : Agrees (if p then x else x') (if p then y else y') := by
  by_cases hp : p
  case pos =>
    rw [if_pos hp, if_pos hp]
    exact h hp
  case neg =>
    rw [if_neg hp, if_neg hp]
    exact h' hp

end Agrees
end Checked

-- The position lies within a word whose length is bounded.
structure Cursor.Within (bound : Nat) (c : Cursor β) : Prop where
  valid   : c.Valid
  bounded : c.bytes.length < bound

namespace CheckedReader

-- At all positions in words of a bounded length, the reader is defined and does the same as a plain
-- one.
structure Agrees (bound : Nat) (r : CheckedReader ε β α) (p : Reader ε β α) : Prop where
  run_eq (c : Cursor β) (hc : c.Within bound) : Checked.Agrees (r.run c) (p.run c)
  within (c : Cursor β) (hc : c.Within bound) (a : α) (c' : Cursor β) :
    p.run c = .ok (a, c') → c'.Within bound

namespace Agrees

variable {bound : Nat} {r : CheckedReader ε β α} {p : Reader ε β α}

theorem pure (a : α) : Agrees bound (Pure.pure a : CheckedReader ε β α) (Pure.pure a) where
  run_eq _ _       := rfl
  within _ hc _ _ h := by
    cases h
    exact hc

theorem throw (e : ε) : Agrees bound (throw e : CheckedReader ε β α) (throw e) where
  run_eq _ _     := rfl
  within _ _ _ _ h := by cases h

theorem lift (x : Except ε α) :
    Agrees bound (liftM x : CheckedReader ε β α) (liftM x : Reader ε β α) := by
  cases x
  case ok a    => exact pure a
  case error e => exact throw e

theorem bind {f : α → CheckedReader ε β γ} {g : α → Reader ε β γ} (h : Agrees bound r p)
    (hf : ∀ a, Agrees bound (f a) (g a)) : Agrees bound (r >>= f) (p >>= g) where
  run_eq c hc := by
    rw [StateT.run_bind, StateT.run_bind]
    exact (h.run_eq c hc).bind fun ⟨a, c'⟩ hr => (hf a).run_eq c' (h.within c hc a c' hr)
  within c hc b c'' he := by
    rw [StateT.run_bind] at he
    obtain ⟨⟨a, c'⟩, hr, he⟩ := Except.bind_eq_ok.mp he
    exact (hf a).within c' (h.within c hc a c' hr) b c'' he

theorem ite {q : Prop} [Decidable q] {r' : CheckedReader ε β α} {p' : Reader ε β α}
    (h : Agrees bound r p) (h' : Agrees bound r' p') :
    Agrees bound (if q then r else r') (if q then p else p') := by
  split
  case isTrue  => exact h
  case isFalse => exact h'

-- Both readers may look at their position.
theorem get_bind {f : Cursor β → CheckedReader ε β α} {g : Cursor β → Reader ε β α}
    (h : ∀ c, Agrees bound (f c) (g c)) : Agrees bound (get >>= f) (get >>= g) where
  run_eq c := (h c).run_eq c
  within c := (h c).within c

-- A plain reader which is defined everywhere.
theorem of_run_eq {L : List β → α → Prop} (hr : Reader.Recognizes p L)
    (h : ∀ c : Cursor β, c.Within bound → Checked.Agrees (r.run c) (p.run c)) : Agrees bound r p where
  run_eq := h
  within c hc a c' he := by
    obtain ⟨w, _, hw, rfl⟩ := (hr.run_eq_ok c hc.valid a c').mp he
    exact ⟨hc.valid.advance hw, hc.bounded⟩

end Agrees
end CheckedReader

-- A reader whose position outlives its errors.
abbrev MutableReader (ε β α : Type) :=
  ExceptT ε (StateT (Cursor β) Option) α

namespace MutableReader

theorem run_get_bind {f : Cursor β → MutableReader ε β α} :
    (get >>= f : MutableReader ε β α).run.run c = (f c).run.run c := rfl

-- The reader is defined and moves forward within the word.
def Advances (r : MutableReader ε β α) (c : Cursor β) : Prop :=
  ∃ x n, r.run.run c = some (x, c.advance n) ∧ (c.Valid → (c.advance n).Valid)

-- A result next to the one of a plain reader. The errors may differ.
inductive Matches (c' : Cursor β) : Except ε α → Except ε (α × Cursor β) → Prop
  | ok (a : α)       : Matches c' (.ok a) (.ok (a, c'))
  | error (e e' : ε) : Matches c' (.error e) (.error e')

-- At all positions in words of a bounded length, the reader is defined, moves forward within the
-- word and succeeds when a plain one does.
structure Refines (bound : Nat) (r : MutableReader ε β α) (p : Reader ε β α) : Prop where
  exists_run (c : Cursor β) (hc : c.Within bound) :
    ∃ x n, r.run.run c = some (x, c.advance n) ∧ (c.advance n).Valid ∧
      Matches (c.advance n) x (p.run c)

namespace Refines

variable {bound : Nat} {r : MutableReader ε β α} {p : Reader ε β α}

theorem pure (a : α) : Refines bound (Pure.pure a : MutableReader ε β α) (Pure.pure a) where
  exists_run _ hc := ⟨.ok a, 0, rfl, hc.valid, .ok a⟩

theorem throw (e e' : ε) : Refines bound (throw e : MutableReader ε β α) (throw e') where
  exists_run _ hc := ⟨.error e, 0, rfl, hc.valid, .error e e'⟩

theorem bind {f : α → MutableReader ε β γ} {g : α → Reader ε β γ} (h : Refines bound r p)
    (hf : ∀ a, Refines bound (f a) (g a)) : Refines bound (r >>= f) (p >>= g) where
  exists_run c hc := by
    obtain ⟨x, n, hr, hv, hm⟩ := h.exists_run c hc
    rw [ExceptT.run_bind, StateT.run_bind, StateT.run_bind, hr]
    generalize p.run c = y at hm
    cases hm
    case error e e' => exact ⟨.error e, n, rfl, hv, .error e e'⟩
    case ok a =>
      obtain ⟨y, m, hr', hv', hm'⟩ := (hf a).exists_run (c.advance n) ⟨hv, hc.bounded⟩
      rw [Cursor.advance_advance] at hr' hv' hm'
      exact ⟨y, n + m, hr', hv', hm'⟩

theorem ite {q : Prop} [Decidable q] {r' : MutableReader ε β α} {p' : Reader ε β α}
    (h : Refines bound r p) (h' : Refines bound r' p') :
    Refines bound (if q then r else r') (if q then p else p') := by
  split
  case isTrue  => exact h
  case isFalse => exact h'

theorem get_bind {f : Cursor β → MutableReader ε β α} {g : Cursor β → Reader ε β α}
    (h : ∀ c, Refines bound (f c) (g c)) : Refines bound (get >>= f) (get >>= g) where
  exists_run c := (h c).exists_run c

theorem advances (h : Refines bound r p) (hc : c.Within bound) : Advances r c :=
  have ⟨x, n, hr, hv, _⟩ := h.exists_run c hc
  ⟨x, n, hr, fun _ => hv⟩

-- The reader succeeds exactly on the words of the language of the plain one.
theorem run_eq_ok {L : List β → α → Prop} (h : Refines bound r p) (hl : Reader.Recognizes p L)
    (hc : c.Within bound) :
    r.run.run c = some (.ok a, c') ↔ ∃ w, L w a ∧ w <+: c.rest ∧ c' = c.advance w.length := by
  rw [←hl.run_eq_ok c hc.valid]
  obtain ⟨x, n, hr, -, hm⟩ := h.exists_run c hc
  rw [hr]
  generalize p.run c = y at hm
  cases hm <;> simp

end Refines
end MutableReader
