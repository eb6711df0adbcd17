import Mathlib.Data.List.Forall2

namespace Except

variable {x : Except ε α}

theorem ok_bind {f : α → Except ε β} : ok a >>= f = f a := rfl

theorem bind_eq_ok {f : α → Except ε β} : x >>= f = .ok b ↔ ∃ a, x = .ok a ∧ f a = .ok b := by
  cases x <;> simp [bind, Except.bind]

theorem bind_eq_error {f : α → Except ε β} :
    x >>= f = .error e ↔ x = .error e ∨ ∃ a, x = .ok a ∧ f a = .error e := by
  cases x <;> simp [bind, Except.bind]

theorem map_eq_ok {f : α → β} : x.map f = .ok b ↔ ∃ a, x = .ok a ∧ f a = b := by
  cases x <;> simp [Except.map]

theorem map_eq_error {f : α → β} : x.map f = .error e ↔ x = .error e := by
  cases x <;> simp [Except.map]

theorem mapError_eq_ok {f : ε → ε'} : x.mapError f = .ok a ↔ x = .ok a := by
  cases x
  case error e => exact ⟨fun h => (nomatch (h : error (f e) = ok a)), fun h => nomatch h⟩
  case ok b    => exact ⟨fun h => congrArg ok (ok.inj h), fun h => congrArg ok (ok.inj h)⟩

-- A guard is passed if its condition does not hold.
theorem ite_error_eq_ok [Decidable p] : (if p then .error e else x) = .ok a ↔ ¬p ∧ x = .ok a := by
  split <;> simp_all

theorem ite_error_eq_error [Decidable p] :
    (if p then .error e else x) = .error e' ↔ (p ∧ e = e') ∨ (¬p ∧ x = .error e') := by
  split <;> simp_all

theorem dite_error_eq_ok [Decidable p] {x : ¬p → Except ε α} :
    (if h : p then .error e else x h) = .ok a ↔ ∃ h, x h = .ok a := by
  split <;> simp_all

theorem dite_error_eq_error [Decidable p] {x : ¬p → Except ε α} :
    (if h : p then .error e else x h) = .error e' ↔ (p ∧ e = e') ∨ ∃ h, x h = .error e' := by
  split <;> simp_all

theorem forM_eq_ok {l : List α} {f : α → Except ε Unit} :
    l.forM f = .ok () ↔ ∀ a ∈ l, f a = .ok () := by
  induction l
  case nil => simp [pure, Except.pure]
  case cons hi =>
    rw [List.forM, bind_eq_ok]
    simp only [hi, List.forall_mem_cons]
    exact ⟨fun ⟨_, h⟩ => h, fun h => ⟨(), h⟩⟩

-- All items are mapped, one by one.
theorem mapM_eq_ok {l : List α} {f : α → Except ε β} :
    l.mapM f = .ok l' ↔ List.Forall₂ (fun a b => f a = .ok b) l l' := by
  induction l generalizing l'
  case nil => simp [pure, Except.pure, eq_comm]
  case cons a l hi =>
    simp only [List.mapM_cons, bind_eq_ok, hi]
    constructor
    · rintro ⟨b, hb, l', hl, ⟨⟩⟩
      exact .cons hb hl
    · rintro (_ | ⟨hb, hl⟩)
      exact ⟨_, hb, _, hl, rfl⟩

theorem exists_mapM_eq_ok {l : List α} {f : α → Except ε β} (h : ∀ a ∈ l, ∃ b, f a = .ok b) :
    ∃ l', l.mapM f = .ok l' := by
  induction l
  case nil => exact ⟨[], rfl⟩
  case cons a l hi =>
    obtain ⟨b, hb⟩ := h a (.head _)
    obtain ⟨l', hl⟩ := hi fun a ha => h a (.tail _ ha)
    exact ⟨b :: l', mapM_eq_ok.mpr (.cons hb (mapM_eq_ok.mp hl))⟩

end Except
