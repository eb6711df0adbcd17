import Cofferwire.Library.Machine

namespace Machine

variable {M : Machine σ ι ω} {inputs : Nat → ι}

-- The state to which a finite sequence of inputs leads.
def run (M : Machine σ ι ω) : σ → List ι → σ
  | s, []          => s
  | s, input :: is => run M (M.step input s).snd is

theorem run_append : M.run s (is ++ is') = M.run (M.run s is) is' := by
  induction is generalizing s
  case nil => rfl
  case cons hi => exact hi

-- What a machine emits as input for another one.
section Log

variable (M : Machine σ ι ω) (emit : ι → σ → List κ) (inputs : Nat → ι)

def log : Nat → List κ
  | 0     => []
  | n + 1 => log n ++ emit (inputs n) (M.state inputs n)

variable {M emit inputs}

theorem log_extends (h : n ≤ k) : M.log emit inputs n <+: M.log emit inputs k := by
  induction h
  case refl => exact List.prefix_rfl
  case step hi => exact hi.trans (List.prefix_append ..)

-- All that is ever emitted.
theorem exists_emitted [Nonempty κ] (M : Machine σ ι ω) (emit : ι → σ → List κ) (inputs : Nat → ι) :
    ∃ emitted : Nat → κ, ∀ k n, ∀ i ∈ (M.log emit inputs n)[k]?, emitted k = i := by
  have hm {n n' k : Nat} {i : κ} (h : n ≤ n') (hi : i ∈ (M.log emit inputs n)[k]?) :
      i ∈ (M.log emit inputs n')[k]? := by
    obtain ⟨hk, rfl⟩ := List.getElem?_eq_some_iff.mp hi
    exact List.prefix_iff_getElem?.mp (log_extends h) k hk
  have he (k : Nat) : ∃ e, ∀ n, ∀ i ∈ (M.log emit inputs n)[k]?, e = i := by
    by_cases h : ∃ n i, i ∈ (M.log emit inputs n)[k]?
    case neg => exact ⟨Classical.ofNonempty, fun n i hi => absurd ⟨n, i, hi⟩ h⟩
    case pos =>
      obtain ⟨n, i, hi⟩ := h
      refine ⟨i, fun n' i' hi' => ?_⟩
      rcases Nat.le_total n n' with hn | hn
      · exact Option.some.inj ((hm hn hi).symm.trans hi')
      · exact Option.some.inj (hi.symm.trans (hm hn hi'))
  exact ⟨fun k => (he k).choose, fun k => (he k).choose_spec⟩

variable {N : Machine τ κ ω'}

-- A relation between two machines of which one gets as its input what the other one emits.
theorem log_simulation {R : σ → τ → Prop} (init : R M.init N.init)
    (step : ∀ i s t, R s t → R (M.step i s).snd (N.run t (emit i s))) (n : Nat) :
    R (M.state inputs n) (N.run N.init (M.log emit inputs n)) := by
  induction n
  case zero => exact init
  case succ hi =>
    rw [log, run_append]
    exact step _ _ _ hi

end Log

-- What a machine does when it receives a finite sequence of inputs at some point of a run.
theorem state_add {l : List ι} (h : ∀ k, ∀ i ∈ l[k]?, inputs (n + k) = i) :
    M.state inputs (n + l.length) = M.run (M.state inputs n) l := by
  induction l generalizing n
  case nil => rfl
  case cons i l hi =>
    have h₀ : inputs n = i := h 0 i rfl
    have hl := hi (n := n + 1) fun k i hk => Nat.add_right_comm n 1 k ▸ h (k + 1) i hk
    rw [Nat.add_right_comm] at hl
    simpa [run, state, h₀] using hl

end Machine
