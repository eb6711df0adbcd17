-- A machine which answers each input and thereby moves to a next state.
structure Machine (σ : Type u) (ι : Type v) (ω : Type w) where
  init : σ
  step : ι → σ → ω × σ

namespace Machine

variable (M : Machine σ ι ω) (inputs : Nat → ι)

-- The state in which the machine receives its `n`-th input. As only the first `n` inputs matter, a
-- sequence of inputs stands for all finite runs on its prefixes.
def state : Nat → σ
  | 0     => M.init
  | n + 1 => (M.step (inputs n) (state n)).snd

def output (n : Nat) : ω :=
  (M.step (inputs n) (M.state inputs n)).fst

variable {M inputs}

theorem invariant {P : σ → Prop} (init : P M.init) (step : ∀ i s, P s → P (M.step i s).snd) (n) :
    P (M.state inputs n) := by
  induction n
  case zero => exact init
  case succ hi => exact step _ _ hi

-- A preorder along which every step leads relates earlier to later states.
theorem monotone {R : σ → σ → Prop} (refl : ∀ s, R s s) (trans : ∀ r s t, R r s → R s t → R r t)
    (step : ∀ i s, R s (M.step i s).snd) (h : n ≤ k) : R (M.state inputs n) (M.state inputs k) := by
  induction h
  case refl => exact refl _
  case step hi => exact trans _ _ _ hi (step _ _)

-- A relation between two machines which may depend on the inputs received so far.
theorem simulation {N : Machine τ ι ω'} {R : Nat → σ → τ → Prop} (init : R 0 M.init N.init)
    (step : ∀ k < n, R k (M.state inputs k) (N.state inputs k) →
      R (k + 1) (M.state inputs (k + 1)) (N.state inputs (k + 1))) :
    R n (M.state inputs n) (N.state inputs n) := by
  induction n
  case zero => exact init
  case succ n hi => exact step n (Nat.lt_succ_self n) <| hi fun k hk => step k (by omega)

-- The inputs of a finite run from some state, with the outputs to them.
def replies (M : Machine σ ι ω) : σ → List ι → List (ι × ω)
  | _, []          => []
  | s, input :: is => (input, (M.step input s).fst) :: replies M (M.step input s).snd is

-- Removing inputs from a run does not affect the outputs to the others, if no step for a removed input
-- can be observed by them.
theorem filter_replies {p : ι → Bool} {R : σ → σ → Prop}
    (skip : ∀ i ∈ is, ∀ s s', ¬p i → R s s' → R (M.step i s).snd s')
    (step : ∀ i ∈ is, ∀ s s', p i → R s s' →
      (M.step i s).fst = (M.step i s').fst ∧ R (M.step i s).snd (M.step i s').snd)
    (h : R s s') : (M.replies s is).filter (p ·.fst) = M.replies s' (is.filter p) := by
  induction is generalizing s s'
  case nil => rfl
  case cons i is hi =>
    have hi {s s'} (h : R s s') := hi (fun i hm => skip i (.tail _ hm)) (fun i hm => step i (.tail _ hm)) h
    by_cases hp : p i
    case pos =>
      obtain ⟨ho, hr⟩ := step i (.head _) s s' hp h
      simp only [replies, List.filter_cons, hp, if_true, hi hr, ho]
    case neg =>
      have hr := skip i (.head _) s s' hp h
      simp only [replies, List.filter_cons, hp, Bool.false_eq_true, if_false, hi hr]

-- Only some of the inputs which are left may have to get the same outputs.
theorem filter_replies_of_observed {p o : ι → Bool} {R : σ → σ → Prop} (ho : ∀ i, o i → p i)
    (skip : ∀ i ∈ is, ∀ s s', ¬p i → R s s' → R (M.step i s).snd s')
    (step : ∀ i ∈ is, ∀ s s', p i → R s s' →
      (o i → (M.step i s).fst = (M.step i s').fst) ∧ R (M.step i s).snd (M.step i s').snd)
    (h : R s s') :
    (M.replies s is).filter (o ·.fst) = (M.replies s' (is.filter p)).filter (o ·.fst) := by
  induction is generalizing s s'
  case nil => rfl
  case cons i is hi =>
    have hi {s s'} (h : R s s') := hi (fun i hm => skip i (.tail _ hm)) (fun i hm => step i (.tail _ hm)) h
    by_cases hp : p i
    case neg =>
      have hn : ¬o i := mt (ho i) hp
      have hr := skip i (.head _) s s' hp h
      simp only [replies, List.filter_cons, hp, hn, Bool.false_eq_true, if_false, hi hr]
    case pos =>
      obtain ⟨hs, hr⟩ := step i (.head _) s s' hp h
      simp only [replies, List.filter_cons, hp, if_true, hi hr]
      by_cases hn : o i
      case pos => simp only [hn, if_true, hs hn]
      case neg => simp only [hn, Bool.false_eq_true, if_false]

-- A step which fails is undone.
def undoError (s : σ) : Except ε ω × σ → Except ε ω × σ
  | (.ok output, s') => (.ok output, s')
  | (.error e, _)    => (.error e, s)

def rollback (M : Machine σ ι (Except ε ω)) : Machine σ ι (Except ε ω) where
  init     := M.init
  step i s := undoError s (M.step i s)

theorem undoError_fst {result : Except ε ω × σ} : (undoError s result).fst = result.fst := by
  unfold undoError
  split <;> rfl

theorem undoError_of_error {result : Except ε ω × σ} (h : result.fst = .error e) :
    undoError s result = (.error e, s) := by
  obtain ⟨_, _⟩ := result
  subst h
  rfl

end Machine
