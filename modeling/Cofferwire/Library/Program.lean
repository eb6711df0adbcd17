-- What a program can ask of its environment.
structure Interface where
  Call   : Type
  Result : Call → Type

-- A call together with the result which the environment has returned.
abbrev Interface.Event (I : Interface) : Type :=
  (c : I.Call) × I.Result c

-- A program which interacts with its environment, and stops when it fails.
inductive Program (I : Interface) (ε α : Type)
  | done (result : Except ε α)
  | call (c : I.Call) (next : I.Result c → Program I ε α)

namespace Program

variable {I : Interface}

protected def bind (p : Program I ε α) (f : α → Program I ε β) : Program I ε β :=
  match p with
  | done (.error e) => done (.error e)
  | done (.ok a)    => f a
  | call c next     => call c fun r => (next r).bind f

instance : Monad (Program I ε) where
  pure a := done (.ok a)
  bind   := Program.bind

instance : MonadLift (Except ε) (Program I ε) where
  monadLift := done

def fail (e : ε) : Program I ε α :=
  done (.error e)

-- What came of a program which has been run to its end.
structure Execution (I : Interface) (σ ε α : Type) where
  calls  : List I.Call
  result : Except ε α
  state  : σ

-- Runs a program in an environment with a state of its own.
def exec (handle : (c : I.Call) → σ → I.Result c × σ) : Program I ε α → σ → Execution I σ ε α
  | done result, s => { calls := [], result, state := s }
  | call c next, s =>
    let (r, s) := handle c s
    let rest := (next r).exec handle s
    { rest with calls := c :: rest.calls }

-- How a program continues as the environment returns results. As these are arbitrary, the
-- environment can be adaptive and malicious.
inductive Runs {ε α : Type} : Program I ε α → List I.Event → Program I ε α → Prop
  | refl : Runs p [] p
  | step {next : I.Result c → Program I ε α} (h : Runs (next r) trace p) :
    Runs (.call c next) (⟨c, r⟩ :: trace) p

section Guarantees

variable (pre : List I.Event → I.Call → Prop) (post : List I.Event → Except ε α → Prop)

-- Every call of a program and its result are justified by the events before.
def Guarantees (past : List I.Event) : Program I ε α → Prop
  | done result => post past result
  | call c next => pre past c ∧ ∀ r, (next r).Guarantees (past ++ [⟨c, r⟩])

end Guarantees

section

variable {pre : List I.Event → I.Call → Prop} {post : List I.Event → Except ε α → Prop}
  {p p' : Program I ε α}

-- What is guaranteed at the end of a program holds at the beginning of the next one.
theorem Guarantees.bind {f : α → Program I ε β} {post' : List I.Event → Except ε β → Prop}
    (h : p.Guarantees pre post past) (he : ∀ past e, post past (.error e) → post' past (.error e))
    (hf : ∀ past a, post past (.ok a) → (f a).Guarantees pre post' past) :
    (p >>= f).Guarantees pre post' past := by
  induction p generalizing past
  case done result =>
    cases result
    case error e => exact he past e h
    case ok a    => exact hf past a h
  case call hi => exact ⟨h.left, fun r => hi r (h.right r)⟩

theorem Guarantees.bind_except {f : α → Program I ε β} {post : List I.Event → Except ε β → Prop}
    {x : Except ε α} (he : ∀ e, x = .error e → post past (.error e))
    (hf : ∀ a, x = .ok a → (f a).Guarantees pre post past) :
    (liftM x >>= f : Program I ε β).Guarantees pre post past := by
  cases x
  case error e => exact he e rfl
  case ok a    => exact hf a rfl

-- What is guaranteed at the beginning is guaranteed at every later point.
theorem Guarantees.runs (h : p.Guarantees pre post past) (hr : Runs p trace p') :
    p'.Guarantees pre post (past ++ trace) := by
  induction hr generalizing past
  case refl => simpa using h
  case step hi =>
    have := hi (h.right _)
    simpa using this

-- A program which calls its environment goes on with any result.
theorem Runs.call {next : I.Result c → Program I ε α} (h : Runs p trace (.call c next)) (r : I.Result c) :
    Runs p (trace ++ [⟨c, r⟩]) (next r) := by
  generalize hp : Program.call c next = p' at h
  induction h
  case refl =>
    subst hp
    exact .step .refl
  case step hi => exact .step (hi hp)

-- Every event goes back to a call.
theorem Runs.exists_call (h : Runs p trace p') (he : e ∈ trace) :
    ∃ past next, past <+: trace ∧ Runs p past (.call e.fst next) := by
  induction h
  case refl => cases he
  case step c r trace p next h hi =>
    rcases List.mem_cons.mp he with rfl | he
    · exact ⟨[], next, List.nil_prefix, .refl⟩
    · have ⟨past, next', hp, hr⟩ := hi he
      exact ⟨_, next', List.cons_prefix_cons.mpr ⟨rfl, hp⟩, .step hr⟩

theorem runs_done : Runs (done result) trace p ↔ trace = [] ∧ p = done result where
  mp  := by rintro ⟨⟩; exact ⟨rfl, rfl⟩
  mpr := by rintro ⟨rfl, rfl⟩; exact .refl

-- A program which has called its environment only goes on with a result.
theorem runs_call {next : I.Result c → Program I ε α} :
    Runs (call c next) trace (done result) ↔
      ∃ r trace', Runs (next r) trace' (done result) ∧ trace = ⟨c, r⟩ :: trace' where
  mp  := by rintro (_ | h); exact ⟨_, _, h, rfl⟩
  mpr := by rintro ⟨r, trace', h, rfl⟩; exact .step h

-- A sequence of programs returns a result if they do so one after another.
theorem runs_bind {f : α → Program I ε β} :
    Runs (p >>= f) trace (done (.ok b)) ↔
      ∃ trace₁ a trace₂, Runs p trace₁ (done (.ok a)) ∧ Runs (f a) trace₂ (done (.ok b)) ∧
        trace = trace₁ ++ trace₂ where
  mp h := by
    induction p generalizing trace
    case done result =>
      cases result
      case error e => cases h
      case ok a    => exact ⟨[], a, trace, .refl, h, rfl⟩
    case call c next hi =>
      cases h
      case step h =>
        obtain ⟨trace₁, a, trace₂, hp, hf, rfl⟩ := hi _ h
        exact ⟨_, a, trace₂, .step hp, hf, rfl⟩
  mpr := by
    rintro ⟨trace₁, a, trace₂, hp, hf, rfl⟩
    induction p generalizing trace₁
    case done =>
      cases hp
      exact hf
    case call hi =>
      cases hp
      case step hp => exact .step (hi _ _ hp)

-- A sequence of programs also ends with the first failure.
theorem Runs.of_bind {f : α → Program I ε β} (h : Runs (p >>= f) trace (done result)) :
    (∃ e, Runs p trace (done (.error e)) ∧ result = .error e) ∨
    ∃ trace₁ a trace₂, Runs p trace₁ (done (.ok a)) ∧ Runs (f a) trace₂ (done result) ∧
      trace = trace₁ ++ trace₂ := by
  induction p generalizing trace
  case done r =>
    cases r
    case error e =>
      obtain ⟨rfl, he⟩ := runs_done.mp h
      cases he
      exact .inl ⟨e, .refl, rfl⟩
    case ok a => exact .inr ⟨[], a, trace, .refl, h, rfl⟩
  case call c next hi =>
    cases h
    case step h =>
      obtain ⟨e, hp, he⟩ | ⟨trace₁, a, trace₂, hp, hf, rfl⟩ := hi _ h
      · exact .inl ⟨e, .step hp, he⟩
      · exact .inr ⟨_, a, trace₂, .step hp, hf, rfl⟩

end
end Program
