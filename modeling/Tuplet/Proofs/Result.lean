/-!
# Results of steps that can fail

How a sequence of steps comes out, read off how its first step does. One set of
facts is about steps without a state, the other about steps that hand a state
on and keep what they have done to it when they fail.
-/

namespace Tuplet.Result

section Stateless

variable {ε α β : Type}

@[simp]
theorem ok_bind (value : α) (next : α → Except ε β) :
    ((Except.ok value : Except ε α) >>= next) = next value := rfl

@[simp]
theorem error_bind (error : ε) (next : α → Except ε β) :
    ((Except.error error : Except ε α) >>= next) = .error error := rfl

@[simp]
theorem pure_eq_ok (value : α) : (pure value : Except ε α) = .ok value := rfl

@[simp]
theorem throw_eq_error (error : ε) : (throw error : Except ε α) = .error error := rfl

@[simp]
theorem bind_ok (step : Except ε α) : (step >>= fun value => .ok value) = step := bind_pure step

theorem bind_eq_ok_iff {step : Except ε α} {next : α → Except ε β} {result : β} :
    (step >>= next) = .ok result ↔ ∃ value, step = .ok value ∧ next value = .ok result := by
  cases step with
  | error error => simp
  | ok value => simp

/-- A check before a step passes exactly if the sequence does what the step does. -/
theorem check_bind_eq_ok_iff {check : Except ε Unit} {next : Except ε β} {result : β} :
    (check >>= fun _ => next) = .ok result ↔ check = .ok () ∧ next = .ok result := by
  cases check with
  | error error => simp
  | ok value => simp

@[simp]
theorem mapError_ok {δ : Type} (change : ε → δ) (value : α) :
    (Except.ok value : Except ε α).mapError change = .ok value := rfl

@[simp]
theorem mapError_error {δ : Type} (change : ε → δ) (error : ε) :
    (Except.error error : Except ε α).mapError change = .error (change error) := rfl

theorem ite_eq_ok_iff {condition : Prop} [Decidable condition] {error : ε} :
    (if condition then .ok () else .error error : Except ε Unit) = .ok () ↔ condition := by
  split <;> simp_all

end Stateless

section Stateful

variable {ε σ α β : Type}

@[simp]
theorem pure_apply (value : α) (state : σ) : (pure value : EStateM ε σ α) state = .ok value state :=
  rfl

@[simp]
theorem throw_apply (error : ε) (state : σ) :
    (throw error : EStateM ε σ α) state = .error error state := rfl

@[simp]
theorem get_bind (next : σ → EStateM ε σ β) (state : σ) :
    ((get : EStateM ε σ σ) >>= next) state = next state state := rfl

@[simp]
theorem modify_apply (change : σ → σ) (state : σ) :
    (modify change : EStateM ε σ PUnit) state = .ok ⟨⟩ (change state) := rfl

@[simp]
theorem modify_bind (change : σ → σ) (next : PUnit → EStateM ε σ β) (state : σ) :
    ((modify change : EStateM ε σ PUnit) >>= next) state = next ⟨⟩ (change state) := rfl

theorem bind_of_ok {step : EStateM ε σ α} {next : α → EStateM ε σ β} {before after : σ}
    {value : α} (stepped : step before = .ok value after) :
    (step >>= next) before = next value after := by
  simp only [bind, EStateM.bind, stepped]

theorem bind_of_error {step : EStateM ε σ α} {next : α → EStateM ε σ β} {before after : σ}
    {error : ε} (failed : step before = .error error after) :
    (step >>= next) before = .error error after := by
  simp only [bind, EStateM.bind, failed]

theorem bind_eq_of_eq {step other : EStateM ε σ α} {next : α → EStateM ε σ β} {state : σ}
    (same : step state = other state) : (step >>= next) state = (other >>= next) state := by
  simp only [bind, EStateM.bind, same]

/-- A sequence of two steps fails as the first or as the second of them does. -/
theorem bind_eq_error_cases {step : EStateM ε σ α} {next : α → EStateM ε σ β} {before after : σ}
    {error : ε} (failed : (step >>= next) before = .error error after) :
    step before = .error error after ∨
      ∃ value middle, step before = .ok value middle ∧ next value middle = .error error after := by
  cases stepped : step before with
  | error first left =>
      rw [bind_of_error stepped] at failed
      cases failed
      exact .inl rfl
  | ok value middle =>
      rw [bind_of_ok stepped] at failed
      exact .inr ⟨value, middle, rfl, failed⟩

end Stateful

end Tuplet.Result
