/-!
# Sequencing steps that can fail

Readers and runs are state transformers that end with a value or an error, and keep the state either
way. These lemmas take a sequence of two such steps apart.
-/

namespace RobotControl

variable {ε σ α β : Type} {x : EStateM ε σ α} {f : α → EStateM ε σ β} {s s' : σ}

/-- A sequence succeeds when both steps do. -/
theorem bind_eq_ok_iff {b : β} :
    (x >>= f) s = .ok b s' ↔ ∃ a t, x s = .ok a t ∧ f a t = .ok b s' := by
  change EStateM.bind x f s = _ ↔ _
  unfold EStateM.bind
  cases x s <;> simp [and_assoc]

/-- A sequence fails when its first step does, or the second one after it. -/
theorem bind_eq_error_iff {e : ε} :
    (x >>= f) s = .error e s' ↔
      x s = .error e s' ∨ ∃ a t, x s = .ok a t ∧ f a t = .error e s' := by
  change EStateM.bind x f s = _ ↔ _
  unfold EStateM.bind
  cases x s <;> simp [and_assoc]

/-- A sequence goes on with the second step when the first one succeeds. -/
theorem bind_of_ok {a : α} {t : σ} (h : x s = .ok a t) : (x >>= f) s = f a t := by
  change EStateM.bind x f s = _
  unfold EStateM.bind
  rw [h]

/-- It stops when the first one fails. -/
theorem bind_of_error {e : ε} {t : σ} (h : x s = .error e t) : (x >>= f) s = .error e t := by
  change EStateM.bind x f s = _
  unfold EStateM.bind
  rw [h]

/-- Looks at the state first. -/
theorem get_bind (f : σ → EStateM ε σ β) : (get >>= f) s = f s s := rfl

@[simp] theorem pure_apply (a : α) : (pure a : EStateM ε σ α) s = .ok a s := rfl

end RobotControl
