import Mathlib.Tactic
import RobotControl.Exec
import RobotControl.Sequencing

/-!
# Evaluation on two robots

Two robots whose states are related, and whose sensors answer alike in related states, give every
expression and every condition the same value, the same fault, and related states after it.

* `Agree`: two results with the same answer and related states;
* `Expr.sensors`, `Cond.sensors`, `Action.sensors`: the sensors that are mentioned;
* `Robot.SensesAlike`: the sensors of two robots answer alike;
  `Robot.SensesAlikeOn`: some of them do;
* `Expr.eval_agreeOn`, `Cond.eval_agreeOn`: evaluation on two robots.  Only the sensors that are
  mentioned have to answer alike;
* `Robot.Grows`: what is asked of a robot only ever adds to its state.
-/

namespace RobotControl

/-- The same answer in related states: `Ok` relates the states after a success, `Err` those after a
failure. -/
inductive Agree {ε α τ σ : Type} (Ok Err : τ → σ → Prop) :
    EStateM.Result ε τ α → EStateM.Result ε σ α → Prop
  | ok {a : α} {t : τ} {s : σ} (h : Ok t s) : Agree Ok Err (.ok a t) (.ok a s)
  | error {e : ε} {t : τ} {s : σ} (h : Err t s) : Agree Ok Err (.error e t) (.error e s)

variable {ε α β τ σ : Type} {Ok Mid Err Rel : τ → σ → Prop} {t : τ} {s : σ}

theorem Agree.bind {x : EStateM ε τ α} {y : EStateM ε σ α} {f : α → EStateM ε τ β}
    {g : α → EStateM ε σ β} (h : Agree Mid Err (x t) (y s))
    (hfg : ∀ a t s, Mid t s → Agree Ok Err (f a t) (g a s)) :
    Agree Ok Err ((x >>= f) t) ((y >>= g) s) := by
  show Agree Ok Err (EStateM.bind x f t) (EStateM.bind y g s)
  unfold EStateM.bind
  generalize x t = rx, y s = ry at h
  cases h with
  | ok h => exact hfg _ _ _ h
  | error h => exact .error h

theorem Agree.pure (a : α) (h : Ok t s) :
    Agree Ok Err ((pure a : EStateM ε τ α) t) ((pure a : EStateM ε σ α) s) := .ok h

/-- In related states the sensors answer alike, and leave related states. -/
def Robot.SensesAlike (R₁ : Robot τ) (R₂ : Robot σ) (Rel : τ → σ → Prop) : Prop :=
  ∀ x t s, Rel t s → Agree Rel Rel (R₁.read x t) (R₂.read x s)

/-- In related states the sensors in `xs` answer alike, and leave related states. -/
def Robot.SensesAlikeOn (R₁ : Robot τ) (R₂ : Robot σ) (Rel : τ → σ → Prop) (xs : List Sensor) :
    Prop :=
  ∀ x ∈ xs, ∀ t s, Rel t s → Agree Rel Rel (R₁.read x t) (R₂.read x s)

/-- The sensors that an expression mentions. -/
def Expr.sensors : Expr → List Sensor
  | .num _ => []
  | .sensor x => [x]
  | .binary _ l r => l.sensors ++ r.sensors

/-- The sensors that a condition mentions. -/
def Cond.sensors : Cond → List Sensor
  | .compare _ l r => l.sensors ++ r.sensors
  | .conj l r | .disj l r => l.sensors ++ r.sensors
  | .neg c => c.sensors

/-- The sensors that the operand of an action mentions. -/
def Action.sensors (a : Action) : List Sensor := a.operand?.elim [] Expr.sensors

variable {R₁ : Robot τ} {R₂ : Robot σ} {xs ys : List Sensor}

theorem Robot.SensesAlike.on (h : R₁.SensesAlike R₂ Rel) (xs : List Sensor) :
    R₁.SensesAlikeOn R₂ Rel xs := fun x _ => h x

theorem Robot.SensesAlikeOn.mono (h : R₁.SensesAlikeOn R₂ Rel xs) (hsub : ys ⊆ xs) :
    R₁.SensesAlikeOn R₂ Rel ys := fun x hx => h x (hsub hx)

theorem Robot.SensesAlikeOn.left (h : R₁.SensesAlikeOn R₂ Rel (xs ++ ys)) :
    R₁.SensesAlikeOn R₂ Rel xs := h.mono (List.subset_append_left xs ys)

theorem Robot.SensesAlikeOn.right (h : R₁.SensesAlikeOn R₂ Rel (xs ++ ys)) :
    R₁.SensesAlikeOn R₂ Rel ys := h.mono (List.subset_append_right xs ys)

theorem Expr.eval_agreeOn {e : Expr} (hR : R₁.SensesAlikeOn R₂ Rel e.sensors) (h : Rel t s) :
    Agree Rel Rel (e.eval R₁ t) (e.eval R₂ s) := by
  induction e generalizing t s with
  | num v => exact .pure v h
  | sensor x => exact hR x List.mem_cons_self t s h
  | binary op l r ihl ihr =>
    refine (ihl hR.left h).bind fun a t₁ s₁ h₁ => ?_
    refine (ihr hR.right h₁).bind fun b t₂ s₂ h₂ => ?_
    cases op.apply a b with
    | ok v => exact .ok h₂
    | error f => exact .error h₂

theorem Cond.eval_agreeOn {c : Cond} (hR : R₁.SensesAlikeOn R₂ Rel c.sensors) (h : Rel t s) :
    Agree Rel Rel (c.eval R₁ t) (c.eval R₂ s) := by
  induction c generalizing t s with
  | compare op l r =>
    refine (Expr.eval_agreeOn hR.left h).bind fun a t₁ s₁ h₁ => ?_
    exact (Expr.eval_agreeOn hR.right h₁).bind fun b t₂ s₂ h₂ => .pure _ h₂
  | conj l r ihl ihr =>
    refine (ihl hR.left h).bind fun holds t₁ s₁ h₁ => ?_
    cases holds with
    | true => exact ihr hR.right h₁
    | false => exact .pure false h₁
  | disj l r ihl ihr =>
    refine (ihl hR.left h).bind fun holds t₁ s₁ h₁ => ?_
    cases holds with
    | true => exact .pure true h₁
    | false => exact ihr hR.right h₁
  | neg c ih => exact (ih hR h).bind fun holds t₁ s₁ h₁ => .pure _ h₁

/-- The call that an action stands for is the same on both robots. -/
theorem Command.traverse_agreeOn {a : Action} (hR : R₁.SensesAlikeOn R₂ Rel (Action.sensors a))
    (h : Rel t s) :
    Agree Rel Rel (Command.traverse (Expr.eval R₁) a t) (Command.traverse (Expr.eval R₂) a s) := by
  cases a with
  | move x | wait x =>
    cases x with
    | none => exact .pure _ h
    | some e => exact (Expr.eval_agreeOn hR h).bind fun v t₁ s₁ h₁ => .pure _ h₁
  | _ => exact .pure _ h

/-- An action whose calls have the same answers on both robots is carried out alike. -/
theorem Action.perform_agreeOn {log₁ : Log τ} {log₂ : Log σ} {a : Action}
    (hR : R₁.SensesAlikeOn R₂ Rel (Action.sensors a))
    (hnote : Rel (log₁ (.executing a) t) (log₂ (.executing a) s))
    (hact : ∀ c t s, Rel t s → Agree Ok Rel (R₁.dispatch log₁ a c t) (R₂.dispatch log₂ a c s)) :
    Agree Ok Rel (Action.perform R₁ log₁ a t) (Action.perform R₂ log₂ a s) := by
  have hsaid : Agree Rel Rel ((log₁.say (.executing a) : EStateM Fault τ Unit) t)
      ((log₂.say (.executing a) : EStateM Fault σ Unit) s) := .ok hnote
  refine hsaid.bind fun _ t₁ s₁ h₁ => ?_
  exact (Command.traverse_agreeOn hR h₁).bind fun c t₂ s₂ h₂ => hact c t₂ s₂ h₂

/-! ### Robots all of whose sensors answer alike -/

theorem Cond.eval_agree (hR : R₁.SensesAlike R₂ Rel) (c : Cond) (h : Rel t s) :
    Agree Rel Rel (c.eval R₁ t) (c.eval R₂ s) := Cond.eval_agreeOn (hR.on _) h

theorem Command.traverse_agree (hR : R₁.SensesAlike R₂ Rel) (a : Action) (h : Rel t s) :
    Agree Rel Rel (Command.traverse (Expr.eval R₁) a t) (Command.traverse (Expr.eval R₂) a s) :=
  Command.traverse_agreeOn (hR.on _) h

theorem Action.perform_agree {log₁ : Log τ} {log₂ : Log σ} (hR : R₁.SensesAlike R₂ Rel) {a : Action}
    (hnote : Rel (log₁ (.executing a) t) (log₂ (.executing a) s))
    (hact : ∀ c t s, Rel t s → Agree Ok Rel (R₁.dispatch log₁ a c t) (R₂.dispatch log₂ a c s)) :
    Agree Ok Rel (Action.perform R₁ log₁ a t) (Action.perform R₂ log₂ a s) :=
  Action.perform_agreeOn (hR.on _) hnote hact

/-! ### States that only grow -/

/-- The state that a result leaves behind. -/
def stateAfter : EStateM.Result ε σ α → σ
  | .ok _ s => s
  | .error _ s => s

/-- A result that agrees with itself on states with a property leaves such a state. -/
theorem Agree.stateAfter {P : σ → Prop} {r : EStateM.Result ε σ α}
    (h : Agree (fun t s => t = s ∧ P s) (fun t s => t = s ∧ P s) r r) :
    P (RobotControl.stateAfter r) := by
  cases h with
  | ok h | error h => exact h.2

/-- Readings and calls lead upward in the preorder `le`. -/
structure Robot.Grows (R : Robot σ) (le : σ → σ → Prop) : Prop where
  refl : ∀ s, le s s
  trans : ∀ {s₁ s₂ s₃}, le s₁ s₂ → le s₂ s₃ → le s₁ s₃
  read : ∀ x s, le s (stateAfter (R.read x s))
  act : ∀ c s, le s (stateAfter (R.act c s))

namespace Robot.Grows

variable {R : Robot σ} {le : σ → σ → Prop}

/-- Growth is agreement of a robot with itself. -/
theorem sensesAlike (h : R.Grows le) (s₀ : σ) : R.SensesAlike R fun t s => t = s ∧ le s₀ s := by
  rintro x t s ⟨rfl, hle⟩
  exact .ok ⟨rfl, h.trans hle (h.read x t)⟩

theorem eval (h : R.Grows le) {c : Cond} {s : σ} {r : EStateM.Result Fault σ Bool}
    (hr : c.eval R s = r) : le s (stateAfter r) := by
  subst hr
  exact (c.eval_agree (h.sensesAlike s) ⟨rfl, h.refl s⟩).stateAfter

theorem perform (h : R.Grows le) {a : Action} {s : σ} {r : EStateM.Result Fault σ Unit}
    (hr : Action.perform R .off a s = r) : le s (stateAfter r) := by
  subst hr
  refine (Action.perform_agree (h.sensesAlike s) ⟨rfl, h.refl s⟩ ?_).stateAfter
  rintro c t _ ⟨rfl, hle⟩
  have hgrows := h.act c t
  unfold Robot.dispatch
  cases hact : R.act c t with
  | ok u t' => exact .ok ⟨rfl, h.trans hle (by simpa [hact, stateAfter] using hgrows)⟩
  | error e t' => exact .error ⟨rfl, h.trans hle (by simpa [hact, stateAfter] using hgrows)⟩

end Robot.Grows

end RobotControl
