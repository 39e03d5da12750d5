import Mathlib.Tactic
import RobotControl.Proofs.Agreement
import RobotControl.Stepper

/-!
# Transitions and steps

A step is made of transitions.  This module says once what a single transition can do, and what
a sequence of transitions amounts to:

* `Stepper.Transition`: the transitions of a stepper, one rule for each, and `Stepper.Breaks`: the
  faults that can come instead.  `tick_eq_ok_iff` and `tick_eq_error_iff` say that `tick` does
  exactly this;
* `Stepper.Runs`: a counted sequence of transitions, with the outcomes that they bring about;
* `Stepper.Final`: the next transition ends the run;
* `Stepper.steps`: successive steps, with their outcomes;
* `Stepper.EndsWith`: successive steps come to a first terminal outcome.

`endsWith_iff` ties the two views together: stepping comes to a terminal outcome exactly when the
transitions lead to a final place.
-/

namespace RobotControl

/-- An outcome after which nothing is left to be done. -/
def Step.IsTerminal : Step → Prop
  | .finished | .failed _ => True
  | .acted _ | .idle => False

/-- Whether an outcome is an action. -/
def Step.isActed : Step → Bool
  | .acted _ => true
  | _ => false

variable {σ : Type}

/-! ### What an action does -/

section Performing

variable {R : Robot σ} {a : Action} {c : Call} {s s' : σ}

theorem Robot.dispatch_eq_ok_iff :
    R.dispatch .off a c s = .ok () s' ↔ R.act c s = .ok () s' := by
  unfold Robot.dispatch
  cases R.act c s <;> simp

theorem Robot.dispatch_eq_error_iff {f : Fault} :
    R.dispatch .off a c s = .error f s' ↔ ∃ h, R.act c s = .error h s' ∧ f = .halted h := by
  unfold Robot.dispatch
  cases R.act c s with
  | ok u s₁ => simp
  | error h s₁ =>
    simp only [Log.off_apply, EStateM.Result.error.injEq]
    constructor
    · rintro ⟨rfl, rfl⟩
      exact ⟨h, ⟨rfl, rfl⟩, rfl⟩
    · rintro ⟨h', ⟨rfl, rfl⟩, rfl⟩
      exact ⟨rfl, rfl⟩

/-- An action is carried out when its operand has a value and the robot accepts the call. -/
theorem Action.perform_eq_ok_iff :
    Action.perform R .off a s = .ok () s' ↔
      ∃ c s₁, Command.traverse (Expr.eval R) a s = .ok c s₁ ∧ R.act c s₁ = .ok () s' := by
  constructor
  · intro h
    obtain ⟨_, _, hsay, h⟩ := bind_eq_ok_iff.1 h
    cases hsay
    obtain ⟨c, s₁, hc, hcall⟩ := bind_eq_ok_iff.1 h
    exact ⟨c, s₁, hc, Robot.dispatch_eq_ok_iff.1 hcall⟩
  · rintro ⟨c, s₁, hc, hact⟩
    refine bind_eq_ok_iff.2 ⟨(), s, rfl, bind_eq_ok_iff.2 ⟨c, s₁, hc, ?_⟩⟩
    exact Robot.dispatch_eq_ok_iff.2 hact

/-- An action fails when its operand does, or when the robot refuses the call. -/
theorem Action.perform_eq_error_iff {f : Fault} :
    Action.perform R .off a s = .error f s' ↔
      Command.traverse (Expr.eval R) a s = .error f s' ∨
        ∃ c s₁ h, Command.traverse (Expr.eval R) a s = .ok c s₁ ∧ R.act c s₁ = .error h s' ∧
          f = .halted h := by
  constructor
  · intro h
    obtain hsay | ⟨_, _, hsay, h⟩ := bind_eq_error_iff.1 h <;> cases hsay
    obtain hc | ⟨c, s₁, hc, hcall⟩ := bind_eq_error_iff.1 h
    · exact .inl hc
    · obtain ⟨h, hact, hf⟩ := Robot.dispatch_eq_error_iff.1 hcall
      exact .inr ⟨c, s₁, h, hc, hact, hf⟩
  · intro h
    refine bind_eq_error_iff.2 (.inr ⟨(), s, rfl, bind_eq_error_iff.2 ?_⟩)
    rcases h with hc | ⟨c, s₁, h, hc, hact, hf⟩
    · exact .inl hc
    · exact .inr ⟨c, s₁, hc, Robot.dispatch_eq_error_iff.2 ⟨h, hact, hf⟩⟩

end Performing

namespace Stepper

/-! ### What a transition can do -/

/-- The transitions of a stepper: from a stepper and a robot state to others, with the outcome that
is brought about, if any. -/
inductive Transition (R : Robot σ) (log : Log σ) :
    Stepper → σ → Option Step → Stepper → σ → Prop
  | stop {n s} : Transition R log ⟨[], n⟩ s (some .finished) ⟨[], n⟩ s
  | leave {below n s} : Transition R log ⟨.seq [] :: below, n⟩ s none ⟨below, n⟩ s
  | act {a todo below n s s'} (h : Action.perform R log a s = .ok () s') :
    Transition R log ⟨.seq (.action a :: todo) :: below, n⟩ s (some (.acted a))
      ⟨.seq todo :: below, n + 1⟩ s'
  | enterLoop {body todo below n s} :
    Transition R log ⟨.seq (.loop body :: todo) :: below, n⟩ s none
      ⟨.loop body none :: .seq todo :: below, n⟩ s
  | enterWhile {c body todo below n s} :
    Transition R log ⟨.seq (.whileLoop c body :: todo) :: below, n⟩ s none
      ⟨.whileLoop c body none :: .seq todo :: below, n⟩ s
  | thenYes {c yes todo below n s s'} (h : c.eval R s = .ok true s') :
    Transition R log ⟨.seq (.ifThen c yes :: todo) :: below, n⟩ s none
      ⟨.seq yes.toList :: .seq todo :: below, n⟩ s'
  | thenNo {c yes todo below n s s'} (h : c.eval R s = .ok false s') :
    Transition R log ⟨.seq (.ifThen c yes :: todo) :: below, n⟩ s none ⟨.seq todo :: below, n⟩ s'
  | elseYes {c yes no todo below n s s'} (h : c.eval R s = .ok true s') :
    Transition R log ⟨.seq (.ifElse c yes no :: todo) :: below, n⟩ s none
      ⟨.seq yes.toList :: .seq todo :: below, n⟩ s'
  | elseNo {c yes no todo below n s s'} (h : c.eval R s = .ok false s') :
    Transition R log ⟨.seq (.ifElse c yes no :: todo) :: below, n⟩ s none
      ⟨.seq no.toList :: .seq todo :: below, n⟩ s'
  | loopIdle {body below n s} :
    Transition R log ⟨.loop body (some n) :: below, n⟩ s (some .idle) ⟨.loop body none :: below, n⟩
      (log .idleLoop s)
  | loopRound {body mark below n s} (h : mark ≠ some n) :
    Transition R log ⟨.loop body mark :: below, n⟩ s none
      ⟨.seq body.toList :: .loop body (some n) :: below, n⟩ s
  | whileIdle {c body below n s} :
    Transition R log ⟨.whileLoop c body (some n) :: below, n⟩ s (some .idle)
      ⟨.whileLoop c body none :: below, n⟩ (log .idleWhile s)
  | whileRound {c body mark below n s s'} (h : mark ≠ some n) (hc : c.eval R s = .ok true s') :
    Transition R log ⟨.whileLoop c body mark :: below, n⟩ s none
      ⟨.seq body.toList :: .whileLoop c body (some n) :: below, n⟩ s'
  | whileExit {c body mark below n s s'} (h : mark ≠ some n) (hc : c.eval R s = .ok false s') :
    Transition R log ⟨.whileLoop c body mark :: below, n⟩ s none ⟨below, n⟩ s'

variable {R : Robot σ} {log : Log σ} {m m' m₁ m₂ : Stepper} {s s' s₁ s₂ : σ}

theorem Transition.tick_eq {o : Option Step} (h : Transition R log m s o m' s') :
    m.tick R log s = .ok (o, m') s' := by
  cases h with
  | stop | leave | enterLoop | enterWhile => rfl
  | act h => exact bind_eq_ok_iff.2 ⟨(), _, h, rfl⟩
  | thenYes h | thenNo h | elseYes h | elseNo h => exact bind_eq_ok_iff.2 ⟨_, _, h, rfl⟩
  | loopIdle | whileIdle => simp only [tick, if_true]; rfl
  | loopRound h => simp only [tick, if_neg h]; rfl
  | whileRound h hc | whileExit h hc =>
    simp only [tick, if_neg h]
    exact bind_eq_ok_iff.2 ⟨_, _, hc, rfl⟩

/-- A statement at the front of a sequence begins by one of the rules for statements. -/
theorem transition_of_enter {todo : List Statement} {below : List Frame} {n : Nat}
    {st : Statement} {o : Option Step}
    (h : enter R log ⟨.seq (st :: todo) :: below, n⟩ (.seq todo :: below) st s = .ok (o, m') s') :
    Transition R log ⟨.seq (st :: todo) :: below, n⟩ s o m' s' := by
  cases st with
  | action a =>
    obtain ⟨_, _, ha, h⟩ := bind_eq_ok_iff.1 h
    cases h
    exact .act ha
  | loop body => cases h; exact .enterLoop
  | whileLoop c body => cases h; exact .enterWhile
  | ifThen c yes =>
    obtain ⟨holds, _, hc, h⟩ := bind_eq_ok_iff.1 h
    cases holds with
    | true => cases h; exact .thenYes hc
    | false => cases h; exact .thenNo hc
  | ifElse c yes no =>
    obtain ⟨holds, _, hc, h⟩ := bind_eq_ok_iff.1 h
    cases holds with
    | true => cases h; exact .elseYes hc
    | false => cases h; exact .elseNo hc

theorem transition_of_tick {o : Option Step} (h : m.tick R log s = .ok (o, m') s') :
    Transition R log m s o m' s' := by
  obtain ⟨_ | ⟨frame, below⟩, n⟩ := m
  · cases h; exact .stop
  cases frame with
  | seq todo =>
    cases todo with
    | nil => cases h; exact .leave
    | cons st todo => exact transition_of_enter h
  | loop body mark =>
    simp only [tick] at h
    split at h
    next hm => subst hm; cases h; exact .loopIdle
    next hm => cases h; exact .loopRound hm
  | whileLoop c body mark =>
    simp only [tick] at h
    split at h
    next hm => subst hm; cases h; exact .whileIdle
    next hm =>
      obtain ⟨holds, _, hc, h⟩ := bind_eq_ok_iff.1 h
      cases holds with
      | true => cases h; exact .whileRound hm hc
      | false => cases h; exact .whileExit hm hc

/-- **`tick` makes exactly the transitions of the rules.** -/
theorem tick_eq_ok_iff {o : Option Step} :
    m.tick R log s = .ok (o, m') s' ↔ Transition R log m s o m' s' :=
  ⟨transition_of_tick, Transition.tick_eq⟩

/-- The places where the next transition is a fault instead. -/
inductive Breaks (R : Robot σ) (log : Log σ) : Stepper → σ → Fault → σ → Prop
  | act {a todo below n f s s'} (h : Action.perform R log a s = .error f s') :
    Breaks R log ⟨.seq (.action a :: todo) :: below, n⟩ s f s'
  | ifThen {c yes todo below n f s s'} (h : c.eval R s = .error f s') :
    Breaks R log ⟨.seq (.ifThen c yes :: todo) :: below, n⟩ s f s'
  | ifElse {c yes no todo below n f s s'} (h : c.eval R s = .error f s') :
    Breaks R log ⟨.seq (.ifElse c yes no :: todo) :: below, n⟩ s f s'
  | whileLoop {c body mark below n f s s'} (h : mark ≠ some n) (hc : c.eval R s = .error f s') :
    Breaks R log ⟨.whileLoop c body mark :: below, n⟩ s f s'

theorem Breaks.tick_eq {f : Fault} (h : Breaks R log m s f s') :
    m.tick R log s = .error f s' := by
  cases h with
  | act h | ifThen h | ifElse h => exact bind_eq_error_iff.2 (.inl h)
  | whileLoop h hc =>
    simp only [tick, if_neg h]
    exact bind_eq_error_iff.2 (.inl hc)

theorem breaks_of_tick {f : Fault} (h : m.tick R log s = .error f s') : Breaks R log m s f s' := by
  obtain ⟨_ | ⟨frame, below⟩, n⟩ := m
  · cases h
  cases frame with
  | seq todo =>
    cases todo with
    | nil => cases h
    | cons st todo =>
      cases st with
      | action a =>
        obtain h | ⟨_, _, _, h⟩ := bind_eq_error_iff.1 h
        · exact .act h
        · cases h
      | loop body | whileLoop c body => cases h
      | ifThen c yes =>
        obtain h | ⟨holds, _, _, h⟩ := bind_eq_error_iff.1 h
        · exact .ifThen h
        · cases holds <;> cases h
      | ifElse c yes no =>
        obtain h | ⟨holds, _, _, h⟩ := bind_eq_error_iff.1 h
        · exact .ifElse h
        · cases holds <;> cases h
  | loop body mark =>
    simp only [tick] at h
    split at h <;> cases h
  | whileLoop c body mark =>
    simp only [tick] at h
    split at h
    · cases h
    next hm =>
      obtain h | ⟨holds, _, _, h⟩ := bind_eq_error_iff.1 h
      · exact .whileLoop hm h
      · cases holds <;> cases h

/-- **`tick` fails exactly where the rules say so.** -/
theorem tick_eq_error_iff {f : Fault} : m.tick R log s = .error f s' ↔ Breaks R log m s f s' :=
  ⟨breaks_of_tick, Breaks.tick_eq⟩

/-- The actions are counted. -/
theorem Transition.actions_eq_add {o : Option Step} (h : Transition R log m s o m' s') :
    m'.actions = m.actions + o.toList.countP Step.isActed := by
  cases h <;> rfl

theorem Transition.actions_eq (h : Transition R log m s none m' s') : m'.actions = m.actions :=
  h.actions_eq_add

/-- An outcome that comes about without a fault is terminal only when nothing is left to do. -/
theorem Transition.not_terminal {o : Step} (h : Transition R log m s (some o) m' s')
    (ho : o ≠ .finished) : ¬ o.IsTerminal := by
  cases h with
  | stop => exact absurd rfl ho
  | act | loopIdle | whileIdle => exact not_false

/-! ### Sequences of transitions -/

/-- `Runs R log k m s os m' s'`: `k` transitions lead from `m` and `s` to `m'` and `s'`, and bring
about the outcomes `os`; something was left to be done before each of them. -/
inductive Runs (R : Robot σ) (log : Log σ) :
    Nat → Stepper → σ → List Step → Stepper → σ → Prop
  | refl (m : Stepper) (s : σ) : Runs R log 0 m s [] m s
  | tick {k : Nat} {o : Option Step} {os : List Step} {m m₁ m' : Stepper} {s s₁ s' : σ}
    (h : Transition R log m s o m₁ s₁) (ho : o ≠ some .finished)
    (rest : Runs R log k m₁ s₁ os m' s') : Runs R log (k + 1) m s (o.toList ++ os) m' s'

/-- The next transition ends the run, with the outcome `o` and in the state `s'`. -/
def Final (R : Robot σ) (log : Log σ) (m : Stepper) (s : σ) (o : Step) (s' : σ) : Prop :=
  (m.frames = [] ∧ o = .finished ∧ s' = s) ∨ ∃ f, o = .failed f ∧ Breaks R log m s f s'

variable {k k' : Nat} {os os' : List Step}

theorem Final.of_nil {n : Nat} : Final R log ⟨[], n⟩ s .finished s := .inl ⟨rfl, rfl, rfl⟩

theorem Final.of_breaks {f : Fault} (h : Breaks R log m s f s') :
    Final R log m s (.failed f) s' := .inr ⟨f, rfl, h⟩

theorem Runs.single {o : Option Step} (h : Transition R log m s o m' s') (ho : o ≠ some .finished) :
    Runs R log 1 m s o.toList m' s' := by
  simpa using Runs.tick h ho (.refl m' s')

theorem Runs.silent (h : Transition R log m s none m' s') : Runs R log 1 m s [] m' s' :=
  .single h (by simp)

theorem Runs.trans (h : Runs R log k m s os m₁ s₁) (h' : Runs R log k' m₁ s₁ os' m' s') :
    Runs R log (k + k') m s (os ++ os') m' s' := by
  induction h with
  | refl => simpa using h'
  | tick ht ho _ ih =>
    rw [List.append_assoc, Nat.add_right_comm]
    exact .tick ht ho (ih h')

theorem Runs.actions_eq_add (h : Runs R log k m s os m' s') :
    m'.actions = m.actions + os.countP Step.isActed := by
  induction h with
  | refl => rfl
  | tick ht _ _ ih => rw [ih, ht.actions_eq_add, List.countP_append, Nat.add_assoc]

/-- Of two runs from one place the longer one goes on from the end of the shorter one. -/
theorem Runs.split {d : Nat} (h : Runs R log k m s os m₁ s₁)
    (h' : Runs R log (k + d) m s os' m' s') :
    ∃ os₁, os' = os ++ os₁ ∧ Runs R log d m₁ s₁ os₁ m' s' := by
  induction h generalizing os' with
  | refl => exact ⟨os', rfl, by simpa using h'⟩
  | tick ht ho _ ih =>
    rw [Nat.add_right_comm] at h'
    cases h' with
    | tick ht' ho' rest =>
      -- both runs make the same first transition
      have heq := ht.tick_eq.symm.trans ht'.tick_eq
      cases heq
      obtain ⟨os₁, rfl, h₁⟩ := ih rest
      exact ⟨os₁, by rw [List.append_assoc], h₁⟩

/-- From a final place there is no further transition. -/
theorem Final.eq_zero {o : Step} (hf : Final R log m s o s') (h : Runs R log k m s os m₁ s₁) :
    k = 0 := by
  cases h with
  | refl => rfl
  | tick ht ho rest =>
    exfalso
    rcases hf with ⟨hm, -, -⟩ | ⟨f, -, hf⟩
    · cases ht with
      | stop => exact ho rfl
      | _ => cases hm
    · cases ht.tick_eq.symm.trans hf.tick_eq

/-- No run is longer than one that ends in a final place. -/
theorem Final.le {o : Step} (hf : Final R log m₁ s₁ o s₂) (h₁ : Runs R log k m s os m₁ s₁)
    (h : Runs R log k' m s os' m' s') : k' ≤ k := by
  by_contra hlt
  obtain ⟨d, rfl⟩ := Nat.exists_eq_add_of_lt (not_le.1 hlt)
  obtain ⟨_, _, hrest⟩ := h₁.split (d := d + 1) h
  cases hf.eq_zero hrest

/-- A stepper has at most one end. -/
theorem Final.unique {o o' : Step} {t t' : σ} (hf : Final R log m₁ s₁ o t)
    (h₁ : Runs R log k m s os m₁ s₁) (hf' : Final R log m₂ s₂ o' t')
    (h₂ : Runs R log k' m s os' m₂ s₂) : os = os' ∧ o = o' ∧ t = t' := by
  obtain rfl : k = k' := Nat.le_antisymm (hf'.le h₂ h₁) (hf.le h₁ h₂)
  obtain ⟨_, rfl, hrest⟩ := h₁.split (d := 0) h₂
  cases hrest
  rw [List.append_nil]
  rcases hf with ⟨hm, rfl, rfl⟩ | ⟨f, rfl, hf⟩
  · rcases hf' with ⟨-, rfl, rfl⟩ | ⟨f', -, hf'⟩
    · exact ⟨rfl, rfl, rfl⟩
    · obtain ⟨frames, n⟩ := m₁
      cases hm
      cases hf'
  · rcases hf' with ⟨hm, -, -⟩ | ⟨f', rfl, hf'⟩
    · obtain ⟨frames, n⟩ := m₁
      cases hm
      cases hf
    · cases hf.tick_eq.symm.trans hf'.tick_eq
      exact ⟨rfl, rfl, rfl⟩

/-! ### States that only grow -/

variable {le : σ → σ → Prop}

theorem Transition.grows {o : Option Step} (h : R.Grows le) (ht : Transition R .off m s o m' s') :
    le s s' := by
  cases ht with
  | act ha => exact h.perform ha
  | thenYes hc | thenNo hc | elseYes hc | elseNo hc | whileRound _ hc | whileExit _ hc =>
    exact h.eval hc
  | _ => exact h.refl _

theorem Runs.grows (h : R.Grows le) (hrun : Runs R .off k m s os m' s') : le s s' := by
  induction hrun with
  | refl => exact h.refl _
  | tick ht _ _ ih => exact h.trans (ht.grows h) ih

theorem Final.grows {o : Step} (h : R.Grows le) (hf : Final R .off m s o s') : le s s' := by
  rcases hf with ⟨-, -, rfl⟩ | ⟨f, -, hf⟩
  · exact h.refl _
  · cases hf with
    | act ha => exact h.perform ha
    | ifThen hc | ifElse hc | whileLoop _ hc => exact h.eval hc

/-! ### Steps -/

theorem step_of_silent (h : Transition R log m s none m₁ s₁) :
    m.step R log s = m₁.step R log s₁ := by
  have hadv : m.advance R log s = m₁.advance R log s₁ := by
    rw [advance, h.tick_eq]
  unfold step
  rw [hadv, h.actions_eq]

theorem step_of_outcome {o : Step} (h : Transition R log m s (some o) m₁ s₁) :
    m.step R log s = ((o, m₁), s₁) := by
  unfold step
  rw [advance, h.tick_eq]

theorem step_of_fault {f : Fault} (h : Breaks R log m s f s₁) :
    m.step R log s = ((.failed f, ⟨[], m.actions⟩), s₁) := by
  unfold step
  rw [advance, h.tick_eq]

theorem step_of_runs (h : Runs R log k m s [] m₁ s₁) : m.step R log s = m₁.step R log s₁ := by
  generalize hos : ([] : List Step) = os at h
  induction h with
  | refl => rfl
  | @tick _ o _ _ _ _ _ _ _ ht ho _ ih =>
    cases o with
    | some o => cases hos
    | none => rw [step_of_silent ht, ih hos]

/-- What a step does: some transitions without an outcome, and then one that brings about the
outcome or ends the run. -/
theorem exists_runs_of_step (R : Robot σ) (log : Log σ) (m : Stepper) (s : σ) :
    ∃ k m₁ s₁, Runs R log k m s [] m₁ s₁ ∧
      ((∃ o m₂ s₂, o ≠ .finished ∧ Transition R log m₁ s₁ (some o) m₂ s₂) ∨
        ∃ o s₂, Final R log m₁ s₁ o s₂) := by
  induction hw : m.weight using Nat.strong_induction_on generalizing m s with
  | _ w ih =>
    subst hw
    cases ht : m.tick R log s with
    | error f s₂ => exact ⟨0, m, s, .refl m s, .inr ⟨_, s₂, .of_breaks (breaks_of_tick ht)⟩⟩
    | ok r s₂ =>
      obtain ⟨o, m₂⟩ := r
      have htr := transition_of_tick ht
      cases o with
      | none =>
        obtain ⟨k, m₁, s₁, hrun, hend⟩ := ih m₂.weight (weight_of_tick ht) m₂ s₂ rfl
        exact ⟨k + 1, m₁, s₁, .tick htr (by simp) hrun, hend⟩
      | some o =>
        by_cases ho : o = .finished
        · subst ho
          cases htr
          exact ⟨0, _, _, .refl _ _, .inr ⟨_, s, .of_nil⟩⟩
        · exact ⟨0, m, s, .refl m s, .inl ⟨o, m₂, s₂, ho, htr⟩⟩

theorem Final.step_eq {o : Step} (h : Final R log m s o s') :
    m.step R log s = ((o, ⟨[], m.actions⟩), s') := by
  rcases h with ⟨hm, rfl, rfl⟩ | ⟨f, rfl, hf⟩
  · obtain ⟨frames, n⟩ := m
    cases hm
    exact step_of_outcome .stop
  · exact step_of_fault hf

theorem Final.isTerminal {o : Step} (h : Final R log m s o s') : o.IsTerminal := by
  rcases h with ⟨-, rfl, -⟩ | ⟨f, rfl, -⟩ <;> trivial

/-- A step with an outcome that is not terminal is a run that brings about this outcome. -/
theorem runs_of_step {o : Step} (h : m.step R log s = ((o, m'), s')) (ho : ¬ o.IsTerminal) :
    ∃ k, Runs R log k m s [o] m' s' := by
  obtain ⟨k, m₁, s₁, hrun, ⟨o₁, m₂, s₂, ho₁, ht⟩ | ⟨o₁, s₂, hf⟩⟩ := exists_runs_of_step R log m s
  · rw [step_of_runs hrun, step_of_outcome ht] at h
    cases h
    exact ⟨_, hrun.trans (.single ht (by simpa using ho₁))⟩
  · rw [step_of_runs hrun, hf.step_eq] at h
    cases h
    exact absurd hf.isTerminal ho

/-- A step with a terminal outcome is a run to a final place. -/
theorem final_of_step {o : Step} (h : m.step R log s = ((o, m'), s')) (ho : o.IsTerminal) :
    ∃ k m₁ s₁, Runs R log k m s [] m₁ s₁ ∧ Final R log m₁ s₁ o s' := by
  obtain ⟨k, m₁, s₁, hrun, ⟨o₁, m₂, s₂, ho₁, ht⟩ | ⟨o₁, s₂, hf⟩⟩ := exists_runs_of_step R log m s
  · rw [step_of_runs hrun, step_of_outcome ht] at h
    cases h
    exact absurd ho (ht.not_terminal ho₁)
  · rw [step_of_runs hrun, hf.step_eq] at h
    cases h
    exact ⟨k, m₁, s₁, hrun, hf⟩

/-- After a terminal outcome nothing is left to do. -/
theorem frames_eq_nil_of_step {o : Step} (h : m.step R log s = ((o, m'), s'))
    (ho : o.IsTerminal) : m'.frames = [] := by
  obtain ⟨k, m₁, s₁, hrun, hf⟩ := final_of_step h ho
  rw [step_of_runs hrun, hf.step_eq] at h
  cases h
  rfl

/-! ### Successive steps -/

/-- The outcomes of `n` successive steps, with the stepper and the robot state after them. -/
def steps (R : Robot σ) (log : Log σ) : Nat → Stepper → σ → List Step × Stepper × σ
  | 0, m, s => ([], m, s)
  | n + 1, m, s =>
    let ((o, m'), s') := m.step R log s
    let (os, last) := steps R log n m' s'
    (o :: os, last)

/-- Stepping comes to `o` as its first terminal outcome, and leaves the robot in the state `s'`. -/
def EndsWith (R : Robot σ) (log : Log σ) (m : Stepper) (s : σ) (o : Step) (s' : σ) : Prop :=
  o.IsTerminal ∧
    ∃ os m', steps R log (os.length + 1) m s = (os ++ [o], m', s') ∧ ∀ o' ∈ os, ¬ o'.IsTerminal

theorem steps_succ {o : Step} {n : Nat} (h : m.step R log s = ((o, m₁), s₁)) :
    steps R log (n + 1) m s = (o :: (steps R log n m₁ s₁).1, (steps R log n m₁ s₁).2) := by
  rw [steps, h]

theorem steps_one {o : Step} (h : m.step R log s = ((o, m₁), s₁)) :
    steps R log 1 m s = ([o], m₁, s₁) := steps_succ h

theorem steps_add (R : Robot σ) (log : Log σ) (j n : Nat) (m : Stepper) (s : σ) :
    steps R log (j + n) m s =
      ((steps R log j m s).1 ++ (steps R log n (steps R log j m s).2.1 (steps R log j m s).2.2).1,
        (steps R log n (steps R log j m s).2.1 (steps R log j m s).2.2).2) := by
  induction j generalizing m s with
  | zero => simp [steps]
  | succ j ih =>
    obtain ⟨⟨⟨o, m₁⟩, s₁⟩, h⟩ : ∃ r, m.step R log s = r := ⟨_, rfl⟩
    rw [Nat.add_right_comm, steps_succ h, steps_succ h, ih]
    rfl

theorem length_steps (R : Robot σ) (log : Log σ) (n : Nat) (m : Stepper) (s : σ) :
    (steps R log n m s).1.length = n := by
  induction n generalizing m s with
  | zero => rfl
  | succ n ih =>
    obtain ⟨⟨⟨o, m₁⟩, s₁⟩, h⟩ : ∃ r, m.step R log s = r := ⟨_, rfl⟩
    rw [steps_succ h, List.length_cons, ih]

/-- Once nothing is left to do, every step says so and changes nothing. -/
theorem steps_of_finished (R : Robot σ) (log : Log σ) (n a : Nat) (s : σ) :
    steps R log n ⟨[], a⟩ s = (List.replicate n .finished, ⟨[], a⟩, s) := by
  induction n with
  | zero => rfl
  | succ n ih => rw [steps_succ (step_of_outcome .stop), ih, List.replicate_succ]

/-- The outcomes of a run are the outcomes of as many steps, and the next steps go on from the end
of the run. -/
theorem steps_of_runs (h : Runs R log k m s os m₁ s₁) (n : Nat) :
    steps R log (os.length + (n + 1)) m s =
      (os ++ (steps R log (n + 1) m₁ s₁).1, (steps R log (n + 1) m₁ s₁).2) := by
  induction h with
  | refl => simp
  | @tick _ o os m m₁ m' s s₁ s' ht ho _ ih =>
    cases o with
    | none =>
      -- a transition without an outcome belongs to the step that begins after it
      rw [Option.toList_none, List.nil_append, ← ih, ← Nat.add_assoc, steps, steps,
        step_of_silent ht]
    | some o =>
      rw [Option.toList_some, List.singleton_append, List.length_cons, Nat.add_right_comm,
        steps_succ (step_of_outcome ht), ih, List.cons_append]

/-- Successive steps without a terminal outcome are a run. -/
theorem runs_of_steps {n : Nat} (h : steps R log n m s = (os, m', s'))
    (hos : ∀ o ∈ os, ¬ o.IsTerminal) : ∃ k, Runs R log k m s os m' s' := by
  induction n generalizing m s os with
  | zero =>
    cases h
    exact ⟨0, .refl _ _⟩
  | succ n ih =>
    obtain ⟨⟨⟨o, m₁⟩, s₁⟩, hstep⟩ : ∃ r, m.step R log s = r := ⟨_, rfl⟩
    obtain ⟨⟨os₁, m₂, s₂⟩, hsteps⟩ : ∃ r, steps R log n m₁ s₁ = r := ⟨_, rfl⟩
    rw [steps_succ hstep, hsteps] at h
    cases h
    obtain ⟨k, hrest⟩ := ih hsteps fun o' ho' => hos o' (List.mem_cons_of_mem _ ho')
    obtain ⟨k₁, hfirst⟩ := runs_of_step hstep (hos o List.mem_cons_self)
    exact ⟨_, hfirst.trans hrest⟩

/-- Successive steps are a run when the last of them is not terminal: after a terminal outcome it
would be finished. -/
theorem runs_of_last {n : Nat} {o : Step} (h : steps R log n m s = (os ++ [o], m', s'))
    (ho : ¬ o.IsTerminal) : ∃ k, Runs R log k m s (os ++ [o]) m' s' := by
  refine runs_of_steps h ?_
  induction n generalizing m s os with
  | zero => simp [steps] at h
  | succ n ih =>
    obtain ⟨⟨⟨o₁, m₁⟩, s₁⟩, hstep⟩ : ∃ r, m.step R log s = r := ⟨_, rfl⟩
    obtain ⟨⟨os₁, m₂, s₂⟩, hsteps⟩ : ∃ r, steps R log n m₁ s₁ = r := ⟨_, rfl⟩
    rw [steps_succ hstep, hsteps] at h
    by_cases ho₁ : o₁.IsTerminal
    · exfalso
      obtain ⟨frames, a⟩ := m₁
      obtain rfl : frames = [] := frames_eq_nil_of_step hstep ho₁
      rw [steps_of_finished] at hsteps
      cases hsteps
      have hmem : o ∈ o₁ :: List.replicate n .finished := by
        rw [(Prod.mk.inj h).1]
        simp
      rcases List.mem_cons.1 hmem with rfl | hmem
      · exact ho ho₁
      · rw [(List.mem_replicate.1 hmem).2] at ho
        exact ho trivial
    · cases os with
      | nil =>
        cases h
        simpa using ho
      | cons o₂ os =>
        cases h
        intro o' ho'
        rcases List.mem_cons.1 ho' with rfl | ho'
        · exact ho₁
        · exact ih hsteps o' ho'

theorem Runs.not_terminal (h : Runs R log k m s os m' s') : ∀ o ∈ os, ¬ o.IsTerminal := by
  induction h with
  | refl => simp
  | @tick _ o os m m₁ m' s s₁ s' ht ho _ ih =>
    intro o' ho'
    rcases List.mem_append.1 ho' with hmem | hmem
    · rw [Option.mem_toList] at hmem
      cases hmem
      exact ht.not_terminal fun heq => ho (congrArg some heq)
    · exact ih o' hmem

/-- The outcomes of a run are those of as many steps. -/
theorem outcomes_of_runs (h : Runs R log k m s os m' s') : (steps R log os.length m s).1 = os := by
  have hmore := congrArg Prod.fst ((steps_add R log os.length 1 m s).symm.trans (steps_of_runs h 0))
  exact (List.append_inj hmore (length_steps R log os.length m s)).1

/-- A run to a final place, and the step that ends it. -/
theorem steps_of_final {o : Step} (h : Runs R log k m s os m₁ s₁) (hf : Final R log m₁ s₁ o s') :
    steps R log (os.length + 1) m s = (os ++ [o], ⟨[], m₁.actions⟩, s') := by
  rw [steps_of_runs h 0, steps_one hf.step_eq]

/-- Steps whose last outcome is the first terminal one are a run to a final place. -/
theorem final_of_steps {o : Step} (h : steps R log (os.length + 1) m s = (os ++ [o], m', s'))
    (ho : o.IsTerminal) (hos : ∀ o' ∈ os, ¬ o'.IsTerminal) :
    ∃ k m₁ s₁, Runs R log k m s os m₁ s₁ ∧ Final R log m₁ s₁ o s' := by
  rw [steps_add, Prod.mk.injEq] at h
  obtain ⟨⟨os₁, m₁, s₁⟩, hfirst⟩ : ∃ r, steps R log os.length m s = r := ⟨_, rfl⟩
  obtain ⟨⟨⟨o₁, m₂⟩, s₂⟩, hlast⟩ : ∃ r, m₁.step R log s₁ = r := ⟨_, rfl⟩
  rw [hfirst, steps_one hlast] at h
  have hlen : os₁.length = os.length := by
    rw [← length_steps R log os.length m s, hfirst]
  obtain ⟨rfl, ho₁⟩ := List.append_inj h.1 hlen
  cases ho₁
  cases h.2
  obtain ⟨k, hrun⟩ := runs_of_steps hfirst hos
  obtain ⟨k', m₃, s₃, hrun', hfinal⟩ := final_of_step hlast ho
  exact ⟨_, m₃, s₃, os₁.append_nil ▸ hrun.trans hrun', hfinal⟩

/-- **Stepping comes to a terminal outcome exactly when the transitions lead to a final place.** -/
theorem endsWith_iff {o : Step} :
    EndsWith R log m s o s' ↔
      ∃ k os m₁ s₁, Runs R log k m s os m₁ s₁ ∧ Final R log m₁ s₁ o s' := by
  constructor
  · rintro ⟨ho, os, m', h, hos⟩
    obtain ⟨k, m₁, s₁, hrun, hfinal⟩ := final_of_steps h ho hos
    exact ⟨k, os, m₁, s₁, hrun, hfinal⟩
  · rintro ⟨k, os, m₁, s₁, hrun, hfinal⟩
    exact ⟨hfinal.isTerminal, os, _, steps_of_final hrun hfinal, hrun.not_terminal⟩

/-- Successive steps are either a run, or they have come to an end and stay there. -/
theorem runs_or_endsWith (R : Robot σ) (log : Log σ) (n : Nat) (m : Stepper) (s : σ) :
    (∃ k, Runs R log k m s (steps R log n m s).1 (steps R log n m s).2.1 (steps R log n m s).2.2) ∨
      ∃ o, EndsWith R log m s o (steps R log n m s).2.2 := by
  induction n generalizing m s with
  | zero => exact .inl ⟨0, .refl m s⟩
  | succ n ih =>
    obtain ⟨⟨⟨o, m₁⟩, s₁⟩, hstep⟩ : ∃ r, m.step R log s = r := ⟨_, rfl⟩
    rw [steps_succ hstep]
    by_cases ho : o.IsTerminal
    · obtain ⟨k, m₂, s₂, hrun, hf⟩ := final_of_step hstep ho
      obtain ⟨frames, a⟩ := m₁
      obtain rfl : frames = [] := frames_eq_nil_of_step hstep ho
      rw [steps_of_finished]
      exact .inr ⟨o, endsWith_iff.2 ⟨k, [], m₂, s₂, hrun, hf⟩⟩
    · obtain ⟨k, hfirst⟩ := runs_of_step hstep ho
      rcases ih m₁ s₁ with ⟨k', hrest⟩ | ⟨o', hend⟩
      · exact .inl ⟨_, hfirst.trans hrest⟩
      · obtain ⟨k', os, m₂, s₂, hrest, hf⟩ := endsWith_iff.1 hend
        exact .inr ⟨o', endsWith_iff.2 ⟨_, _, m₂, s₂, hfirst.trans hrest, hf⟩⟩

end Stepper

end RobotControl
