import Mathlib.Tactic
import RobotControl.Proofs.Tracking
import RobotControl.Robot.Scripted

/-!
# Idle for ever

On a robot whose sensors can be read without changing anything, a round without an action leaves
everything as it was.  A step that is idle is then repeated for ever.

* `Robot.PureSensors`: reading does not change the state;
* `Stepper.Recalls`: every round under way in which there was no action yet has begun in the present
  state.  This holds until the first idle step;
* `Stepper.Rests`: all further steps are idle.  This holds from then on.
-/

namespace RobotControl

variable {σ : Type}

/-- Reading a sensor does not change the state of the robot. -/
def Robot.PureSensors (R : Robot σ) : Prop := ∀ x s, (R.sense x s).2 = s

theorem Scripted.pureSensors : Scripted.robot.PureSensors := fun _ _ => rfl

/-! ### Readings -/

namespace Robot.PureSensors

variable {R : Robot σ} {s : σ}

theorem sensesAlike (h : R.PureSensors) (s : σ) :
    R.SensesAlike R fun t t' => t = t' ∧ t' = s := by
  rintro x t _ ⟨rfl, rfl⟩
  exact .ok ⟨rfl, h x t⟩

theorem eval (h : R.PureSensors) {c : Cond} {r : EStateM.Result Fault σ Bool}
    (hr : c.eval R s = r) : stateAfter r = s := by
  subst hr
  exact (c.eval_agree (h.sensesAlike s) ⟨rfl, rfl⟩).stateAfter

theorem traverse (h : R.PureSensors) {a : Action} {r : EStateM.Result Fault σ Call}
    (hr : Command.traverse (Expr.eval R) a s = r) : stateAfter r = s := by
  subst hr
  exact (Command.traverse_agree (h.sensesAlike s) a ⟨rfl, rfl⟩).stateAfter

/-- An action that is carried out makes one call, in the state in which it begins. -/
theorem perform (h : R.PureSensors) {a : Action} {s' : σ}
    (ha : Action.perform R .off a s = .ok () s') : ∃ c, R.act c s = .ok () s' := by
  obtain ⟨c, s₁, hc, hact⟩ := Action.perform_eq_ok_iff.1 ha
  obtain rfl : s₁ = s := h.traverse hc
  exact ⟨c, hact⟩

/-- When an action fails, nothing has changed, or its call was refused. -/
theorem perform_error (h : R.PureSensors) {a : Action} {f : Fault} {s' : σ}
    (ha : Action.perform R .off a s = .error f s') : s' = s ∨ ∃ c e, R.act c s = .error e s' := by
  obtain hc | ⟨c, s₁, e, hc, hact, -⟩ := Action.perform_eq_error_iff.1 ha
  · exact .inl (h.traverse hc)
  · obtain rfl : s₁ = s := h.traverse hc
    exact .inr ⟨c, e, hact⟩

end Robot.PureSensors

namespace Frame

/-- The mark of a loop, if it has one. -/
def mark? : Frame → Option Nat
  | .seq _ => none
  | .loop _ mark => mark
  | .whileLoop _ _ mark => mark

@[simp] theorem mark?_again (c? : Option Cond) (body : Block) (mark : Option Nat) :
    (again c? body mark).mark? = mark := by
  cases c? <;> rfl

/-- The frames of two loops with equal marks are equal without them, too. -/
theorem again_congr {c? c?' : Option Cond} {body body' : Block} {mark mark' : Option Nat}
    (h : again c? body mark = again c?' body' mark') (mark₁ : Option Nat) :
    again c? body mark₁ = again c?' body' mark₁ := by
  cases c? <;> cases c?' <;> cases h <;> rfl

end Frame

namespace Stepper

variable {R : Robot σ} {m m' m₁ : Stepper} {s s' s₁ : σ} {k : Nat} {os : List Step}

/-- Only actions change the state. -/
theorem Transition.state_eq (h : R.PureSensors) {o : Option Step}
    (ht : Transition R .off m s o m' s') (ho : ∀ a, o ≠ some (.acted a)) : s' = s := by
  cases ht with
  | act => exact absurd rfl (ho _)
  | thenYes hc | thenNo hc | elseYes hc | elseNo hc | whileRound _ hc | whileExit _ hc =>
    exact h.eval hc
  | _ => rfl

theorem Runs.state_eq (h : R.PureSensors) (hrun : Runs R .off k m s os m' s')
    (hos : ∀ a, .acted a ∉ os) : s' = s := by
  induction hrun with
  | refl => rfl
  | tick ht _ _ ih =>
    rw [ih fun a ha => hos a (List.mem_append_right _ ha)]
    refine ht.state_eq h fun a ho => hos a ?_
    simp [ho]

/-! ### Rounds under way -/

/-- A round that is under way has begun in the present state, unless there was an action in it: from
its beginning, transitions without an outcome lead to the present place. -/
def Recalls (R : Robot σ) (m : Stepper) (s : σ) : Prop :=
  ∀ ⦃c? body n below⦄, Frame.again c? body (some n) :: below <:+ m.frames →
    n ≤ m.actions ∧
      (n = m.actions → ∃ k, Runs R .off k ⟨Frame.again c? body none :: below, n⟩ s [] m s)

/-- Frames without a mark play no part in this. -/
theorem suffix_of_mark?_eq_none {f : Frame} {frames below : List Frame} {c? : Option Cond}
    {body : Block} {n : Nat} (hf : f.mark? = none)
    (h : Frame.again c? body (some n) :: below <:+ f :: frames) :
    Frame.again c? body (some n) :: below <:+ frames := by
  rcases List.suffix_cons_iff.1 h with h | h
  · cases h
    simp at hf
  · exact h

theorem recalls_start (R : Robot σ) (p : Program) (s : σ) : Recalls R (.start p) s := by
  intro c? body n below h
  cases List.suffix_nil.1 (suffix_of_mark?_eq_none rfl h)

/-- A round that was under way before a transition without an outcome still is. -/
theorem Recalls.extend (hm : Recalls R m s) (ht : Transition R .off m s none m' s)
    {c? : Option Cond} {body : Block} {n : Nat} {below : List Frame}
    (h : Frame.again c? body (some n) :: below <:+ m.frames) :
    n ≤ m'.actions ∧
      (n = m'.actions → ∃ k, Runs R .off k ⟨Frame.again c? body none :: below, n⟩ s [] m' s) := by
  obtain ⟨hle, hrun⟩ := hm h
  rw [ht.actions_eq]
  refine ⟨hle, fun hn => ?_⟩
  obtain ⟨k, hrun⟩ := hrun hn
  exact ⟨k + 1, hrun.trans (.silent ht)⟩

/-- A round that begins now begins in the present state. -/
theorem Recalls.begin (c? : Option Cond) {body : Block} {mark : Option Nat} {n : Nat}
    {below : List Frame} (hm : Recalls R ⟨Frame.again c? body mark :: below, n⟩ s)
    (ht : Transition R .off ⟨Frame.again c? body mark :: below, n⟩ s none
      ⟨.seq body.toList :: Frame.again c? body (some n) :: below, n⟩ s)
    (ht' : Transition R .off ⟨Frame.again c? body none :: below, n⟩ s none
      ⟨.seq body.toList :: Frame.again c? body (some n) :: below, n⟩ s) :
    Recalls R ⟨.seq body.toList :: Frame.again c? body (some n) :: below, n⟩ s := by
  intro c?' body' n' below' h
  rcases List.suffix_cons_iff.1 (suffix_of_mark?_eq_none rfl h) with h | h
  · obtain ⟨hframe, rfl⟩ := List.cons.inj h
    have hn : n' = n := by simpa using congrArg Frame.mark? hframe
    subst hn
    refine ⟨le_rfl, fun _ => ⟨1, ?_⟩⟩
    rw [Frame.again_congr hframe none]
    exact .silent ht'
  · exact hm.extend ht (h.trans (List.suffix_cons _ _))

theorem Recalls.silent (hR : R.PureSensors) (hm : Recalls R m s)
    (ht : Transition R .off m s none m' s') : Recalls R m' s' := by
  obtain rfl : s' = s := ht.state_eq hR (by simp)
  have hext := @Recalls.extend _ _ _ _ _ hm ht
  cases ht with
  | leave | whileExit =>
    intro c? body n below h
    exact hext (h.trans (List.suffix_cons _ _))
  | thenNo =>
    intro c? body n below h
    have hbelow := suffix_of_mark?_eq_none rfl h
    exact hext (hbelow.trans (List.suffix_cons _ _))
  | enterLoop | enterWhile | thenYes | elseYes | elseNo =>
    intro c? body n below h
    have hbelow := suffix_of_mark?_eq_none rfl (suffix_of_mark?_eq_none rfl h)
    exact hext (hbelow.trans (List.suffix_cons _ _))
  | loopRound h => exact hm.begin none (.loopRound h) (.loopRound (by simp))
  | @whileRound c _ _ _ _ _ _ h hc =>
    exact hm.begin (some c) (.whileRound h hc) (.whileRound (by simp) hc)

/-- After an action no round is without one. -/
theorem Recalls.acted (hm : Recalls R m s) {a : Action}
    (ht : Transition R .off m s (some (.acted a)) m' s') : Recalls R m' s' := by
  cases ht with
  | act ha =>
    intro c? body n below h
    have hbelow := suffix_of_mark?_eq_none rfl h
    obtain ⟨hle, -⟩ := hm (hbelow.trans (List.suffix_cons _ _))
    exact ⟨hle.trans (Nat.le_succ _), fun hn => absurd hn (Nat.lt_succ_of_le hle).ne⟩

/-! ### Idle steps -/

/-- All further steps are idle. -/
def Rests (R : Robot σ) (m : Stepper) (s : σ) : Prop :=
  ∀ n, (steps R .off n m s).1 = List.replicate n .idle

theorem rests_of_fixed (h : m.step R .off s = ((.idle, m), s)) : Rests R m s := by
  intro n
  induction n with
  | zero => rfl
  | succ n ih => rw [steps_succ h, ih, List.replicate_succ]

theorem rests_of_idle (h : m.step R .off s = ((.idle, m'), s')) (hm' : Rests R m' s') :
    Rests R m s := by
  rintro (_ | n)
  · rfl
  · rw [steps_succ h, hm' n, List.replicate_succ]

/-- **Once idle, idle for ever.**  The loop that was idle has come back to where its round began,
and its next round will take the same way. -/
theorem rests_of_transition (hm : Recalls R m s)
    (ht : Transition R .off m s (some .idle) m' s') : Rests R m' s' := by
  have hfixed (c? : Option Cond) {body : Block} {n : Nat} {below : List Frame}
      (hm : Recalls R ⟨Frame.again c? body (some n) :: below, n⟩ s) :
      Rests R ⟨Frame.again c? body none :: below, n⟩ s := by
    obtain ⟨-, hrun⟩ := hm (List.suffix_refl _)
    obtain ⟨k, hrun⟩ := hrun rfl
    refine rests_of_fixed ?_
    rw [step_of_runs hrun, step_of_outcome (.idle c? n)]
  cases ht with
  | loopIdle => exact hfixed none hm
  | @whileIdle c => exact hfixed (some c) hm

theorem Rests.step (h : Rests R m s) :
    ∃ m' s', m.step R .off s = ((.idle, m'), s') ∧ Rests R m' s' := by
  obtain ⟨⟨⟨o, m'⟩, s'⟩, hstep⟩ : ∃ r, m.step R .off s = r := ⟨_, rfl⟩
  have hsteps (n : Nat) : o :: (steps R .off n m' s').1 = .idle :: List.replicate n .idle := by
    have hn := h (n + 1)
    rwa [steps_succ hstep, List.replicate_succ] at hn
  obtain rfl : o = .idle := (List.cons.inj (hsteps 0)).1
  exact ⟨m', s', hstep, fun n => (List.cons.inj (hsteps n)).2⟩

theorem Rests.outcomes_eq_idle (h : Rests R m s) (hrun : Runs R .off k m s os m' s') :
    ∀ o ∈ os, o = .idle := by
  intro o ho
  have hsteps := h (os.length + 1)
  rw [steps_of_runs hrun 0] at hsteps
  have hmem : o ∈ List.replicate (os.length + 1) Step.idle := hsteps ▸ List.mem_append_left _ ho
  exact (List.mem_replicate.1 hmem).2

theorem Rests.state_eq (hR : R.PureSensors) (h : Rests R m s)
    (hrun : Runs R .off k m s os m' s') : s' = s := by
  refine hrun.state_eq hR fun a ha => ?_
  cases h.outcomes_eq_idle hrun _ ha

theorem Rests.runs (h : Rests R m s) (hrun : Runs R .off k m s os m' s') : Rests R m' s' := by
  rintro (_ | n)
  · rfl
  · have hall := h (os.length + (n + 1))
    rw [steps_of_runs hrun n, List.replicate_add] at hall
    exact (List.append_inj hall (by simp)).2

/-- However the run goes on, from its first idle step it is at rest. -/
theorem rests_of_runs (hR : R.PureSensors) (hm : Recalls R m s)
    (hrun : Runs R .off k m s os m' s') (hidle : .idle ∈ os) : Rests R m' s' := by
  induction hrun with
  | refl => cases hidle
  | @tick _ o _ _ _ _ _ _ _ ht ho hrest ih =>
    cases o with
    | none => exact ih (hm.silent hR ht) hidle
    | some o =>
      cases o with
      | acted a =>
        rcases List.mem_cons.1 hidle with h | h
        · cases h
        · exact ih (hm.acted ht) h
      | idle => exact (rests_of_transition hm ht).runs hrest
      | finished => exact absurd rfl ho
      | failed f => cases ht

/-- Stepping at rest leaves the number of actions and the robot alone. -/
theorem Rests.steps_eq (hR : R.PureSensors) (h : Rests R m s) (n : Nat) :
    ∃ m', steps R .off n m s = (List.replicate n .idle, m', s) ∧ m'.actions = m.actions := by
  induction n generalizing m with
  | zero => exact ⟨m, rfl, rfl⟩
  | succ n ih =>
    obtain ⟨m₁, s₁, hstep, hrest⟩ := h.step
    obtain ⟨k, hrun⟩ := runs_of_step hstep not_false
    obtain rfl : s₁ = s := h.state_eq hR hrun
    obtain ⟨m', hsteps, hactions⟩ := ih hrest
    refine ⟨m', ?_, ?_⟩
    · rw [steps_succ hstep, hsteps, List.replicate_succ]
    · rw [hactions, hrun.actions_eq_add]
      rfl

/-- **Once idle, idle for ever.**  On a robot with pure sensors, and every scripted robot is one:
when the last of some steps through a program was idle, all further steps are idle, and neither the
number of actions nor the state of the robot changes again. -/
theorem idle_for_ever :
    (∀ {σ : Type} {R : Robot σ}, R.PureSensors →
      ∀ (p : Program) (s : σ) {n : Nat} {os : List Step} {m : Stepper} {s' : σ},
        steps R .off n (.start p) s = (os ++ [Step.idle], m, s') →
        ∀ k, ∃ m', steps R .off (n + k) (.start p) s =
            (os ++ List.replicate (k + 1) Step.idle, m', s') ∧ m'.actions = m.actions) ∧
      Scripted.robot.PureSensors := by
  constructor
  · intro σ R hR p s n os m s' h k
    obtain ⟨j, hrun⟩ := runs_of_last h not_false
    have hrest : Rests R m s' := rests_of_runs hR (recalls_start R p s) hrun (by simp)
    obtain ⟨m', hsteps, hactions⟩ := hrest.steps_eq hR k
    refine ⟨m', ?_, hactions⟩
    rw [steps_add, h, hsteps, List.append_assoc]
    rfl
  · exact Scripted.pureSensors

/-- A loop that moves on while there is fuel goes on for ever without an action when it is used up.
-/
theorem idle_when_out_of_fuel :
    let a : Action := .move (some (.num 3))
    let body : Block := .single (.ifThen (.compare .gt (.sensor .fuelLeft) (.num 0))
      (.single (.action a)))
    let p : Program := ⟨.single (.loop body)⟩
    let r : Scripted := { setup := { fuel := 5 } }
    let r' : Scripted := { r with fuel := 0, calls := #[.move (some 3), .move (some 3)] }
    let os : List Step := [.acted a, .acted a]
    let m : Stepper := ⟨[.loop body none, .seq []], 2⟩
    steps Scripted.robot .off 3 (.start p) r = (os ++ [Step.idle], m, r') ∧
      ∀ k, ∃ m', steps Scripted.robot .off (3 + k) (.start p) r =
        (os ++ List.replicate (k + 1) Step.idle, m', r') ∧ m'.actions = 2 := by
  intro a body p r r' os m
  have h : steps Scripted.robot .off 3 (.start p) r = (os ++ [Step.idle], m, r') := by
    decide +kernel
  exact ⟨h, idle_for_ever.1 Scripted.pureSensors p r h⟩

end Stepper

end RobotControl
