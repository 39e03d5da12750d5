import Mathlib.Tactic
import RobotControl.Stepper

/-!
# How long a step can take

A step is a loop of transitions up to the next outcome.  Programs have endless loops and a robot may
answer as it likes, but the number of actions stays the same during a step, so that a loop which
begins a round finds its own mark when it comes to the front again, and the step ends.  Hence the
statements that are on the stack bound the transitions of a step.

* `Stepper.advanceWithin`: the transitions of a step, given up after a number of them;
* `Frame.bounds`: a bound that depends on the frames alone.
-/

namespace RobotControl

/-- A bound on the transitions that a frame takes before an outcome, whatever its mark is. -/
def Frame.bound : Frame → Nat
  | .seq todo => Statement.weights todo + 1
  | .loop body _ | .whileLoop _ body _ => body.weight + 3

/-- The same for several frames. -/
def Frame.bounds : List Frame → Nat
  | [] => 0
  | f :: below => f.bound + bounds below

theorem Frame.weight_le_bound (actions : Nat) (f : Frame) : f.weight actions ≤ f.bound := by
  cases f with
  | seq todo => exact le_rfl
  | loop body mark | whileLoop c body mark =>
    simp only [Frame.weight, Frame.bound]
    split <;> omega

theorem Frame.weights_le_bounds (actions : Nat) (frames : List Frame) :
    Frame.weights actions frames ≤ Frame.bounds frames := by
  induction frames with
  | nil => exact le_rfl
  | cons f below ih => exact Nat.add_le_add (f.weight_le_bound actions) ih

namespace Stepper

variable {σ : Type} (R : Robot σ) (log : Log σ)

/-- Transitions up to the next outcome, if it comes about within the given number of them. -/
def advanceWithin : Nat → Stepper → σ → Option (EStateM.Result Fault σ (Step × Stepper))
  | 0, _, _ => none
  | n + 1, m, s =>
    match m.tick R log s with
    | .ok (none, m') s' => advanceWithin n m' s'
    | .ok (some o, m') s' => some (.ok (o, m') s')
    | .error f s' => some (.error f s')

/-- Each transition makes the weight smaller, so there are no more transitions than that. -/
theorem advanceWithin_of_weight_lt {n : Nat} {m : Stepper} (s : σ) (h : m.weight < n) :
    advanceWithin R log n m s = some (m.advance R log s) := by
  induction n generalizing m s with
  | zero => exact absurd h (Nat.not_lt_zero _)
  | succ n ih =>
    rw [advanceWithin, advance]
    cases ht : m.tick R log s with
    | error f s' => rfl
    | ok r s' =>
      obtain ⟨_ | o, m'⟩ := r
      · exact ih s' ((weight_of_tick ht).trans_le (Nat.le_of_lt_succ h))
      · rfl

/-- **Every step ends, after a number of transitions that only the frames determine.**  Neither the
robot and its answers, nor the state it is in, nor the marks and the number of actions make a step
longer than that. -/
theorem advance_within_bounds (frames : List Frame) (actions : Nat) (s : σ) :
    advanceWithin R log (Frame.bounds frames + 1) ⟨frames, actions⟩ s =
      some (advance R log ⟨frames, actions⟩ s) := by
  have hweight : weight ⟨frames, actions⟩ ≤ Frame.bounds frames :=
    Frame.weights_le_bounds actions frames
  exact advanceWithin_of_weight_lt R log s (Nat.lt_succ_of_le hweight)

end Stepper

end RobotControl
