import RobotControl.Exec
import RobotControl.Sequencing

/-!
# Running programs step by step

A stepper runs a program up to its next action and then waits. What is still to be done is a stack
of frames, the innermost first. A round of a loop that ends without an action also ends the step, so
that every step comes to an end, whatever the sensors show.

The actions are counted with natural numbers, here and in the marks of the frames. A counter of 64
bits shows the same numbers during the first `2 ^ 64 - 1` actions, and cannot count beyond them.

* `Stepper.tick`: one transition of the stack;
* `Stepper.advance`: transitions up to the next outcome. Each one makes `Stepper.weight` smaller;
* `Stepper.step`: the same, with a fault as an outcome. After a fault nothing is left to do.
-/

namespace RobotControl

/-- What is still to be done at one level. The mark of a loop is the number of actions at the start
of its current round, and is absent between rounds. -/
inductive Frame where
  | seq (todo : List Statement)
  | loop (body : Block) (mark : Option Nat)
  | whileLoop (test : Cond) (body : Block) (mark : Option Nat)
deriving DecidableEq, Repr

/-- A program in the middle of a run, and the number of actions so far. -/
structure Stepper where
  frames : List Frame
  actions : Nat := 0
deriving DecidableEq, Repr

/-- The outcome of a step. -/
inductive Step where
  | acted (a : Action)
  | idle
  | finished
  | failed (f : Fault)
deriving DecidableEq, Repr

/-! ### How much can happen before an outcome -/

mutual

/-- A bound on the transitions that a statement takes before an outcome. -/
def Statement.weight : Statement → Nat
  | .action _ => 1
  | .loop body => body.weight + 4
  | .ifThen _ yes => yes.weight + 2
  | .ifElse _ yes no => yes.weight + no.weight + 2
  | .whileLoop _ body => body.weight + 4

/-- The same for the statements of a block together. -/
def Block.weight : Block → Nat
  | .single s => s.weight
  | .cons s rest => s.weight + rest.weight

end

/-- The same for several statements. -/
def Statement.weights : List Statement → Nat
  | [] => 0
  | s :: rest => s.weight + weights rest

/-- The same for a frame, after `actions` actions. A loop whose round began then is idle when it
comes to the front again. -/
def Frame.weight (actions : Nat) : Frame → Nat
  | .seq todo => Statement.weights todo + 1
  | .loop body mark => if mark = some actions then 1 else body.weight + 3
  | .whileLoop _ body mark => if mark = some actions then 1 else body.weight + 3

/-- The same for several frames. -/
def Frame.weights (actions : Nat) : List Frame → Nat
  | [] => 0
  | f :: below => f.weight actions + weights actions below

theorem Block.weights_toList : (b : Block) → Statement.weights b.toList = b.weight
  | .single _ => rfl
  | .cons s rest => congrArg (s.weight + ·) rest.weights_toList

namespace Stepper

/-- A stepper at the start of a program. -/
def start (p : Program) : Stepper := { frames := [.seq p.statements] }

/-- Nothing is left to be done. -/
def isFinished (m : Stepper) : Bool := m.frames.isEmpty

/-- A bound on the transitions before an outcome. -/
def weight (m : Stepper) : Nat := Frame.weights m.actions m.frames

variable {σ : Type} (R : Robot σ) (log : Log σ)

/-- Goes on with other frames, without an outcome. -/
def goto (m : Stepper) (frames : List Frame) : Option Step × Stepper := (none, { m with frames })

/-- Begins a statement, with `below` still to be done after it. -/
def enter (m : Stepper) (below : List Frame) :
    Statement → EStateM Fault σ (Option Step × Stepper)
  | .action a => do
    Action.perform R log a
    return (some (.acted a), { frames := below, actions := m.actions + 1 })
  | .loop body => return m.goto (.loop body none :: below)
  | .ifThen c yes => do
    if ← c.eval R then return m.goto (.seq yes.toList :: below) else return m.goto below
  | .ifElse c yes no => do
    if ← c.eval R then return m.goto (.seq yes.toList :: below)
    else return m.goto (.seq no.toList :: below)
  | .whileLoop c body => return m.goto (.whileLoop c body none :: below)

/-- One transition, with the outcome that it brings about, if any. -/
def tick (m : Stepper) : EStateM Fault σ (Option Step × Stepper) :=
  match m.frames with
  | [] => return (some .finished, m)
  | .seq [] :: below => return m.goto below
  | .seq (s :: todo) :: below => m.enter R log (.seq todo :: below) s
  | .loop body mark :: below =>
    if mark = some m.actions then do
      log.say .idleLoop
      return (some .idle, { m with frames := .loop body none :: below })
    else
      return m.goto (.seq body.toList :: .loop body (some m.actions) :: below)
  | .whileLoop c body mark :: below =>
    if mark = some m.actions then do
      log.say .idleWhile
      return (some .idle, { m with frames := .whileLoop c body none :: below })
    else do
      if ← c.eval R then
        return m.goto (.seq body.toList :: .whileLoop c body (some m.actions) :: below)
      else
        return m.goto below

/-! ### Steps -/

variable {R log}

/-- What is left to do after a transition to other frames. -/
theorem weight_of_goto {m m' : Stepper} {frames : List Frame} {s s' : σ}
    (h : (pure (m.goto frames) : EStateM Fault σ _) s = .ok (none, m') s') :
    m'.weight = Frame.weights m.actions frames := by
  cases h
  rfl

/-- A statement that brings about no outcome leaves less to do than it was itself. -/
theorem weight_of_enter {m m' : Stepper} {below : List Frame} {st : Statement} {s s' : σ}
    (h : m.enter R log below st s = .ok (none, m') s') :
    m'.weight < st.weight + Frame.weights m.actions below := by
  cases st with
  | action a =>
    obtain ⟨_, _, _, h⟩ := bind_eq_ok_iff.1 h
    cases h
  | loop body =>
    rw [weight_of_goto h]
    simp only [Frame.weights, Frame.weight, Statement.weight, reduceCtorEq, if_false]
    omega
  | ifThen c yes =>
    obtain ⟨holds, _, _, h⟩ := bind_eq_ok_iff.1 h
    cases holds with
    | true =>
      rw [if_pos rfl] at h
      rw [weight_of_goto h]
      simp only [Frame.weights, Frame.weight, Statement.weight, Block.weights_toList]
      omega
    | false =>
      rw [if_neg Bool.false_ne_true] at h
      rw [weight_of_goto h, Statement.weight]
      omega
  | ifElse c yes no =>
    obtain ⟨holds, _, _, h⟩ := bind_eq_ok_iff.1 h
    cases holds with
    | true =>
      rw [if_pos rfl] at h
      rw [weight_of_goto h]
      simp only [Frame.weights, Frame.weight, Statement.weight, Block.weights_toList]
      omega
    | false =>
      rw [if_neg Bool.false_ne_true] at h
      rw [weight_of_goto h]
      simp only [Frame.weights, Frame.weight, Statement.weight, Block.weights_toList]
      omega
  | whileLoop c body =>
    rw [weight_of_goto h]
    simp only [Frame.weights, Frame.weight, Statement.weight, reduceCtorEq, if_false]
    omega

/-- A transition without an outcome leaves less to do. -/
theorem weight_of_tick {m m' : Stepper} {s s' : σ}
    (h : m.tick R log s = .ok (none, m') s') : m'.weight < m.weight := by
  obtain ⟨_ | ⟨frame, below⟩, actions⟩ := m
  · cases h
  cases frame with
  | seq todo =>
    cases todo with
    | nil =>
      rw [weight_of_goto h]
      simp only [weight, Frame.weights, Frame.weight, Statement.weights]
      omega
    | cons st todo =>
      have := weight_of_enter h
      simp only [weight, Frame.weights, Frame.weight, Statement.weights] at this ⊢
      omega
  | loop body mark =>
    simp only [tick] at h
    split at h
    · obtain ⟨_, _, _, h⟩ := bind_eq_ok_iff.1 h
      cases h
    next hm =>
      rw [weight_of_goto h]
      simp only [weight, Frame.weights, Frame.weight, if_neg hm, if_true, Block.weights_toList]
      omega
  | whileLoop c body mark =>
    simp only [tick] at h
    split at h
    · obtain ⟨_, _, _, h⟩ := bind_eq_ok_iff.1 h
      cases h
    next hm =>
      obtain ⟨holds, _, _, h⟩ := bind_eq_ok_iff.1 h
      cases holds with
      | true =>
        rw [if_pos rfl] at h
        rw [weight_of_goto h]
        simp only [weight, Frame.weights, Frame.weight, if_neg hm, if_true, Block.weights_toList]
        omega
      | false =>
        rw [if_neg Bool.false_ne_true] at h
        rw [weight_of_goto h]
        simp only [weight, Frame.weights, Frame.weight, if_neg hm]
        omega

variable (R log)

/-- Transitions up to the next outcome. -/
def advance (m : Stepper) (s : σ) : EStateM.Result Fault σ (Step × Stepper) :=
  match _ : m.tick R log s with
  | .ok (none, m') s' => advance m' s'
  | .ok (some o, m') s' => .ok (o, m') s'
  | .error f s' => .error f s'
termination_by m.weight
decreasing_by exact weight_of_tick ‹_›

/-- Runs up to the next outcome. -/
def step (m : Stepper) : StateM σ (Step × Stepper) := fun s =>
  match m.advance R log s with
  | .ok r s' => (r, s')
  | .error f s' => ((.failed f, { m with frames := [] }), s')

end Stepper

end RobotControl
