import RobotControl.Command
import RobotControl.Keyword
import RobotControl.Literal

/-!
# Robots

A robot is a state machine. Reading a sensor gives a number, and a call either succeeds or makes the
robot halt; both may change its state.

* `Robot`: the interface that programs run against;
* `Robot.recorded`: the same robot, writing down everything that is asked of it;
* `Robot.sum`: one robot made of two kinds.
-/

namespace RobotControl

/-- A command as it reaches a robot. -/
abbrev Call := Command Int64

/-- The text of a call. -/
def Call.render (c : Call) : String := Command.render renderInt c

/-- A robot's refusal to go on. -/
structure Halt where
  reason : String
deriving DecidableEq, Repr

/-- A state machine with sensors and actuators. -/
structure Robot (σ : Type) where
  /-- Reads a sensor. -/
  sense : Sensor → StateM σ Int64
  /-- Carries out a call, or halts. -/
  act : Call → EStateM Halt σ Unit

/-- Something that was asked of a robot, with its answer. -/
inductive Event where
  | read (s : Sensor) (value : Int64)
  | called (c : Call) (refusal : Option Halt)
deriving DecidableEq, Repr

/-- The text of an event: what was read, or what was called. -/
def Event.render : Event → String
  | .read s v => Keyword.word s ++ "=" ++ renderInt v
  | .called c _ => c.render

namespace Robot

variable {σ τ : Type}

/-- Writes down every reading and every call. -/
def recorded (R : Robot σ) : Robot (σ × Array Event) where
  sense s := fun (st, events) =>
    let (v, st') := R.sense s st
    (v, st', events.push (.read s v))
  act c := fun (st, events) =>
    match R.act c st with
    | .ok _ st' => .ok () (st', events.push (.called c none))
    | .error h st' => .error h (st', events.push (.called c (some h)))

/-- A robot of either of two kinds. -/
def sum (R : Robot σ) (S : Robot τ) : Robot (σ ⊕ τ) where
  sense s
    | .inl a => let (v, a') := R.sense s a; (v, .inl a')
    | .inr b => let (v, b') := S.sense s b; (v, .inr b')
  act c
    | .inl a =>
      match R.act c a with
      | .ok _ a' => .ok () (.inl a')
      | .error h a' => .error h (.inl a')
    | .inr b =>
      match S.act c b with
      | .ok _ b' => .ok () (.inr b')
      | .error h b' => .error h (.inr b')

end Robot

end RobotControl
