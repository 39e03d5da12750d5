import RobotControl.Expr
import RobotControl.Robot.Scripted
import RobotControl.Token

/-!
# Notes on progress

Reading and running programs report what they are doing. A `Log` says how a note changes the state
of a run: `Log.off` drops it, and `Log.journal` keeps it in a journal beside the robot.

* `Note.line?`: a note as a line of text. Some notes mark the course of a run and have no line.
* `Robot.journaled`: a robot with a journal, to which it adds remarks of its own.
-/

namespace RobotControl

/-- A report on progress. -/
inductive Note where
  /-- A statement is about to be read. -/
  | reading (l : Lexeme)
  /-- An action is about to be carried out. -/
  | executing (a : Action)
  /-- The robot halted during an action. -/
  | halted (a : Action) (h : Halt)
  /-- An action has been carried out. -/
  | acted (a : Action)
  /-- The condition of a conditional statement has been decided. -/
  | decided (c : Cond) (holds : Bool)
  /-- A round of a loop begins. -/
  | roundBegins
  /-- A round of a loop is over. -/
  | roundEnds
  /-- A loop's condition no longer holds. -/
  | finished (c : Cond)
  /-- A round of an endless loop was over without an action. -/
  | idleLoop
  /-- A round of a loop with a condition was over without an action. -/
  | idleWhile
  /-- A scripted robot has no budget left for a call. -/
  | refused (c : Call) (budget : Nat)
deriving DecidableEq, Repr

/-- A note as a line of a log, with its level in front. -/
def Note.line? : Note → Option String
  | .reading l =>
    some ("TRACE parsing statement at '" ++ l.token.text ++ "' on line " ++ toString l.line)
  | .executing a => some ("DEBUG executing " ++ a.render)
  | .halted a h => some ("DEBUG robot halted during " ++ a.render ++ ": " ++ h.reason)
  | .decided c holds =>
    some ("TRACE if (" ++ c.render ++ ") evaluated to " ++ if holds then "true" else "false")
  | .finished c => some ("TRACE while (" ++ c.render ++ ") finished")
  | .idleLoop => some "TRACE loop iteration ended without an action"
  | .idleWhile => some "TRACE while iteration ended without an action"
  | .refused c b =>
    some ("DEBUG scripted robot refused " ++ c.render ++ ": budget of " ++ toString b ++ " spent")
  | .acted _ | .roundBegins | .roundEnds => none

/-- What a note does to the state of a run. -/
abbrev Log (σ : Type) := Note → σ → σ

/-- Notes in the order in which they were made. -/
abbrev Journal := Array Note

namespace Log

variable {σ : Type}

/-- Notes are dropped. -/
def off : Log σ := fun _ s => s

/-- Notes are kept in a journal. -/
def journal : Log (σ × Journal) := fun n (s, notes) => (s, notes.push n)

@[simp] theorem off_apply (n : Note) (s : σ) : off n s = s := rfl

end Log

/-- A robot beside a journal, with what the robot itself notes about a call in front of it. -/
def Robot.journaled {σ : Type} (R : Robot σ) (remark : Call → σ → Option Note) :
    Robot (σ × Journal) where
  sense s := fun (st, notes) =>
    let (v, st') := R.sense s st
    (v, st', notes)
  act c := fun (st, notes) =>
    let notes := notes ++ (remark c st).toArray
    match R.act c st with
    | .ok _ st' => .ok () (st', notes)
    | .error h st' => .error h (st', notes)

/-- A scripted robot notes that its budget is spent, unless it has refused the call before. -/
def Scripted.remark (c : Call) (r : Scripted) : Option Note :=
  match c with
  | .move _ => if r.fuel.toInt ≤ 0 then none else r.spent?.map (.refused c)
  | _ => r.spent?.map (.refused c)

end RobotControl
