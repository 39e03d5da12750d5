import RobotControl.Eval
import RobotControl.Note
import RobotControl.Program

/-!
# Running programs

A statement runs by recursion on its structure. A loop may go on for ever, so a run is given a
number of rounds that no loop in it may exceed. A run that needs more is unfinished, and keeps the
state it has reached.

* `Action.perform`: carries out an action;
* `Statement.exec`, `Block.exec`, `Program.exec`: run a program or a part of it.
-/

namespace RobotControl

/-- Why a run stopped before its end. -/
inductive Stop where
  | fault (f : Fault)
  | unfinished
deriving DecidableEq, Repr

variable {σ : Type} (R : Robot σ) (log : Log σ)

/-- Makes a note. -/
def Log.say {ε : Type} (n : Note) : EStateM ε σ Unit := modify (log n)

/-- Passes a call on to the robot, for the sake of the action `a`. -/
def Robot.dispatch (a : Action) (c : Call) : EStateM Fault σ Unit := fun s =>
  match R.act c s with
  | .ok _ s' => .ok () (log (.acted a) s')
  | .error h s' => .error (.halted h) (log (.halted a h) s')

/-- Evaluates the operand of an action, and carries the action out. -/
def Action.perform (a : Action) : EStateM Fault σ Unit := do
  log.say (.executing a)
  let c ← Command.traverse (Expr.eval R) a
  R.dispatch log a c

/-- Repeats `body` for ever, but at most for the given number of rounds. -/
def forever (body : EStateM Stop σ Unit) : Nat → EStateM Stop σ Unit
  | 0 => throw .unfinished
  | n + 1 => do
    body
    forever body n

/-- Repeats `body` while `test` holds, but at most for the given number of rounds. -/
def repeatWhile (test : EStateM Stop σ Bool) (body : EStateM Stop σ Unit) :
    Nat → EStateM Stop σ Unit
  | 0 => throw .unfinished
  | n + 1 => do
    if ← test then
      body
      repeatWhile test body n
    else
      return

/-- One round of a loop. -/
def Log.round (body : EStateM Stop σ Unit) : EStateM Stop σ Unit := do
  log.say .roundBegins
  body
  log.say .roundEnds

/-- Decides the condition of a conditional statement. -/
def Cond.decide (c : Cond) : EStateM Stop σ Bool := do
  let holds ← (c.eval R).adaptExcept .fault
  log.say (.decided c holds)
  return holds

mutual

/-- Runs a statement. -/
def Statement.exec (rounds : Nat) : Statement → EStateM Stop σ Unit
  | .action a => (Action.perform R log a).adaptExcept .fault
  | .loop body => forever (log.round (body.exec rounds)) rounds
  | .ifThen c yes => do if ← c.decide R log then yes.exec rounds else return
  | .ifElse c yes no => do if ← c.decide R log then yes.exec rounds else no.exec rounds
  | .whileLoop c body => do
    repeatWhile ((c.eval R).adaptExcept .fault) (log.round (body.exec rounds)) rounds
    log.say (.finished c)

/-- Runs the statements of a block one after the other. -/
def Block.exec (rounds : Nat) : Block → EStateM Stop σ Unit
  | .single s => s.exec rounds
  | .cons s rest => do
    s.exec rounds
    rest.exec rounds

end

/-- Runs a program. -/
def Program.exec (rounds : Nat) (p : Program) : EStateM Stop σ Unit := p.body.exec R log rounds

end RobotControl
