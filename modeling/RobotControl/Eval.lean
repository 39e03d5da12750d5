import RobotControl.Expr
import RobotControl.Fault

/-!
# Evaluating expressions and conditions

Arithmetic is exact: a result that does not fit into 64 bits is a fault, and so is a division by
zero. Operands are evaluated from left to right, and every mention of a sensor reads it anew. A
conjunction or disjunction looks at its right side only when the left side leaves the result open.
-/

namespace RobotControl

/-- The exact result of an operator; division goes toward zero. -/
def ArithOp.exact (op : ArithOp) (l r : Int) : Int :=
  match op with
  | .add => l + r
  | .sub => l - r
  | .mul => l * r
  | .div => l.tdiv r

/-- The result of an operator on 64-bit integers. -/
def ArithOp.apply (op : ArithOp) (l r : Int64) : Except Fault Int64 :=
  if op = .div ∧ r = 0 then .error (.divisionByZero l)
  else match fit? (op.exact l.toInt r.toInt) with
    | some v => .ok v
    | none => .error (.overflow op l r)

/-- Whether a comparison holds. -/
def RelOp.holds (op : RelOp) (l r : Int64) : Bool :=
  match op with
  | .lt => l.toInt < r.toInt
  | .gt => l.toInt > r.toInt
  | .eq => l = r

variable {σ : Type} (R : Robot σ)

/-- A sensor's reading. -/
def Robot.read (s : Sensor) : EStateM Fault σ Int64 := fun st =>
  let (v, st') := R.sense s st
  .ok v st'

/-- The value of an expression. -/
def Expr.eval : Expr → EStateM Fault σ Int64
  | .num v => pure v
  | .sensor s => R.read s
  | .binary op l r => do
    let a ← l.eval
    let b ← r.eval
    ofExcept (op.apply a b)

/-- Whether a condition holds. -/
def Cond.eval : Cond → EStateM Fault σ Bool
  | .compare op l r => do
    let a ← l.eval R
    let b ← r.eval R
    return op.holds a b
  | .conj l r => do if ← l.eval then r.eval else return false
  | .disj l r => do if ← l.eval then return true else r.eval
  | .neg c => do return !(← c.eval)

end RobotControl
