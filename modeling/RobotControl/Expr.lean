import RobotControl.Command
import RobotControl.Keyword
import RobotControl.Literal

/-!
# Expressions, conditions and actions

An expression computes an integer, a condition a truth value, and an action is a command whose
operand is an expression. All of them are written in functional form, `op(left, right)`.
-/

namespace RobotControl

/-- An integer expression. -/
inductive Expr where
  | num (value : Int64)
  | sensor (s : Sensor)
  | binary (op : ArithOp) (left right : Expr)
deriving DecidableEq, Repr

/-- A condition on integer expressions. -/
inductive Cond where
  | compare (op : RelOp) (left right : Expr)
  | conj (left right : Cond)
  | disj (left right : Cond)
  | neg (inner : Cond)
deriving DecidableEq, Repr

/-- A command as it stands in a program. -/
abbrev Action := Command Expr

/-- A function word applied to two arguments. -/
def renderPair (word left right : String) : String :=
  word ++ "(" ++ left ++ ", " ++ right ++ ")"

/-- The text of an expression. -/
def Expr.render : Expr → String
  | .num v => renderInt v
  | .sensor s => Keyword.word s
  | .binary op l r => renderPair (Keyword.word op) l.render r.render

/-- The text of a condition. -/
def Cond.render : Cond → String
  | .compare op l r => renderPair (Keyword.word op) l.render r.render
  | .conj l r => renderPair "and" l.render r.render
  | .disj l r => renderPair "or" l.render r.render
  | .neg c => "not(" ++ c.render ++ ")"

/-- The text of an action. -/
def Action.render (a : Action) : String := Command.render Expr.render a

end RobotControl
