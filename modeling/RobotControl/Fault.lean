import RobotControl.Robot

/-!
# Faults

What can end a run early: arithmetic without a result, or a robot that halts.
-/

namespace RobotControl

/-- Why a run cannot go on. -/
inductive Fault where
  | divisionByZero (dividend : Int64)
  | overflow (op : ArithOp) (left right : Int64)
  | halted (h : Halt)
deriving DecidableEq, Repr

/-- The wording of a fault. -/
def Fault.message : Fault → String
  | .divisionByZero n => "Division by zero: div(" ++ renderInt n ++ ", 0)."
  | .overflow op l r =>
    "Integer overflow while computing " ++ Keyword.word op ++ "(" ++ renderInt l ++ ", " ++
      renderInt r ++ ")."
  | .halted h => "Robot halted: " ++ h.reason

end RobotControl
