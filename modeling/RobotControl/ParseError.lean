import RobotControl.Token

/-!
# Parse errors

A parse error says what was wrong, on which line, and which tokens came next. `Cause` lists what can
go wrong, `ParseError.before` places a cause in front of the tokens that are left.
-/

namespace RobotControl

/-- Why a token list cannot be read. -/
inductive Cause where
  | missing (t : Token)
  | noStatements
  | emptyBlock
  | noAction
  | noComparison
  | noOperator
  | noSensor
  | noNumber
  | literalTooLarge
  | nestingTooDeep
deriving DecidableEq, Repr

/-- The wording of a cause. -/
def Cause.text : Cause → String
  | .missing t => "Missing '" ++ t.text ++ "'"
  | .noStatements => "Program has no statements"
  | .emptyBlock => "Cannot have empty block"
  | .noAction => "No actions can be found"
  | .noComparison => "Unable to find RELOP"
  | .noOperator => "Unable to find OP"
  | .noSensor => "Unable to find SEN"
  | .noNumber => "Unable to find number"
  | .literalTooLarge => "Number literal is too large"
  | .nestingTooDeep => "Nesting is too deep"

/-- What was wrong, the line of the token where reading stopped (none at the end of the input), and
the texts of the next few tokens. -/
structure ParseError where
  text : String
  line : Option Nat
  context : List String
deriving DecidableEq, Repr

namespace ParseError

/-- How many tokens an error quotes. -/
def contextSize : Nat := 5

/-- The error of a cause in front of the given tokens. -/
def before (c : Cause) (ts : List Lexeme) : ParseError where
  text := c.text
  line := ts.head?.map Lexeme.line
  context := (ts.take contextSize).map fun l => l.token.text

/-- Whether the input ended where more was needed. -/
def atEnd (e : ParseError) : Bool := e.line.isNone

/-- The whole error as it is shown. -/
def message (e : ParseError) : String :=
  let place := match e.line with
    | some n => " on line " ++ toString n
    | none => " at end of input"
  e.text ++ place ++ "\n   @ ..." ++ String.join (e.context.map (" " ++ ·)) ++ "..."

end ParseError

end RobotControl
