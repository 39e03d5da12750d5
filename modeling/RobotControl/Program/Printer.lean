import RobotControl.Program

/-!
# Printing programs

Every statement starts on a line of its own, indented by four spaces for each block around it. A
block opens at the end of its statement's line and closes on a line by itself.
-/

namespace RobotControl

/-- The white space in front of a line inside `depth` blocks. -/
def indent (depth : Nat) : String := String.ofList (List.replicate (4 * depth) ' ')

/-- Braces around lines that are indented one step further. -/
def braces (depth : Nat) (lines : String) : String :=
  "\x7b\n" ++ lines ++ indent depth ++ "\x7d"

mutual

/-- The lines of a statement inside `depth` blocks. -/
def Statement.render (depth : Nat) : Statement → String
  | .action a => indent depth ++ a.render ++ ";\n"
  | .loop body => indent depth ++ "loop " ++ braces depth (body.lines (depth + 1)) ++ "\n"
  | .ifThen test yes =>
    indent depth ++ "if (" ++ test.render ++ ") " ++ braces depth (yes.lines (depth + 1)) ++ "\n"
  | .ifElse test yes no =>
    indent depth ++ "if (" ++ test.render ++ ") " ++ braces depth (yes.lines (depth + 1)) ++
      " else " ++ braces depth (no.lines (depth + 1)) ++ "\n"
  | .whileLoop test body =>
    indent depth ++ "while (" ++ test.render ++ ") " ++ braces depth (body.lines (depth + 1)) ++
      "\n"

/-- The lines of the statements of a block, without its braces. -/
def Block.lines (depth : Nat) : Block → String
  | .single s => s.render depth
  | .cons s rest => s.render depth ++ rest.lines depth

end

/-- A block in braces, inside `depth` other blocks. -/
def Block.render (depth : Nat) (b : Block) : String := braces depth (b.lines (depth + 1))

/-- The text of a program. -/
def Program.render (p : Program) : String := p.body.lines 0

end RobotControl
