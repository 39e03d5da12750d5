/-!
# Commands

`Command α` is an order to a robot whose operands have type `α`. In a program an operand is an
expression still to be evaluated; on the way to a robot it is a number. Both are written alike: the
command's word, and the operand, if there is one, in parentheses.
-/

namespace RobotControl

/-- An order to a robot. Moving and waiting take an optional operand. -/
inductive Command (α : Type) where
  | move (distance : Option α)
  | turnLeft
  | turnRight
  | turnAround
  | shield (raised : Bool)
  | takeFuel
  | wait (duration : Option α)
deriving DecidableEq, Repr

namespace Command

variable {α β : Type}

/-- The word that a command is written with. -/
def word : Command α → String
  | .move _ => "move"
  | .turnLeft => "turnL"
  | .turnRight => "turnR"
  | .turnAround => "turnAround"
  | .shield true => "shieldOn"
  | .shield false => "shieldOff"
  | .takeFuel => "takeFuel"
  | .wait _ => "wait"

/-- The operand that a command carries. -/
def operand? : Command α → Option α
  | .move x => x
  | .wait x => x
  | _ => none

/-- The command that `w` spells. The operand goes to the commands that take one. -/
def ofWord? (w : String) (operand : Option α) : Option (Command α) :=
  match w with
  | "move" => some (.move operand)
  | "turnL" => some .turnLeft
  | "turnR" => some .turnRight
  | "turnAround" => some .turnAround
  | "shieldOn" => some (.shield true)
  | "shieldOff" => some (.shield false)
  | "takeFuel" => some .takeFuel
  | "wait" => some (.wait operand)
  | _ => none

@[simp] theorem ofWord?_word (c : Command α) : ofWord? c.word c.operand? = some c := by
  cases c with
  | shield raised => cases raised <;> rfl
  | _ => rfl

/-- Whether `w` spells a command. -/
def isWord (w : String) : Bool := (ofWord? w (none : Option Unit)).isSome

/-- A command as it is written, given how its operand is written. -/
def render (f : α → String) (c : Command α) : String :=
  match c.operand? with
  | none => c.word
  | some x => c.word ++ "(" ++ f x ++ ")"

/-- Computes the operand, and keeps the rest of the command. -/
def traverse {m : Type → Type} [Monad m] (f : α → m β) : Command α → m (Command β)
  | .move none => pure (.move none)
  | .move (some x) => do return .move (some (← f x))
  | .turnLeft => pure .turnLeft
  | .turnRight => pure .turnRight
  | .turnAround => pure .turnAround
  | .shield raised => pure (.shield raised)
  | .takeFuel => pure .takeFuel
  | .wait none => pure (.wait none)
  | .wait (some x) => do return .wait (some (← f x))

end Command

end RobotControl
