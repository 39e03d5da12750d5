/-!
# Keywords

The closed vocabularies of the language. Every member of a vocabulary has one spelling, and a word
spells at most one member.

* `Sensor`, `ArithOp`, `RelOp`: the three vocabularies;
* `Keyword.all`: the members of a vocabulary in their fixed order;
* `Keyword.ofWord?`: the member that a word spells.
-/

namespace RobotControl

/-- A closed vocabulary: its members in a fixed order, and the spelling of each. -/
class Keyword (α : Type) where
  all : List α
  word : α → String

namespace Keyword

variable {α : Type} [Keyword α]

/-- The member that `w` spells, if there is one. -/
def ofWord? (w : String) : Option α :=
  (all : List α).find? fun a => word a == w

theorem word_of_ofWord? {w : String} {a : α} (h : ofWord? w = some a) : word a = w := by
  simpa using List.find?_some h

end Keyword

/-- What a robot can measure. -/
inductive Sensor where
  | fuelLeft
  | opponentLR
  | opponentFB
  | numBarrels
  | barrelLR
  | barrelFB
  | wallDist
deriving DecidableEq, Repr

instance : Keyword Sensor where
  all := [.fuelLeft, .opponentLR, .opponentFB, .numBarrels, .barrelLR, .barrelFB, .wallDist]
  word
    | .fuelLeft => "fuelLeft"
    | .opponentLR => "oppLR"
    | .opponentFB => "oppFB"
    | .numBarrels => "numBarrels"
    | .barrelLR => "barrelLR"
    | .barrelFB => "barrelFB"
    | .wallDist => "wallDist"

/-- The arithmetic operators. -/
inductive ArithOp where
  | add
  | sub
  | mul
  | div
deriving DecidableEq, Repr

instance : Keyword ArithOp where
  all := [.add, .sub, .mul, .div]
  word
    | .add => "add"
    | .sub => "sub"
    | .mul => "mul"
    | .div => "div"

/-- The comparisons. -/
inductive RelOp where
  | lt
  | gt
  | eq
deriving DecidableEq, Repr

instance : Keyword RelOp where
  all := [.lt, .gt, .eq]
  word
    | .lt => "lt"
    | .gt => "gt"
    | .eq => "eq"

@[simp] theorem Sensor.ofWord?_word (s : Sensor) : Keyword.ofWord? (Keyword.word s) = some s := by
  cases s <;> decide

@[simp] theorem ArithOp.ofWord?_word (o : ArithOp) :
    Keyword.ofWord? (Keyword.word o) = some o := by
  cases o <;> decide

@[simp] theorem RelOp.ofWord?_word (o : RelOp) : Keyword.ofWord? (Keyword.word o) = some o := by
  cases o <;> decide

end RobotControl
