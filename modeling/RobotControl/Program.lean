import RobotControl.Expr

/-!
# Programs

A program is a sequence of statements, and so is each block inside it; neither is ever empty.

* `Statement`, `Block`: the two mutually inductive types;
* `Block.toList`, `Block.ofList?`: a block as a list of statements, and back.
-/

namespace RobotControl

mutual

/-- A statement of a program. -/
inductive Statement where
  | action (a : Action)
  | loop (body : Block)
  | ifThen (test : Cond) (yes : Block)
  | ifElse (test : Cond) (yes no : Block)
  | whileLoop (test : Cond) (body : Block)

/-- A sequence of at least one statement. -/
inductive Block where
  | single (s : Statement)
  | cons (s : Statement) (rest : Block)

end

deriving instance DecidableEq for Statement, Block
deriving instance Repr for Statement, Block

namespace Block

/-- The statements of a block. -/
def toList : Block → List Statement
  | .single s => [s]
  | .cons s rest => s :: rest.toList

/-- The block that starts with `s` and goes on with the given statements. -/
def ofCons (s : Statement) : List Statement → Block
  | [] => .single s
  | t :: rest => .cons s (ofCons t rest)

/-- The block of the given statements; no statements make no block. -/
def ofList? : List Statement → Option Block
  | [] => none
  | s :: rest => some (ofCons s rest)

@[simp] theorem toList_ofCons (s : Statement) (rest : List Statement) :
    (ofCons s rest).toList = s :: rest := by
  induction rest generalizing s with
  | nil => rfl
  | cons t rest ih => simp [ofCons, toList, ih]

theorem toList_ne_nil (b : Block) : b.toList ≠ [] := by
  cases b <;> simp [toList]

@[simp] theorem ofList?_toList (b : Block) : ofList? b.toList = some b := by
  cases b with
  | single s => rfl
  | cons s rest =>
    have h := ofList?_toList rest
    cases hr : rest.toList with
    | nil => exact absurd hr rest.toList_ne_nil
    | cons t ts =>
      rw [hr, ofList?, Option.some.injEq] at h
      simp [toList, hr, ofList?, ofCons, h]

end Block

/-- A whole program. -/
structure Program where
  body : Block
deriving DecidableEq, Repr

namespace Program

/-- The top-level statements. -/
def statements (p : Program) : List Statement := p.body.toList

/-- The program of the given statements; no statements make no program. -/
def ofList? (ss : List Statement) : Option Program := (Block.ofList? ss).map Program.mk

end Program

end RobotControl
