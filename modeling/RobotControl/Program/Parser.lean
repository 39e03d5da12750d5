import RobotControl.ParseError
import RobotControl.Program
import RobotControl.Token.Lexer

/-!
# Reading programs

One production for each kind of phrase. A production reads a phrase off the front of a token list,
and leaves the tokens that it did not use, also when it fails.

* `Parser.expression`, `Parser.condition`, `Parser.action`: phrases inside a statement;
* `Parser.statement`, `Parser.block`, `Parser.program`: statements and their sequences;
* `Program.parse`: a source text as a program;
* `Parser.entered`, `Parser.enteredInside`: the tokens at which statements were begun.

A production that calls others takes them as arguments, as `Parser.expressionOf` does. The recursion
is tied by a number of tokens that are left at most, as in `Parser.expressionWithin`: a production
uses up at least one before it calls itself. With none left it gives its answer for the empty list.
-/

namespace RobotControl

/-- Reads a phrase off the front of a token list. -/
abbrev Parser := EStateM ParseError (List Lexeme)

namespace Parser

variable {α : Type}

/-! ### Single tokens -/

/-- Fails in front of the next token. -/
def fail (c : Cause) : Parser α := fun ts => .error (.before c ts) ts

/-- The next token. -/
def peek : Parser (Option Token) := fun ts => .ok (ts.head?.map Lexeme.token) ts

/-- The next token's text, if it is a word. -/
def peekWord : Parser (Option String) := fun ts => .ok (ts.head?.bind fun l => l.token.word?) ts

/-- The number of tokens that are left. -/
def remaining : Parser Nat := fun ts => .ok ts.length ts

/-- Uses up the next token. -/
def skip : Parser Unit := fun ts => .ok () ts.tail

/-- Uses up the next token, which has to be `t`. -/
def expect (t : Token) : Parser Unit := do
  if (← peek) = some t then skip else fail (.missing t)

/-- A word of a closed vocabulary. -/
def keyword [Keyword α] (c : Cause) : Parser α := do
  match (← peekWord).bind Keyword.ofWord? with
  | some a => skip; return a
  | none => fail c

/-- A phrase in parentheses. -/
def parens (p : Parser α) : Parser α := do
  expect .lparen
  let a ← p
  expect .rparen
  return a

/-- Two phrases in parentheses, with a comma between them. -/
def pair (p : Parser α) : Parser (α × α) := do
  expect .lparen
  let a ← p
  expect .comma
  let b ← p
  expect .rparen
  return (a, b)

/-! ### Expressions -/

/-- A sensor's name. -/
def sensor : Parser Sensor := keyword .noSensor

/-- An arithmetic operator. -/
def operator : Parser ArithOp := keyword .noOperator

/-- A comparison. -/
def comparison : Parser RelOp := keyword .noComparison

/-- An integer literal, which has to fit into 64 bits. -/
def number : Parser Int64 := do
  match (← peekWord) with
  | none => fail .noNumber
  | some w =>
    match Literal.read? w with
    | some v => skip; return v
    | none => fail (if Literal.isShaped w then .literalTooLarge else .noNumber)

/-- An expression, given the production for the expressions inside it. -/
def expressionOf (inner : Parser Expr) : Parser Expr := do
  let w? ← peekWord
  if w?.any Literal.isShaped then return .num (← number) else
  match (w?.bind Keyword.ofWord? : Option ArithOp) with
  | some _ =>
    let op ← operator
    let (l, r) ← pair inner
    return .binary op l r
  | none => return .sensor (← sensor)

/-- An expression, when at most `n` tokens are left. -/
def expressionWithin : Nat → Parser Expr
  | 0 => fail .noSensor
  | n + 1 => expressionOf (expressionWithin n)

/-! ### Conditions -/

/-- A condition, given the productions for the conditions and the expressions inside it. -/
def conditionOf (inner : Parser Cond) (operand : Parser Expr) : Parser Cond := do
  match (← peekWord) with
  | some "and" =>
    skip
    let (l, r) ← pair inner
    return .conj l r
  | some "or" =>
    skip
    let (l, r) ← pair inner
    return .disj l r
  | some "not" =>
    expect (.word "not")
    return .neg (← parens inner)
  | _ =>
    let op ← comparison
    let (l, r) ← pair operand
    return .compare op l r

/-- A condition, when at most `n` tokens are left. -/
def conditionWithin : Nat → Parser Cond
  | 0 => fail .noComparison
  | n + 1 => conditionOf (conditionWithin n) (expressionWithin n)

/-! ### Actions -/

/-- The operand of a command, if a parenthesis follows. -/
def operandOf (operand : Parser Expr) : Parser (Option Expr) := do
  if (← peek) = some .lparen then return some (← parens operand) else return none

/-- An action without its semicolon, given the production for its operand. -/
def actionOf (operand : Parser Expr) : Parser Action := do
  match (← peekWord).bind fun w => Command.ofWord? w none with
  | none => fail .noAction
  | some (.move _) => skip; return .move (← operandOf operand)
  | some (.wait _) => skip; return .wait (← operandOf operand)
  | some c => skip; return c

/-- An action without its semicolon, when at most `n` tokens are left. -/
def actionWithin (n : Nat) : Parser Action := actionOf (expressionWithin n)

/-! ### Statements

A compound statement is read with the productions for its test and for the statements inside its
braces. -/

/-- The first statement in front of a closing brace, and more of them unless the brace follows. -/
def statementsOf (item : Parser Statement) (more : Parser Block) : Parser Block := do
  if (← peek) = none then fail (.missing .rbrace) else
  let s ← item
  if (← peek) = some .rbrace then return .single s else
  return .cons s (← more)

/-- Statements up to a closing brace, when at most `n` tokens are left. -/
def statementsWithin (item : Parser Statement) : Nat → Parser Block
  | 0 => fail (.missing .rbrace)
  | n + 1 => statementsOf item (statementsWithin item n)

/-- A block in braces. -/
def blockOf (inside : Parser Block) : Parser Block := do
  expect .lbrace
  if (← peek) = some .rbrace then fail .emptyBlock else
  let b ← inside
  expect .rbrace
  return b

/-- The block after `else`, which may stand in a second pair of braces. -/
def elseBlockOf (inside : Parser Block) : Parser Block := do
  if ((← get).take 2).map Lexeme.token = [.lbrace, .lbrace] then
    expect .lbrace
    let b ← blockOf inside
    expect .rbrace
    return b
  else
    blockOf inside

/-- An endless loop. -/
def loopOf (inside : Parser Block) : Parser Statement := do
  expect (.word "loop")
  return .loop (← blockOf inside)

/-- A conditional statement. -/
def ifOf (test : Parser Cond) (inside : Parser Block) : Parser Statement := do
  expect (.word "if")
  let c ← parens test
  let yes ← blockOf inside
  if (← peek) = some (.word "else") then
    skip
    return .ifElse c yes (← elseBlockOf inside)
  else
    return .ifThen c yes

/-- A loop with a condition. -/
def whileOf (test : Parser Cond) (inside : Parser Block) : Parser Statement := do
  expect (.word "while")
  let c ← parens test
  return .whileLoop c (← blockOf inside)

/-- A statement, given the productions for what it is made of. -/
def statementOf (act : Parser Action) (test : Parser Cond) (inside : Parser Block) :
    Parser Statement := do
  match (← peekWord) with
  | some "loop" => loopOf inside
  | some "if" => ifOf test inside
  | some "while" => whileOf test inside
  | _ =>
    let a ← act
    expect .semicolon
    return .action a

/-- A statement, when at most `n` tokens are left. -/
def statementWithin : Nat → Parser Statement
  | 0 => fail .noAction
  | n + 1 =>
    statementOf (actionWithin n) (conditionWithin n) (statementsWithin (statementWithin n) n)

/-- The statements inside braces, when at most `n` tokens are left. -/
def insideWithin (n : Nat) : Parser Block := statementsWithin (statementWithin n) n

/-! ### Programs -/

/-- How many braces and parentheses may be open at once. -/
def maxNesting : Nat := 200

/-- The tokens from the first opening delimiter that stands too deep, when `depth` delimiters are
open. A closing delimiter closes whichever was opened last, and is ignored when none is open. -/
def tooDeep? (depth : Nat) : List Lexeme → Option (List Lexeme)
  | [] => none
  | l :: ts =>
    if l.token.isOpening then
      if maxNesting ≤ depth then some (l :: ts) else tooDeep? (depth + 1) ts
    else if l.token.isClosing then tooDeep? (depth - 1) ts
    else tooDeep? depth ts

/-- Fails at the first delimiter that stands too deep, without using up a token. -/
def checkNesting : Parser Unit := fun ts =>
  match tooDeep? 0 ts with
  | some bad => .error (.before .nestingTooDeep bad) ts
  | none => .ok () ts

/-- The first statement of a program, and more of them unless the tokens end. -/
def sequenceOf (item : Parser Statement) (more : Parser Block) : Parser Block := do
  let s ← item
  if (← peek) = none then return .single s else
  return .cons s (← more)

/-- Statements up to the end, when at most `n` tokens are left. -/
def sequenceWithin (item : Parser Statement) : Nat → Parser Block
  | 0 => fail .noStatements
  | n + 1 => sequenceOf item (sequenceWithin item n)

/-- A whole program, up to the end of the tokens. -/
def program : Parser Program := do
  checkNesting
  if (← peek) = none then fail .noStatements else
  let n ← remaining
  return ⟨← sequenceWithin (statementWithin n) n⟩

/-! ### The productions by themselves -/

/-- An expression. -/
def expression : Parser Expr := do expressionWithin (← remaining)

/-- A condition. -/
def condition : Parser Cond := do conditionWithin (← remaining)

/-- An action without its semicolon. -/
def action : Parser Action := do actionWithin (← remaining)

/-- A statement. -/
def statement : Parser Statement := do statementWithin (← remaining)

/-- A block in braces. -/
def block : Parser Block := do blockOf (insideWithin (← remaining))

/-- An endless loop. -/
def loopStatement : Parser Statement := do loopOf (insideWithin (← remaining))

/-- A conditional statement. -/
def ifStatement : Parser Statement := do
  let n ← remaining
  ifOf (conditionWithin n) (insideWithin n)

/-- A loop with a condition. -/
def whileStatement : Parser Statement := do
  let n ← remaining
  whileOf (conditionWithin n) (insideWithin n)

/-! ### Where statements begin -/

/-- A word that begins a statement, and can stand nowhere else in a program. -/
def beginsStatement (l : Lexeme) : Bool :=
  match l.token with
  | .word w => w == "loop" || w == "if" || w == "while" || Command.isWord w
  | _ => false

/-- The tokens at which `p` begins a statement: the words it uses up that begin one, and, if it
stops because there is no action, the token where it stops. -/
def entered (p : Parser α) (ts : List Lexeme) : List Lexeme :=
  let used (rest : List Lexeme) := (ts.take (ts.length - rest.length)).filter beginsStatement
  match p ts with
  | .ok _ rest => used rest
  | .error e rest => used rest ++ if e.text = Cause.noAction.text then rest.take 1 else []

/-- The tokens at which `p` begins a statement inside the statement that it reads: the word in front
of that one does not count. -/
def enteredInside (p : Parser α) (ts : List Lexeme) : List Lexeme := (entered p ts).drop 1

end Parser

/-- The program that a source text spells. -/
def Program.parse (source : String) : Except ParseError Program :=
  match Parser.program (tokenize source) with
  | .ok p _ => .ok p
  | .error e _ => .error e

end RobotControl
