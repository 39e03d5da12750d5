import Mathlib.Tactic
import RobotControl.Program
import RobotControl.Token

/-!
# The grammar

Which token lists spell which trees, said without the parser.

* `Numeral`: the words that are integer literals, with their values;
* `Sensor.terminal` and the like: the other words, written out;
* `Phrase`: the nonterminals of the grammar, each with the tree that it stands for;
* `Derives`: the derivation relation, one rule for each alternative of a production;
* `nesting`: how many delimiters of a token list are open at once.

```
Program    ::= Statement+
Statement  ::= Action ';' | 'loop' Block | 'if' '(' Cond ')' Block [Else]
             | 'while' '(' Cond ')' Block
Else       ::= 'else' Block | 'else' '{' Block '}'
Block      ::= '{' Statement+ '}'
Action     ::= word | word '(' Expr ')'
Cond       ::= ('and' | 'or') '(' Cond ',' Cond ')' | 'not' '(' Cond ')'
             | word '(' Expr ',' Expr ')'
Expr       ::= numeral | word | word '(' Expr ',' Expr ')'
```
-/

namespace RobotControl

/-- `Numeral w v`: the word `w` is an optional minus sign and one or more digits, and its exact
decimal value is the 64-bit integer `v`. -/
inductive Numeral : String → Int64 → Prop
  | unsigned {ds : List Char} {v : Int64} (hne : ds ≠ []) (hds : ∀ c ∈ ds, c.isDigit)
    (hv : v.toInt = Nat.ofDigitChars 10 ds 0) : Numeral (String.ofList ds) v
  | negative {ds : List Char} {v : Int64} (hne : ds ≠ []) (hds : ∀ c ∈ ds, c.isDigit)
    (hv : v.toInt = -Nat.ofDigitChars 10 ds 0) : Numeral (String.ofList ('-' :: ds)) v

/-! ### Terminals -/

/-- The word for a sensor. -/
def Sensor.terminal : Sensor → String
  | .fuelLeft => "fuelLeft"
  | .opponentLR => "oppLR"
  | .opponentFB => "oppFB"
  | .numBarrels => "numBarrels"
  | .barrelLR => "barrelLR"
  | .barrelFB => "barrelFB"
  | .wallDist => "wallDist"

/-- The word for an arithmetic operator. -/
def ArithOp.terminal : ArithOp → String
  | .add => "add"
  | .sub => "sub"
  | .mul => "mul"
  | .div => "div"

/-- The word for a comparison. -/
def RelOp.terminal : RelOp → String
  | .lt => "lt"
  | .gt => "gt"
  | .eq => "eq"

/-- The word for an action. -/
def Action.terminal : Action → String
  | .move _ => "move"
  | .turnLeft => "turnL"
  | .turnRight => "turnR"
  | .turnAround => "turnAround"
  | .shield true => "shieldOn"
  | .shield false => "shieldOff"
  | .takeFuel => "takeFuel"
  | .wait _ => "wait"

/-- Actions are written with these words.  For sensors and operators the like holds by definition.
-/
theorem Action.word_eq_terminal (a : Action) : a.word = a.terminal := by
  cases a with
  | shield raised => cases raised <;> rfl
  | _ => rfl

/-! ### Derivations -/

/-- A nonterminal of the grammar, with the tree that it stands for. -/
inductive Phrase where
  | expr (e : Expr)
  | cond (c : Cond)
  | action (a : Action)
  | statement (st : Statement)
  | block (b : Block)
  | sequence (b : Block)
  | program (p : Program)

/-- `Derives ts x`: the tokens `ts` spell the phrase `x`. -/
inductive Derives : List Token → Phrase → Prop
  -- expressions
  | number {w v} (h : Numeral w v) : Derives [.word w] (.expr (.num v))
  | sensor (s : Sensor) : Derives [.word s.terminal] (.expr (.sensor s))
  | binary (op : ArithOp) {xs ys l r} (hl : Derives xs (.expr l)) (hr : Derives ys (.expr r)) :
    Derives (.word op.terminal :: .lparen :: (xs ++ .comma :: (ys ++ [.rparen])))
      (.expr (.binary op l r))
  -- conditions
  | compare (op : RelOp) {xs ys l r} (hl : Derives xs (.expr l)) (hr : Derives ys (.expr r)) :
    Derives (.word op.terminal :: .lparen :: (xs ++ .comma :: (ys ++ [.rparen])))
      (.cond (.compare op l r))
  | conj {xs ys l r} (hl : Derives xs (.cond l)) (hr : Derives ys (.cond r)) :
    Derives (.word "and" :: .lparen :: (xs ++ .comma :: (ys ++ [.rparen]))) (.cond (.conj l r))
  | disj {xs ys l r} (hl : Derives xs (.cond l)) (hr : Derives ys (.cond r)) :
    Derives (.word "or" :: .lparen :: (xs ++ .comma :: (ys ++ [.rparen]))) (.cond (.disj l r))
  | neg {xs c} (hc : Derives xs (.cond c)) :
    Derives (.word "not" :: .lparen :: (xs ++ [.rparen])) (.cond (.neg c))
  -- actions
  | bare {a : Action} (h : a.operand? = none) : Derives [.word a.terminal] (.action a)
  | applied {a : Action} {xs e} (h : a.operand? = some e) (he : Derives xs (.expr e)) :
    Derives (.word a.terminal :: .lparen :: (xs ++ [.rparen])) (.action a)
  -- statements
  | act {xs a} (h : Derives xs (.action a)) :
    Derives (xs ++ [.semicolon]) (.statement (.action a))
  | loop {xs b} (h : Derives xs (.block b)) :
    Derives (.word "loop" :: xs) (.statement (.loop b))
  | ifThen {xs ys c b} (hc : Derives xs (.cond c)) (hb : Derives ys (.block b)) :
    Derives (.word "if" :: .lparen :: (xs ++ .rparen :: ys)) (.statement (.ifThen c b))
  | ifElse {xs ys zs c b b'} (hc : Derives xs (.cond c)) (hb : Derives ys (.block b))
    (hb' : Derives zs (.block b')) :
    Derives (.word "if" :: .lparen :: (xs ++ .rparen :: (ys ++ .word "else" :: zs)))
      (.statement (.ifElse c b b'))
  | ifElseBraced {xs ys zs c b b'} (hc : Derives xs (.cond c)) (hb : Derives ys (.block b))
    (hb' : Derives zs (.block b')) :
    Derives
      (.word "if" :: .lparen ::
        (xs ++ .rparen :: (ys ++ .word "else" :: .lbrace :: (zs ++ [.rbrace]))))
      (.statement (.ifElse c b b'))
  | whileLoop {xs ys c b} (hc : Derives xs (.cond c)) (hb : Derives ys (.block b)) :
    Derives (.word "while" :: .lparen :: (xs ++ .rparen :: ys)) (.statement (.whileLoop c b))
  -- blocks and programs
  | block {xs b} (h : Derives xs (.sequence b)) : Derives (.lbrace :: (xs ++ [.rbrace])) (.block b)
  | single {xs st} (h : Derives xs (.statement st)) : Derives xs (.sequence (.single st))
  | cons {xs ys st b} (hs : Derives xs (.statement st)) (hb : Derives ys (.sequence b)) :
    Derives (xs ++ ys) (.sequence (.cons st b))
  | program {xs b} (h : Derives xs (.sequence b)) : Derives xs (.program ⟨b⟩)

/-! ### First tokens -/

theorem Action.terminal_ne_else (a : Action) : a.terminal ≠ "else" := by
  cases a with
  | shield raised => cases raised <;> simp [Action.terminal]
  | _ => simp [Action.terminal]

/-- A phrase that is made of statements begins with a word, and this is not `else`; a block has a
brace in front of it. -/
def Phrase.BeginsWithWord (ts : List Token) : Phrase → Prop
  | .action _ | .statement _ | .sequence _ => ∃ w ts', ts = .word w :: ts' ∧ w ≠ "else"
  | .block _ => ∃ w ts', ts = .lbrace :: .word w :: ts'
  | _ => True

theorem Derives.beginsWithWord {ts : List Token} {x : Phrase} (h : Derives ts x) :
    x.BeginsWithWord ts := by
  induction h with
  | bare | applied => exact ⟨_, _, rfl, Action.terminal_ne_else _⟩
  | act _ ih =>
    obtain ⟨w, ts', rfl, hw⟩ := ih
    exact ⟨w, _, rfl, hw⟩
  | loop | ifThen | ifElse | ifElseBraced | whileLoop => exact ⟨_, _, rfl, by decide⟩
  | block _ ih =>
    obtain ⟨w, ts', rfl, -⟩ := ih
    exact ⟨w, _, rfl⟩
  | single _ ih => exact ih
  | cons _ _ ih =>
    obtain ⟨w, ts', rfl, hw⟩ := ih
    exact ⟨w, _, rfl, hw⟩
  | _ => trivial

/-- A program has at least one token. -/
theorem Derives.ne_nil {p : Program} {ts : List Token} (h : Derives ts (.program p)) : ts ≠ [] := by
  cases h with
  | program h =>
    obtain ⟨w, ts', rfl, -⟩ := h.beginsWithWord
    simp

/-! ### Nesting -/

/-- The number of open delimiters after a token, when `d` are open in front of it. -/
def Token.openAfter (d : Nat) : Token → Nat
  | .lbrace | .lparen => d + 1
  | .rbrace | .rparen => d - 1
  | _ => d

theorem Token.openAfter_eq (d : Nat) (t : Token) :
    t.openAfter d = if t.isOpening then d + 1 else if t.isClosing then d - 1 else d := by
  cases t <;> rfl

/-- The largest number of delimiters that are open at once, when `d` are open at the start. -/
def nestingFrom (d : Nat) : List Token → Nat
  | [] => d
  | t :: ts => max d (nestingFrom (t.openAfter d) ts)

theorem le_nestingFrom (d : Nat) (ts : List Token) : d ≤ nestingFrom d ts := by
  cases ts with
  | nil => exact le_rfl
  | cons t ts => exact le_max_left _ _

/-- The largest number of delimiters that are open at once. -/
def nesting (ts : List Token) : Nat := nestingFrom 0 ts

end RobotControl
