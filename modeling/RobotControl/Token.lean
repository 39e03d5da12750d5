import RobotControl.Literal

/-!
# Tokens

A source text is cut into tokens: six delimiters, words, and layout. A character that is neither a
delimiter nor layout belongs to a word.

* `Token.ofChar?`: the token that a single character makes;
* `Lexeme`: a token with the line on which it stands.
-/

namespace RobotControl

/-- A piece of source text. -/
inductive Token where
  | lbrace
  | rbrace
  | lparen
  | rparen
  | comma
  | semicolon
  | word (text : String)
  | newline
  | blank
deriving DecidableEq, Repr

namespace Token

/-- The text of a token; every blank counts as one space. -/
def text : Token → String
  | .lbrace => "\x7b"
  | .rbrace => "\x7d"
  | .lparen => "("
  | .rparen => ")"
  | .comma => ","
  | .semicolon => ";"
  | .word w => w
  | .newline => "\n"
  | .blank => " "

/-- The token that a character makes by itself; the characters of words make none. Layout is the
line feed, and as blanks the space, the tab, the carriage return, and the vertical tab and form
feed. -/
def ofChar? (c : Char) : Option Token :=
  match c with
  | '\x7b' => some .lbrace
  | '\x7d' => some .rbrace
  | '(' => some .lparen
  | ')' => some .rparen
  | ',' => some .comma
  | ';' => some .semicolon
  | '\n' => some .newline
  | ' ' | '\t' | '\r' | '\x0b' | '\x0c' => some .blank
  | _ => none

/-- The integer that a token denotes: only a word can be a literal. -/
def integer? : Token → Option Int64
  | .word w => Literal.read? w
  | _ => none

/-- The text of a word; delimiters and layout have none. -/
def word? : Token → Option String
  | .word w => some w
  | _ => none

/-- Opens a block or a parenthesis. -/
def isOpening : Token → Bool
  | .lbrace | .lparen => true
  | _ => false

/-- Closes a block or a parenthesis. -/
def isClosing : Token → Bool
  | .rbrace | .rparen => true
  | _ => false

end Token

/-- A token and the line on which it stands. -/
structure Lexeme where
  token : Token
  line : Nat
deriving DecidableEq, Repr

end RobotControl
