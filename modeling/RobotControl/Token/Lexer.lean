import RobotControl.Token

/-!
# Cutting a source text into lexemes

The text is read once from left to right. `Scan` is what is known in front of the next character:
the line, the word that is being read, and the lexemes that are finished. Lines count from one, and
only a line feed starts a new one. Layout ends a word and is then dropped.
-/

namespace RobotControl

/-- The state of reading in front of a character. Both lists hold the latest item first. -/
structure Scan where
  line : Nat := 1
  word : List Char := []
  done : List Lexeme := []

namespace Scan

/-- Finishes the word that is being read, if there is one. -/
def close (s : Scan) : Scan :=
  match s.word with
  | [] => s
  | cs => { s with word := [], done := ⟨.word (String.ofList cs.reverse), s.line⟩ :: s.done }

/-- Adds a finished token on the current line. -/
def emit (s : Scan) (t : Token) : Scan :=
  { s with done := ⟨t, s.line⟩ :: s.done }

/-- Reads one character. -/
def step (s : Scan) (c : Char) : Scan :=
  match Token.ofChar? c with
  | none => { s with word := c :: s.word }
  | some .newline => { s.close with line := s.line + 1 }
  | some .blank => s.close
  | some t => s.close.emit t

/-- The lexemes in the order of the text. -/
def lexemes (s : Scan) : List Lexeme := s.close.done.reverse

end Scan

/-- The lexemes of a source text. Every text has some: no character is refused. -/
def tokenize (source : String) : List Lexeme :=
  (source.toList.foldl Scan.step {}).lexemes

end RobotControl
