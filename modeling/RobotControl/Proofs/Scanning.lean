import Mathlib.Tactic
import RobotControl.Proofs.Grammar
import RobotControl.Token.Lexer

/-!
# Cutting texts

The lexemes of a text, by recursion on its characters, and the law by which a text is cut: in front
of and behind a character that belongs to no word, what is left and what is right of it are read
independently.

* `lexFrom`: the lexemes of a text, given the line and the word that is being read;
* `textTokens`: the tokens of a text, without their lines;
* `textNesting`: how many delimiters of a text are open at once.
-/

namespace RobotControl

/-- Layout is dropped, every other token stays. -/
def Token.isLayout : Token → Bool
  | .newline | .blank => true
  | _ => false

/-- The lexeme of the word that is being read, whose characters are given latest first. -/
def pending (n : Nat) : List Char → List Lexeme
  | [] => []
  | c :: cs => [⟨.word (String.ofList (c :: cs).reverse), n⟩]

/-- The lexeme of a character that makes the token `t` by itself. -/
def standing (n : Nat) (t : Token) : List Lexeme :=
  if t.isLayout then [] else [⟨t, n⟩]

/-- The line after a character that makes the token `t`. -/
def Token.lineAfter (n : Nat) (t : Token) : Nat := if t = .newline then n + 1 else n

/-- The lexemes of a text from line `n` on, when the characters `w` of a word have been read. -/
def lexFrom (n : Nat) (w : List Char) : List Char → List Lexeme
  | [] => pending n w
  | c :: cs =>
    match Token.ofChar? c with
    | none => lexFrom n (c :: w) cs
    | some t => pending n w ++ (standing n t ++ lexFrom (t.lineAfter n) [] cs)

theorem lexFrom_cons_none {n : Nat} {w : List Char} {c : Char} {cs : List Char}
    (hc : Token.ofChar? c = none) : lexFrom n w (c :: cs) = lexFrom n (c :: w) cs := by
  rw [lexFrom, hc]

theorem lexFrom_cons_some {n : Nat} {w : List Char} {c : Char} {cs : List Char} {t : Token}
    (hc : Token.ofChar? c = some t) :
    lexFrom n w (c :: cs) = pending n w ++ (standing n t ++ lexFrom (t.lineAfter n) [] cs) := by
  rw [lexFrom, hc]

namespace Scan

theorem close_eq (s : Scan) :
    s.close = ⟨s.line, [], (pending s.line s.word).reverse ++ s.done⟩ := by
  obtain ⟨n, w, ds⟩ := s
  cases w <;> rfl

theorem step_none {s : Scan} {c : Char} (hc : Token.ofChar? c = none) :
    s.step c = { s with word := c :: s.word } := by
  rw [step, hc]

theorem step_some {s : Scan} {c : Char} {t : Token} (hc : Token.ofChar? c = some t) :
    s.step c = ⟨t.lineAfter s.line, [],
      (standing s.line t).reverse ++ ((pending s.line s.word).reverse ++ s.done)⟩ := by
  rw [step, hc]
  cases t <;> simp [close_eq, emit, standing, Token.lineAfter, Token.isLayout]

theorem lexemes_foldl_step (s : Scan) (cs : List Char) :
    (cs.foldl step s).lexemes = s.done.reverse ++ lexFrom s.line s.word cs := by
  induction cs generalizing s with
  | nil => simp [lexemes, close_eq, lexFrom]
  | cons c cs ih =>
    rw [List.foldl_cons, ih]
    cases hc : Token.ofChar? c with
    | none => rw [step_none hc, lexFrom_cons_none hc]
    | some t =>
      rw [step_some hc, lexFrom_cons_some hc]
      simp

end Scan

theorem tokenize_eq_lexFrom (source : String) : tokenize source = lexFrom 1 [] source.toList := by
  rw [tokenize, Scan.lexemes_foldl_step]
  rfl

/-- The line on which a text ends that begins on line `n`. -/
def lineAfter (n : Nat) (cs : List Char) : Nat := n + cs.count '\n'

theorem Token.ofChar?_eq_newline_iff {c : Char} : ofChar? c = some .newline ↔ c = '\n' := by
  constructor
  · intro h
    unfold ofChar? at h
    split at h <;> cases h
    rfl
  · rintro rfl
    rfl

theorem Token.lineAfter_eq {n : Nat} {c : Char} {t : Token} (hc : ofChar? c = some t) :
    t.lineAfter n = RobotControl.lineAfter n [c] := by
  by_cases h : c = '\n'
  · subst h
    cases hc
    rfl
  · have ht : t ≠ .newline := fun ht => h (ofChar?_eq_newline_iff.1 (ht ▸ hc))
    simp [Token.lineAfter, RobotControl.lineAfter, ht, h]

/-- **A text can be cut at every character that belongs to no word.** -/
theorem lexFrom_append_cons {n : Nat} {w a b : List Char} {c : Char} {t : Token}
    (hc : Token.ofChar? c = some t) :
    lexFrom n w (a ++ c :: b) =
      lexFrom n w a ++ (standing (lineAfter n a) t ++ lexFrom (lineAfter n (a ++ [c])) [] b) := by
  induction a generalizing n w with
  | nil => simp [lexFrom_cons_some hc, lexFrom, Token.lineAfter_eq hc, lineAfter]
  | cons x a ih =>
    rw [List.cons_append]
    cases hx : Token.ofChar? x with
    | none =>
      have hline : x ≠ '\n' := by
        rintro rfl
        cases hx
      rw [lexFrom_cons_none hx, lexFrom_cons_none hx, ih]
      simp [lineAfter, hline]
    | some t' =>
      rw [lexFrom_cons_some hx, lexFrom_cons_some hx, ih, Token.lineAfter_eq hx]
      simp [lineAfter, List.count_cons, add_comm, add_left_comm]

/-- A run of word characters is one word. -/
theorem lexFrom_word {n : Nat} {w cs : List Char} (h : ∀ c ∈ cs, Token.ofChar? c = none) :
    lexFrom n w cs = pending n (cs.reverse ++ w) := by
  induction cs generalizing w with
  | nil => rfl
  | cons c cs ih =>
    rw [lexFrom_cons_none (h c (by simp)), ih fun x hx => h x (by simp [hx])]
    simp

/-! ### Tokens -/

/-- The tokens of a text. -/
def charTokens (cs : List Char) : List Token := (lexFrom 1 [] cs).map Lexeme.token

/-- The tokens of a source text. -/
def textTokens (s : String) : List Token := (tokenize s).map Lexeme.token

theorem textTokens_eq (s : String) : textTokens s = charTokens s.toList := by
  rw [textTokens, tokenize_eq_lexFrom, charTokens]

@[simp] theorem charTokens_nil : charTokens [] = [] := rfl

theorem map_token_standing (n : Nat) (t : Token) :
    (standing n t).map Lexeme.token = if t.isLayout then [] else [t] := by
  rw [standing]
  split <;> rfl

theorem map_token_pending (n m : Nat) (w : List Char) :
    (pending n w).map Lexeme.token = (pending m w).map Lexeme.token := by
  cases w <;> rfl

/-- The tokens do not depend on the line. -/
theorem map_token_lexFrom (n m : Nat) (w cs : List Char) :
    (lexFrom n w cs).map Lexeme.token = (lexFrom m w cs).map Lexeme.token := by
  induction cs generalizing n m w with
  | nil => exact map_token_pending n m w
  | cons c cs ih =>
    cases hc : Token.ofChar? c with
    | none => rw [lexFrom_cons_none hc, lexFrom_cons_none hc, ih n m]
    | some t =>
      rw [lexFrom_cons_some hc, lexFrom_cons_some hc]
      simp only [List.map_append, map_token_standing]
      rw [map_token_pending n m, ih (t.lineAfter n) (t.lineAfter m)]

theorem charTokens_append_cons {a b : List Char} {c : Char} {t : Token}
    (hc : Token.ofChar? c = some t) :
    charTokens (a ++ c :: b) =
      charTokens a ++ ((if t.isLayout then [] else [t]) ++ charTokens b) := by
  simp only [charTokens, lexFrom_append_cons hc, List.map_append, map_token_standing]
  rw [map_token_lexFrom (lineAfter 1 (a ++ [c])) 1]

theorem charTokens_word {cs : List Char} (hne : cs ≠ []) (h : ∀ c ∈ cs, Token.ofChar? c = none) :
    charTokens cs = [.word (String.ofList cs)] := by
  rw [charTokens, lexFrom_word h, List.append_nil]
  cases hr : cs.reverse with
  | nil => exact absurd (List.reverse_eq_nil_iff.1 hr) hne
  | cons c r => rw [pending, ← hr, List.reverse_reverse, List.map_singleton]

/-! ### Nesting -/

/-- The number of open braces and parentheses after a character, when `d` are open in front of
it. -/
def charOpenAfter (d : Nat) (c : Char) : Nat :=
  if c = '\x7b' ∨ c = '(' then d + 1 else if c = '\x7d' ∨ c = ')' then d - 1 else d

/-- The largest number of braces and parentheses that are open at once in a text, when `d` are open
at the start. -/
def charNestingFrom (d : Nat) : List Char → Nat
  | [] => d
  | c :: cs => max d (charNestingFrom (charOpenAfter d c) cs)

/-- The largest number of braces and parentheses that are open at once in a text. -/
def textNesting (s : String) : Nat := charNestingFrom 0 s.toList

theorem charOpenAfter_some {d : Nat} {c : Char} {t : Token} (hc : Token.ofChar? c = some t) :
    charOpenAfter d c = t.openAfter d := by
  unfold Token.ofChar? at hc
  split at hc <;> cases hc <;> rfl

theorem charOpenAfter_none {d : Nat} {c : Char} (hc : Token.ofChar? c = none) :
    charOpenAfter d c = d := by
  have hne : c ≠ '\x7b' ∧ c ≠ '(' ∧ c ≠ '\x7d' ∧ c ≠ ')' := by
    refine ⟨?_, ?_, ?_, ?_⟩ <;> rintro rfl <;> cases hc
  simp [charOpenAfter, hne]

theorem Token.openAfter_of_isLayout {d : Nat} {t : Token} (h : t.isLayout = true) :
    t.openAfter d = d := by
  cases t <;> simp [Token.isLayout, Token.openAfter] at h ⊢

theorem nestingFrom_word (d : Nat) (w : String) (ts : List Token) :
    nestingFrom d (.word w :: ts) = nestingFrom d ts :=
  max_eq_right (le_nestingFrom d ts)

theorem nestingFrom_pending (d n : Nat) (w : List Char) (ts : List Token) :
    nestingFrom d ((pending n w).map Lexeme.token ++ ts) = nestingFrom d ts := by
  cases w with
  | nil => rfl
  | cons c cs => exact nestingFrom_word d _ ts

theorem nestingFrom_standing (d n : Nat) (t : Token) (ts : List Token) :
    nestingFrom d ((standing n t).map Lexeme.token ++ ts) =
      max d (nestingFrom (t.openAfter d) ts) := by
  rw [map_token_standing]
  split_ifs with h
  · rw [Token.openAfter_of_isLayout h, List.nil_append, max_eq_right (le_nestingFrom d ts)]
  · rfl

theorem nestingFrom_lexFrom (d n : Nat) (w cs : List Char) :
    nestingFrom d ((lexFrom n w cs).map Lexeme.token) = charNestingFrom d cs := by
  induction cs generalizing d n w with
  | nil =>
    rw [lexFrom, ← List.append_nil (List.map _ _), nestingFrom_pending]
    rfl
  | cons c cs ih =>
    rw [charNestingFrom]
    cases hc : Token.ofChar? c with
    | none =>
      have hle : d ≤ charNestingFrom d cs := by
        rw [← ih d n w]
        exact le_nestingFrom d _
      rw [lexFrom_cons_none hc, ih, charOpenAfter_none hc, max_eq_right hle]
    | some t =>
      rw [lexFrom_cons_some hc, List.map_append, List.map_append, nestingFrom_pending,
        nestingFrom_standing, ih, charOpenAfter_some hc]

/-- Delimiters are nested in a text as they are in its tokens. -/
theorem nesting_textTokens (s : String) : nesting (textTokens s) = textNesting s := by
  rw [nesting, textTokens, tokenize_eq_lexFrom, nestingFrom_lexFrom, textNesting]

end RobotControl
