import Mathlib.Tactic
import RobotControl.Proofs.DelimiterRule
import RobotControl.Proofs.Lookahead
import RobotControl.Proofs.RoundTrip

/-!
# Layout

The layout of a text does not count.  Two texts with the same tokens hold the same program, or they
are refused for the same cause in front of the same token; only the line that is reported is the
text's own.

* `Token.ofText`: the tokens of a text can be read off their texts;
* `Parser.deepIndex?`: where a token list is nested too deeply, said without lines;
* `Parser.program_error_alike`: an error depends on the tokens and on where reading stopped.
-/

namespace RobotControl

/-! ### Tokens and their texts -/

/-- The delimiter or the word with a given text. -/
def Token.ofText (s : String) : Token :=
  match s.toList with
  | [c] => (delimiterOf? c).getD (.word s)
  | _ => .word s

theorem Token.IsMaximal.ofText_text {t : Token} {a b : List Char} (h : t.IsMaximal a b) :
    Token.ofText t.text = t := by
  rcases h with ⟨c, hc⟩ | ⟨w, rfl, -, hw, -⟩
  · simp [Token.ofText, text_of_delimiterOf? hc, hc]
  · rw [Token.text, Token.ofText]
    split
    · rename_i c hcs
      have hc := hw c (by simp [hcs])
      simp_all [isWordChar]
    · rfl

/-- The texts of the tokens tell the tokens. -/
theorem textTokens_eq_map_ofText (source : String) :
    textTokens source = ((tokenize source).map fun l => l.token.text).map Token.ofText := by
  rw [textTokens, List.map_map]
  refine List.map_congr_left fun l hl => ?_
  obtain ⟨before, after, hsplit⟩ := List.append_of_mem hl
  obtain ⟨a, b, -, hmax⟩ := (tokenize_cuts source).stands hsplit
  exact hmax.ofText_text.symm

/-! ### Where an error is reported -/

namespace Parser

variable {ts ts' rest : List Lexeme} {e : ParseError}

/-- The index of the first opening delimiter that stands too deep, when `d` delimiters are open. -/
def deepIndex? (d : Nat) : List Token → Option Nat
  | [] => none
  | t :: us =>
    if t.isOpening && decide (maxNesting ≤ d) then some 0
    else (deepIndex? (t.openAfter d) us).map (· + 1)

/-- Whether and where tokens are nested too deeply does not depend on their lines. -/
theorem tooDeep?_eq (d : Nat) (ts : List Lexeme) :
    tooDeep? d ts = (deepIndex? d (ts.map Lexeme.token)).map ts.drop := by
  induction ts generalizing d with
  | nil => rfl
  | cons l ts ih =>
    rw [tooDeep?, List.map_cons, deepIndex?, Token.openAfter_eq]
    by_cases hopen : l.token.isOpening = true
    · by_cases hd : maxNesting ≤ d <;> simp [hopen, hd, ih, Function.comp_def]
    · by_cases hclose : l.token.isClosing = true <;> simp [hopen, hclose, ih, Function.comp_def]

/-- **An error depends on the tokens and on where reading stopped**: on other lines, the same tokens
are refused for the same cause in front of the same token. -/
theorem program_error_alike (h : program ts = .error e rest) :
    ∃ c i, e = .before c (ts.drop i) ∧
      ∀ ts', ts'.map Lexeme.token = ts.map Lexeme.token →
        ∃ rest', program ts' = .error (.before c (ts'.drop i)) rest' := by
  rcases program_eq_error_iff.1 h with ⟨bad, hdeep, rfl, -⟩ | ⟨hdeep, ⟨rfl, rfl, -⟩ | ⟨hne, hseq⟩⟩
  · rw [tooDeep?_eq, Option.map_eq_some_iff] at hdeep
    obtain ⟨i, hi, rfl⟩ := hdeep
    refine ⟨.nestingTooDeep, i, rfl, fun ts' htok => ⟨ts', ?_⟩⟩
    refine program_eq_error_iff.2 (.inl ⟨ts'.drop i, ?_, rfl, rfl⟩)
    rw [tooDeep?_eq, htok, hi, Option.map_some]
  · refine ⟨.noStatements, 0, rfl, fun ts' htok => ⟨rest, ?_⟩⟩
    obtain rfl := List.map_eq_nil_iff.1 htok
    exact h
  · obtain ⟨c, pre, rfl, rfl, hmove⟩ := (sequence_alikeAt hne le_rfl).error hseq
    refine ⟨c, pre.length, by rw [List.drop_left], fun ts' htok => ⟨ts'.drop pre.length, ?_⟩⟩
    have hlen : ts'.length = (pre ++ rest).length := by simpa using congrArg List.length htok
    have hrest : (ts'.drop pre.length).map Lexeme.token = rest.map Lexeme.token := by
      rw [List.map_drop, htok, ← List.map_drop, List.drop_left]
    have hspans : Spans ts' (pre.map Lexeme.token) (ts'.drop pre.length) := by
      refine Spans.iff_exists_append.2 ⟨ts'.take pre.length, (List.take_append_drop ..).symm, ?_⟩
      rw [List.map_take, htok, ← List.map_take, List.take_left]
    have hnext : nextToken (ts'.drop pre.length) = nextToken rest := by
      rw [nextToken, nextToken, ← List.head?_map, ← List.head?_map, hrest]
    refine program_eq_error_iff.2 (.inr ⟨?_, .inr ⟨?_, ?_⟩⟩)
    · rw [tooDeep?_eq, Option.map_eq_none_iff] at hdeep ⊢
      rw [htok, hdeep]
    · rintro rfl
      exact hne (List.map_eq_nil_iff.1 htok.symm)
    · rw [hlen]
      exact hmove ts' _ hlen.le hspans hnext

end Parser

/-! ### Programs -/

theorem Program.parse_eq_error_iff {source : String} {e : ParseError} :
    Program.parse source = .error e ↔ ∃ rest, Parser.program (tokenize source) = .error e rest := by
  rw [Program.parse]
  cases Parser.program (tokenize source) <;> simp

/-- Texts with the same tokens hold the same program. -/
theorem Program.parse_eq_ok_congr {a b : String} (h : textTokens a = textTokens b) (p : Program) :
    Program.parse a = .ok p ↔ Program.parse b = .ok p := by
  rw [Program.parse_eq_ok_iff, Program.parse_eq_ok_iff, ← nesting_textTokens, ← nesting_textTokens,
    h]

/-- **Layout never changes meaning.**  Two texts whose tokens have the same texts, one after the
other, hold the same program, or they are refused with the same message.  Then reading stopped at
the same index of both token lists: the error quotes the tokens from there on, and its line is that
of the text's own token at this index, or none at the end. -/
theorem Program.parse_ignores_layout {a b : String}
    (h : (tokenize a).map (fun l => l.token.text) = (tokenize b).map fun l => l.token.text) :
    (∃ p, Program.parse a = .ok p ∧ Program.parse b = .ok p) ∨
      ∃ e e' i, Program.parse a = .error e ∧ Program.parse b = .error e' ∧
        e.text = e'.text ∧ e.context = e'.context ∧
        e.context = (((tokenize a).drop i).take 5).map (fun l => l.token.text) ∧
        ((e.line = none ∧ e'.line = none) ∨
          ∃ l l', (tokenize a)[i]? = some l ∧ (tokenize b)[i]? = some l' ∧
            e.line = some l.line ∧ e'.line = some l'.line) := by
  have htok : textTokens a = textTokens b := by
    rw [textTokens_eq_map_ofText, h, ← textTokens_eq_map_ofText]
  cases ha : Program.parse a with
  | ok p => exact .inl ⟨p, rfl, (Program.parse_eq_ok_congr htok p).1 ha⟩
  | error e =>
    obtain ⟨rest, ha⟩ := Program.parse_eq_error_iff.1 ha
    obtain ⟨c, i, rfl, halike⟩ := Parser.program_error_alike ha
    obtain ⟨rest', hb⟩ := halike (tokenize b) htok.symm
    refine .inr ⟨_, _, i, rfl, Program.parse_eq_error_iff.2 ⟨rest', hb⟩, rfl, ?_, rfl, ?_⟩
    · simp only [ParseError.before, List.map_take, List.map_drop, h]
    · have hlen : (tokenize a).length = (tokenize b).length := by simpa using congrArg List.length h
      simp only [ParseError.before, List.head?_drop]
      by_cases hi : i < (tokenize a).length
      · have hi' : i < (tokenize b).length := hlen ▸ hi
        exact .inr ⟨_, _, List.getElem?_eq_getElem hi, List.getElem?_eq_getElem hi',
          by rw [List.getElem?_eq_getElem hi, Option.map_some],
          by rw [List.getElem?_eq_getElem hi', Option.map_some]⟩
      · have hi' : (tokenize b).length ≤ i := hlen ▸ not_lt.1 hi
        exact .inl (by rw [List.getElem?_eq_none (not_lt.1 hi), List.getElem?_eq_none hi']; simp)

/-- A movement and a loop without a body, on two lines. -/
def Program.emptyLoop : String := "move(1);\nloop\x7b\x7d"

/-- The same tokens on four lines. -/
def Program.emptyLoopSpread : String := "move ( 1 )\n;loop\n\n\x7b\t\x7d\r\n"

/-- The empty block is found on line 2 of the one text, and on line 4 of the other. -/
theorem Program.parse_ignores_layout_empty_loop :
    (tokenize Program.emptyLoop).map (fun l => l.token.text) =
        (tokenize Program.emptyLoopSpread).map (fun l => l.token.text) ∧
      Program.parse Program.emptyLoop =
        .error ⟨"Cannot have empty block", some 2, ["\x7d"]⟩ ∧
      Program.parse Program.emptyLoopSpread =
        .error ⟨"Cannot have empty block", some 4, ["\x7d"]⟩ ∧
      ∃ e e' i, Program.parse Program.emptyLoop = .error e ∧
        Program.parse Program.emptyLoopSpread = .error e' ∧
        e.text = e'.text ∧ e.context = e'.context ∧
        e.context = (((tokenize Program.emptyLoop).drop i).take 5).map (fun l => l.token.text) ∧
        ((e.line = none ∧ e'.line = none) ∨
          ∃ l l', (tokenize Program.emptyLoop)[i]? = some l ∧
            (tokenize Program.emptyLoopSpread)[i]? = some l' ∧
            e.line = some l.line ∧ e'.line = some l'.line) := by
  have htext : (tokenize Program.emptyLoop).map (fun l => l.token.text) =
      (tokenize Program.emptyLoopSpread).map fun l => l.token.text := by decide
  have ha : Program.parse Program.emptyLoop =
      .error ⟨"Cannot have empty block", some 2, ["\x7d"]⟩ := by rfl
  have hb : Program.parse Program.emptyLoopSpread =
      .error ⟨"Cannot have empty block", some 4, ["\x7d"]⟩ := by rfl
  refine ⟨htext, ha, hb, ?_⟩
  rcases Program.parse_ignores_layout htext with ⟨p, hp, -⟩ | herror
  · rw [ha] at hp
    cases hp
  · exact herror

end RobotControl
