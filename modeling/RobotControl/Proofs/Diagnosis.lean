import Mathlib.Tactic
import RobotControl.Proofs.DelimiterRule
import RobotControl.Proofs.Layout
import RobotControl.Proofs.Misfit

/-!
# What parse errors say

The message of a parse error tells the truth about the text.  A program is refused for one of few
causes, which can be told from their wording, and a delimiter that is said to be missing can indeed
come next, with one exception.

* `Program.parseByRules`: a reading that calls a token unexpected where no lexical rule matches.  It
  agrees with `Program.parse`, since there is no such place;
* `Cause.ofStatements`: the causes for which the statements of a program are refused;
* `Filled`: in the tokens of a phrase no opening brace is followed by a closing one, so that the
  exception is a real one.
-/

namespace RobotControl

/-! ### Tokens that no rule matches -/

/-- The error in front of the end `rest` of a text, where no lexical rule matches. -/
def ParseError.unexpected (source rest : List Char) : ParseError where
  text := "Unexpected token: " ++ String.ofList (rest.take 1)
  line := some (1 + (source.take (source.length - rest.length)).count '\n')
  context := []

/-- The program that a text spells, when its tokens are found by longest matches. -/
def Program.parseByRules (source : String) : Except ParseError Program :=
  match munch 1 source.toList with
  | .error rest => .error (.unexpected source.toList rest)
  | .ok ts =>
    match Parser.program ts with
    | .ok p _ => .ok p
    | .error e _ => .error e

theorem Program.parseByRules_eq (source : String) : parseByRules source = parse source := by
  rw [parseByRules, (tokenize_cuts source).munch_eq]
  rfl

/-! ### Causes and their wording -/

/-- The causes for which the statements of a program are refused. -/
def Cause.ofStatements : List Cause :=
  Token.delimiters.map .missing ++
    [.emptyBlock, .noAction, .noComparison, .noSensor, .literalTooLarge]

theorem Cause.BorneOut.mem_ofStatements {c : Cause} {vs : List Token} (h : c.BorneOut vs) :
    c ∈ ofStatements := by
  cases c with
  | missing t => exact List.mem_append_left _ (List.mem_map_of_mem h.1)
  | noStatements | noOperator | noNumber | nestingTooDeep => exact h.elim
  | _ => decide

theorem Parser.Unclosed.mem_ofStatements {c : Cause} {us : List Token} {rest : List Lexeme}
    (h : Parser.Unclosed c us rest) : c ∈ Cause.ofStatements := by
  rw [h.1]
  decide

/-- These causes, the empty program and the nesting are all worded differently. -/
theorem Cause.text_inj {c c' : Cause} (hc : c ∈ .noStatements :: .nestingTooDeep :: ofStatements)
    (hc' : c' ∈ .noStatements :: .nestingTooDeep :: ofStatements) (h : c.text = c'.text) :
    c = c' := by
  have hall : ∀ c ∈ Cause.noStatements :: .nestingTooDeep :: ofStatements,
      ∀ c' ∈ Cause.noStatements :: .nestingTooDeep :: ofStatements, c.text = c'.text → c = c' := by
    decide
  exact hall c hc c' hc' h

/-- Messages for tokens that no production hands to another one. -/
def unheard : List String :=
  ["Missing 'loop'", "Missing 'if'", "Missing 'while'", "Missing 'not'", "Unable to find OP",
    "Unable to find number"]

theorem Cause.text_heard {c : Cause} (hc : c ∈ .noStatements :: .nestingTooDeep :: ofStatements) :
    c.text ∉ unheard ∧ ¬ "Unexpected token: ".toList <+: c.text.toList := by
  revert c hc
  decide

/-! ### Blocks are not empty -/

/-- No opening brace is followed by a closing one, neither inside the tokens nor at their ends. -/
structure Filled (us : List Token) : Prop where
  chain : us.IsChain fun a b => a = .lbrace → b ≠ .rbrace
  head : us.head? ≠ some .rbrace
  last : us.getLast? ≠ some .lbrace

namespace Filled

variable {us vs : List Token} {t : Token}

theorem single (hl : t ≠ .lbrace) (hr : t ≠ .rbrace) : Filled [t] :=
  ⟨.singleton t, by simpa using hr, by simpa using hl⟩

theorem append (hu : Filled us) (hv : Filled vs) : Filled (us ++ vs) where
  chain := by
    refine List.isChain_append.2 ⟨hu.chain, hv.chain, ?_⟩
    rintro a ha b - rfl
    exact absurd ha hu.last
  head := by
    cases us with
    | nil => exact hv.head
    | cons t us => exact hu.head
  last := by
    rw [List.getLast?_append]
    cases hlast : vs.getLast? with
    | none => exact hu.last
    | some t =>
      rw [Option.some_or, ← hlast]
      exact hv.last

theorem cons (hl : t ≠ .lbrace) (hr : t ≠ .rbrace) (hu : Filled us) : Filled (t :: us) :=
  (single hl hr).append hu

/-- Braces around tokens of which there is one at least. -/
theorem braces (hne : us ≠ []) (hu : Filled us) : Filled (.lbrace :: (us ++ [.rbrace])) where
  chain := by
    obtain ⟨t, us, rfl⟩ := List.exists_cons_of_ne_nil hne
    have hinner : (t :: us ++ [Token.rbrace]).IsChain fun a b => a = .lbrace → b ≠ .rbrace := by
      refine List.isChain_append.2 ⟨hu.chain, .singleton _, ?_⟩
      rintro a ha b - rfl
      exact absurd ha hu.last
    exact .cons_cons (fun _ ht => hu.head (congrArg some ht)) hinner
  head := by simp
  last := by simp [List.getLast?_cons]

end Filled

theorem Derives.filled {us : List Token} {x : Phrase} (h : Derives us x) : Filled us := by
  induction h with
  | number | sensor | bare => exact .single (by simp) (by simp)
  | binary _ _ _ ihl ihr | compare _ _ _ ihl ihr | conj _ _ ihl ihr | disj _ _ ihl ihr =>
    have hargs := ihl.append (.cons (t := .comma) (by simp) (by simp)
      (ihr.append (.single (t := .rparen) (by simp) (by simp))))
    exact .cons (by simp) (by simp) (.cons (by simp) (by simp) hargs)
  | neg _ ih | applied _ _ ih =>
    have harg := ih.append (.single (t := .rparen) (by simp) (by simp))
    exact .cons (by simp) (by simp) (.cons (by simp) (by simp) harg)
  | act _ ih => exact ih.append (.single (by simp) (by simp))
  | loop _ ih => exact .cons (by simp) (by simp) ih
  | ifThen _ _ ihc ihb | whileLoop _ _ ihc ihb =>
    have htest := ihc.append (.cons (t := .rparen) (by simp) (by simp) ihb)
    exact .cons (by simp) (by simp) (.cons (by simp) (by simp) htest)
  | ifElse _ _ _ ihc ihb ihb' =>
    have hblocks := ihb.append (.cons (t := .word "else") (by simp) (by simp) ihb')
    have htest := ihc.append (.cons (t := .rparen) (by simp) (by simp) hblocks)
    exact .cons (by simp) (by simp) (.cons (by simp) (by simp) htest)
  | @ifElseBraced _ _ zs _ _ _ _ _ hb' ihc ihb ihb' =>
    have hne : zs ≠ [] := List.ne_nil_of_length_pos hb'.length_pos
    have hblocks := ihb.append (.cons (t := .word "else") (by simp) (by simp) (ihb'.braces hne))
    have htest := ihc.append (.cons (t := .rparen) (by simp) (by simp) hblocks)
    exact .cons (by simp) (by simp) (.cons (by simp) (by simp) htest)
  | block h ih => exact ih.braces (List.ne_nil_of_length_pos h.length_pos)
  | single _ ih | program _ ih => exact ih
  | cons _ _ ihs ihb => exact ihs.append ihb

/-- No program goes on with a closing brace directly after an opening one. -/
theorem not_beginsProgram_of_getLast? {us : List Token} (h : us.getLast? = some .lbrace) :
    ¬ BeginsProgram (us ++ [.rbrace]) := by
  rintro ⟨vs, p, hd⟩
  obtain ⟨us, rfl⟩ := List.getLast?_eq_some_iff.1 h
  have hchain := hd.filled.chain
  simp only [List.append_assoc, List.singleton_append] at hchain
  exact (List.isChain_append_cons_cons.1 hchain).2.1 rfl rfl

/-! ### Programs -/

namespace Parser

/-- Where a program is refused, and not for its nesting or because it is empty, what was used up can
be completed, and the completion bears the cause out. -/
theorem program_stops {ts rest : List Lexeme} {e : ParseError} (h : program ts = .error e rest)
    (hdeep : tooDeep? 0 ts = none) (hts : ts ≠ []) :
    ∃ c pre vs p, e = .before c rest ∧ ts = pre ++ rest ∧
      Derives (pre.map Lexeme.token ++ vs) (.program p) ∧
      (c.BorneOut vs ∨ Unclosed c (pre.map Lexeme.token) rest) := by
  rcases program_eq_error_iff.1 h with ⟨bad, hbad, -⟩ | ⟨-, ⟨hnil, -⟩ | ⟨-, hseq⟩⟩
  · rw [hdeep] at hbad
    cases hbad
  · exact absurd hnil hts
  · obtain ⟨c, us, vs, he, hs, ⟨b, hd⟩, hc⟩ :=
      sequence_stops (statement_completes _) (statement_sound _) hts le_rfl le_rfl hseq
    obtain ⟨pre, hpre, rfl⟩ := Spans.iff_exists_append.1 hs
    exact ⟨c, pre, vs, ⟨b⟩, he, hpre, .program hd, hc⟩

/-- Every program that is refused is refused for one of the causes that can be told from their
wording. -/
theorem exists_cause_of_program_error {ts rest : List Lexeme} {e : ParseError}
    (h : program ts = .error e rest) :
    ∃ c ∈ .noStatements :: .nestingTooDeep :: Cause.ofStatements, e.text = c.text ∧
      (c = .noStatements ↔ ts = []) ∧ (c = .nestingTooDeep ↔ tooDeep? 0 ts ≠ none) := by
  rcases program_eq_error_iff.1 h with ⟨bad, hbad, rfl, -⟩ | ⟨hdeep, ⟨rfl, rfl, -⟩ | ⟨hts, -⟩⟩
  · refine ⟨.nestingTooDeep, by decide, rfl, iff_of_false (by simp) ?_,
      iff_of_true rfl (by simp [hbad])⟩
    rintro rfl
    cases hbad
  · exact ⟨.noStatements, by decide, rfl, by simp, iff_of_false (by simp) (by simp [hdeep])⟩
  · obtain ⟨c, pre, vs, p, rfl, -, -, hc⟩ := program_stops h hdeep hts
    have hmem : c ∈ Cause.ofStatements := hc.elim (·.mem_ofStatements) (·.mem_ofStatements)
    refine ⟨c, by simp [hmem], rfl, iff_of_false ?_ hts, iff_of_false ?_ (by simp [hdeep])⟩
    · rintro rfl
      exact absurd hmem (by decide)
    · rintro rfl
      exact absurd hmem (by decide)

/-- **A delimiter that is reported missing can come next**, unless the input ends directly after an
opening brace: there the closing brace is reported, which cannot. -/
theorem program_missing {ts rest : List Lexeme} {e : ParseError} (h : program ts = .error e rest) :
    ∃ pre, ts = pre ++ rest ∧ ∀ t ∈ Token.delimiters, e.text = (Cause.missing t).text →
      (¬ BeginsProgram (pre.map Lexeme.token ++ [t]) ↔
        Unclosed (.missing t) (pre.map Lexeme.token) rest) := by
  have hmissing {t : Token} (ht : t ∈ Token.delimiters) :
      Cause.missing t ∈ .noStatements :: .nestingTooDeep :: Cause.ofStatements := by
    simp [Cause.ofStatements, ht]
  rcases program_eq_error_iff.1 h with ⟨bad, -, rfl, rfl⟩ | ⟨hdeep, ⟨rfl, rfl, rfl⟩ | ⟨hts, -⟩⟩
  · refine ⟨[], rfl, fun t ht htext => ?_⟩
    cases Cause.text_inj (c := .nestingTooDeep) (by decide) (hmissing ht) htext
  · refine ⟨[], rfl, fun t ht htext => ?_⟩
    cases Cause.text_inj (c := .noStatements) (by decide) (hmissing ht) htext
  · obtain ⟨c, pre, vs, p, rfl, hpre, hd, hc⟩ := program_stops h hdeep hts
    refine ⟨pre, hpre, fun t ht htext => ?_⟩
    have hmem : c ∈ Cause.ofStatements := hc.elim (·.mem_ofStatements) (·.mem_ofStatements)
    obtain rfl := Cause.text_inj (by simp [hmem]) (hmissing ht) htext
    constructor
    · intro hbegins
      refine hc.resolve_left fun ⟨_, hhead⟩ => hbegins ?_
      obtain ⟨vs, rfl⟩ := List.head?_eq_some_iff.1 hhead
      exact ⟨vs, p, by rwa [List.append_assoc]⟩
    · rintro ⟨hrbrace, -, hlast⟩
      cases hrbrace
      exact not_beginsProgram_of_getLast? hlast

end Parser

/-- **Parse errors tell the truth.**  When a text is refused,

* the message is none of those that stand for tokens no production is given.  No token is called
  unexpected, although the text is refused with the same error by the reading that could do so;
* it says that there are no statements exactly when there are no tokens;
* when it says that a delimiter is missing, what was used up and this delimiter begin a program.
  The only exception is a closing brace that is missing at the end of the input, directly after an
  opening one. -/
theorem Program.parse_error_truthful {source : String} {e : ParseError}
    (h : Program.parse source = .error e) :
    Program.parseByRules source = .error e ∧
    (e.text ∉ ["Missing 'loop'", "Missing 'if'", "Missing 'while'", "Missing 'not'",
        "Unable to find OP", "Unable to find number"] ∧
      ¬ "Unexpected token: ".toList <+: e.text.toList) ∧
    (e.text = "Program has no statements" ↔ tokenize source = []) ∧
    ∃ pre rest, Parser.program (tokenize source) = .error e rest ∧ tokenize source = pre ++ rest ∧
      ∀ t ∈ [Token.semicolon, .lparen, .rparen, .lbrace, .rbrace, .comma],
        e.text = "Missing '" ++ t.text ++ "'" →
          (¬ BeginsProgram (pre.map Lexeme.token ++ [t]) ↔
            t = .rbrace ∧ rest = [] ∧ (pre.map Lexeme.token).getLast? = some .lbrace) := by
  obtain ⟨rest, hprogram⟩ := Program.parse_eq_error_iff.1 h
  obtain ⟨c, hc, htext, hempty, -⟩ := Parser.exists_cause_of_program_error hprogram
  obtain ⟨pre, hpre, hmissing⟩ := Parser.program_missing hprogram
  refine ⟨(Program.parseByRules_eq source).trans h, htext ▸ Cause.text_heard hc, ?_,
    pre, rest, hprogram, hpre, fun t ht ht' => ?_⟩
  · rw [← hempty, htext]
    have hnone : Cause.noStatements ∈ .noStatements :: .nestingTooDeep :: Cause.ofStatements := by
      decide
    exact ⟨fun heq => Cause.text_inj hc hnone heq, fun heq => heq ▸ rfl⟩
  · rw [hmissing t ht ht', Parser.Unclosed, Cause.missing.injEq]

/-- A conditional whose second block has just been opened. -/
def Program.openElse : String := "if (eq(1, 2)) \x7b move; \x7d else \x7b\n\x7b"

/-- The closing brace that is reported missing there cannot come next. -/
theorem Program.parse_error_truthful_openElse :
    Program.parse Program.openElse = .error ⟨"Missing '\x7d'", none, []⟩ ∧
      ∃ pre rest, Parser.program (tokenize Program.openElse) =
          .error ⟨"Missing '\x7d'", none, []⟩ rest ∧
        tokenize Program.openElse = pre ++ rest ∧
        (¬ BeginsProgram (pre.map Lexeme.token ++ [.rbrace]) ↔
          rest = [] ∧ (pre.map Lexeme.token).getLast? = some .lbrace) := by
  have h : Program.parse Program.openElse = .error ⟨"Missing '\x7d'", none, []⟩ := by rfl
  obtain ⟨-, -, -, pre, rest, hprogram, hpre, hmissing⟩ := Program.parse_error_truthful h
  refine ⟨h, pre, rest, hprogram, hpre, ?_⟩
  simpa using hmissing .rbrace (by decide) (by decide)

end RobotControl
