import Mathlib.Tactic
import RobotControl.Program.Printer
import RobotControl.Proofs.Parsing
import RobotControl.Proofs.Scanning

/-!
# Reading back what is printed

The text of a program is cut into tokens that spell the program, so that the parser gives it back
unless it is nested too deeply.

* `ReadsAs`: the tokens of a text, whatever text follows it;
* `Statement.tokens`, `Block.tokens`: the tokens of a printed statement;
* for every kind of phrase, the tokens of its text derive it.
-/

namespace RobotControl

/-! ### Texts in front of other texts -/

/-- In front of any text, `s` is cut into the tokens `us`. -/
def ReadsAs (s : String) (us : List Token) : Prop :=
  ∀ cs, charTokens (s.toList ++ cs) = us ++ charTokens cs

/-- A character that belongs to no word. -/
def separates (c : Option Char) : Bool := c.any fun c => (Token.ofChar? c).isSome

theorem separates_eq_true {c? : Option Char} (h : separates c? = true) :
    ∃ c t, c? = some c ∧ Token.ofChar? c = some t := by
  obtain ⟨c, hc, ht⟩ := (Option.any_eq_true _ _).1 h
  obtain ⟨t, ht⟩ := Option.isSome_iff_exists.1 ht
  exact ⟨c, t, hc, ht⟩

namespace ReadsAs

variable {s r sep : String} {us vs : List Token}

theorem textTokens_eq (h : ReadsAs s us) : textTokens s = us := by
  have h := h []
  rwa [List.append_nil, charTokens_nil, List.append_nil, ← RobotControl.textTokens_eq] at h

theorem append (hs : ReadsAs s us) (hr : ReadsAs r vs) : ReadsAs (s ++ r) (us ++ vs) := by
  intro cs
  rw [String.toList_append, List.append_assoc, hs, hr, List.append_assoc]

/-- A text that ends outside a word may stand in front of any other. -/
theorem of_last (hs : separates s.toList.getLast? = true) (hus : textTokens s = us) :
    ReadsAs s us := by
  intro cs
  obtain ⟨c, t, hlast, hc⟩ := separates_eq_true hs
  obtain ⟨a, ha⟩ := List.getLast?_eq_some_iff.1 hlast
  rw [← hus, RobotControl.textTokens_eq, ha, List.append_assoc, List.singleton_append,
    charTokens_append_cons hc, charTokens_append_cons hc]
  simp

/-- A text may end in a word when what follows does not begin with one. -/
theorem text_append (hr : ReadsAs (sep ++ r) us) (hsep : separates sep.toList.head? = true) :
    ReadsAs (s ++ (sep ++ r)) (textTokens s ++ us) := by
  intro cs
  obtain ⟨c, t, hhead, hc⟩ := separates_eq_true hsep
  obtain ⟨b, hb⟩ := List.head?_eq_some_iff.1 hhead
  have hcut : charTokens ((sep ++ r).toList ++ cs) =
      (if t.isLayout then [] else [t]) ++ charTokens (b ++ r.toList ++ cs) := by
    rw [String.toList_append, hb]
    exact charTokens_append_cons (a := []) hc
  rw [String.toList_append, List.append_assoc, String.toList_append, hb, List.cons_append,
    List.cons_append, charTokens_append_cons hc, ← hcut, hr, RobotControl.textTokens_eq,
    List.append_assoc]

end ReadsAs

/-! ### Words -/

theorem Token.ofChar?_eq_none_of_isDigit {c : Char} (h : c.isDigit = true) : ofChar? c = none := by
  unfold ofChar?
  split <;> simp_all

theorem textTokens_numeral {w : String} {v : Int64} (h : Numeral w v) :
    textTokens w = [.word w] := by
  rw [textTokens_eq]
  cases h with
  | unsigned hne hds _ =>
    rw [String.toList_ofList]
    exact charTokens_word hne fun c hc => Token.ofChar?_eq_none_of_isDigit (hds c hc)
  | @negative ds v hne hds _ =>
    rw [String.toList_ofList]
    refine charTokens_word (by simp) fun c hc => ?_
    rcases List.mem_cons.1 hc with rfl | hc
    · rfl
    · exact Token.ofChar?_eq_none_of_isDigit (hds c hc)

/-- A printed integer is a literal for it. -/
theorem numeral_renderInt (v : Int64) : Numeral (renderInt v) v := by
  have hdigits (m : Nat) : Nat.toDigits 10 m ≠ [] ∧ ∀ c ∈ Nat.toDigits 10 m, c.isDigit :=
    ⟨Nat.toDigits_ne_nil, fun c hc => Nat.isDigit_of_mem_toDigits (by decide) (by decide) hc⟩
  rw [renderInt]
  cases hv : v.toInt with
  | ofNat m =>
    obtain ⟨hne, hds⟩ := hdigits m
    refine .unsigned hne hds ?_
    rw [hv, Nat.ofDigitChars_ten_toDigits]
    rfl
  | negSucc m =>
    obtain ⟨hne, hds⟩ := hdigits (m + 1)
    have htext : toString (Int.negSucc m) = String.ofList ('-' :: Nat.toDigits 10 (m + 1)) := by
      rw [← String.toList_inj, Int.toString_eq_repr, Int.repr]
      simp
    rw [htext]
    refine .negative hne hds ?_
    rw [hv, Nat.ofDigitChars_ten_toDigits]
    rfl

theorem textTokens_sensor (s : Sensor) :
    textTokens (Keyword.word s) = [.word (Keyword.word s)] := by
  cases s <;> decide

theorem textTokens_arithOp (op : ArithOp) :
    textTokens (Keyword.word op) = [.word (Keyword.word op)] := by
  cases op <;> decide

theorem textTokens_relOp (op : RelOp) :
    textTokens (Keyword.word op) = [.word (Keyword.word op)] := by
  cases op <;> decide

theorem textTokens_command {α : Type} (c : Command α) : textTokens c.word = [.word c.word] := by
  cases c with
  | shield raised => cases raised <;> simp only [Command.word] <;> decide
  | _ =>
    simp only [Command.word]
    decide

/-! ### Expressions and conditions -/

theorem readsAs_lparen : ReadsAs "(" [.lparen] := .of_last (by decide) (by decide)

theorem readsAs_rparen : ReadsAs ")" [.rparen] := .of_last (by decide) (by decide)

theorem readsAs_comma : ReadsAs ", " [.comma] := .of_last (by decide) (by decide)

theorem textTokens_parens (w x : String) :
    textTokens (w ++ "(" ++ x ++ ")") =
      textTokens w ++ .lparen :: (textTokens x ++ [.rparen]) := by
  have hx : ReadsAs (x ++ (")" ++ "")) (textTokens x ++ [.rparen]) := by
    refine ReadsAs.text_append ?_ (by decide)
    simpa using readsAs_rparen
  have hall := ReadsAs.text_append (s := w) (readsAs_lparen.append hx) (by decide)
  simpa [String.append_assoc] using hall.textTokens_eq

theorem textTokens_renderPair (w x y : String) :
    textTokens (renderPair w x y) =
      textTokens w ++ .lparen :: (textTokens x ++ .comma :: (textTokens y ++ [.rparen])) := by
  have hy : ReadsAs (y ++ (")" ++ "")) (textTokens y ++ [.rparen]) := by
    refine ReadsAs.text_append ?_ (by decide)
    simpa using readsAs_rparen
  have hx := ReadsAs.text_append (s := x) (readsAs_comma.append hy) (by decide)
  have hall := ReadsAs.text_append (s := w) (readsAs_lparen.append hx) (by decide)
  simpa [renderPair, String.append_assoc] using hall.textTokens_eq

theorem Expr.derives_render (e : Expr) : Derives (textTokens e.render) (.expr e) := by
  induction e with
  | num v =>
    rw [Expr.render, textTokens_numeral (numeral_renderInt v)]
    exact .number (numeral_renderInt v)
  | sensor s =>
    rw [Expr.render, textTokens_sensor]
    exact .sensor s
  | binary op l r ihl ihr =>
    rw [Expr.render, textTokens_renderPair, textTokens_arithOp]
    exact .binary op ihl ihr

theorem Cond.derives_render (c : Cond) : Derives (textTokens c.render) (.cond c) := by
  induction c with
  | compare op l r =>
    rw [Cond.render, textTokens_renderPair, textTokens_relOp]
    exact .compare op l.derives_render r.derives_render
  | conj l r ihl ihr =>
    rw [Cond.render, textTokens_renderPair]
    exact .conj ihl ihr
  | disj l r ihl ihr =>
    rw [Cond.render, textTokens_renderPair]
    exact .disj ihl ihr
  | neg c ih =>
    have htext : (Cond.neg c).render = "not" ++ "(" ++ c.render ++ ")" := rfl
    rw [htext, textTokens_parens]
    exact .neg ih

theorem Action.derives_render (a : Action) :
    Derives (textTokens (Action.render a)) (.action a) := by
  rw [Action.render, Command.render]
  cases h : a.operand? with
  | none =>
    simp only
    rw [textTokens_command, Action.word_eq_terminal]
    exact .bare h
  | some e =>
    simp only
    rw [textTokens_parens, textTokens_command, Action.word_eq_terminal]
    exact .applied h e.derives_render

/-! ### Statements -/

theorem readsAs_indent (depth : Nat) : ReadsAs (indent depth) [] := by
  intro cs
  rw [indent, String.toList_ofList]
  induction 4 * depth with
  | zero => rfl
  | succ k ih => exact ih

theorem ReadsAs.braces {lines : String} {us : List Token} (h : ReadsAs lines us) (depth : Nat) :
    ReadsAs (braces depth lines) (.lbrace :: (us ++ [.rbrace])) := by
  have hopen : ReadsAs "\x7b\n" [.lbrace] := .of_last (by decide) (by decide)
  have hclose : ReadsAs "\x7d" [.rbrace] := .of_last (by decide) (by decide)
  simpa [RobotControl.braces] using ((hopen.append h).append (readsAs_indent depth)).append hclose

theorem readsAs_newline : ReadsAs "\n" [] := .of_last (by decide) (by decide)

/-- A test in parentheses, in front of the block that depends on it. -/
theorem Cond.readsAs_render (c : Cond) {r : String} {us : List Token} (h : ReadsAs r us) :
    ReadsAs (c.render ++ (") " ++ r)) (textTokens c.render ++ .rparen :: us) := by
  have hclose : ReadsAs ") " [.rparen] := .of_last (by decide) (by decide)
  exact ReadsAs.text_append (hclose.append h) (by decide)

mutual

/-- The tokens of a printed statement. -/
def Statement.tokens : Statement → List Token
  | .action a => textTokens (Action.render a) ++ [.semicolon]
  | .loop body => .word "loop" :: .lbrace :: (body.tokens ++ [.rbrace])
  | .ifThen test yes =>
    .word "if" :: .lparen ::
      (textTokens test.render ++ .rparen :: .lbrace :: (yes.tokens ++ [.rbrace]))
  | .ifElse test yes no =>
    .word "if" :: .lparen ::
      (textTokens test.render ++ .rparen ::
        ((.lbrace :: (yes.tokens ++ [.rbrace])) ++
          .word "else" :: .lbrace :: (no.tokens ++ [.rbrace])))
  | .whileLoop test body =>
    .word "while" :: .lparen ::
      (textTokens test.render ++ .rparen :: .lbrace :: (body.tokens ++ [.rbrace]))

/-- The tokens of the printed statements of a block, without its braces. -/
def Block.tokens : Block → List Token
  | .single s => s.tokens
  | .cons s rest => s.tokens ++ rest.tokens

end

mutual

theorem Statement.readsAs_render (depth : Nat) (st : Statement) :
    ReadsAs (st.render depth) st.tokens := by
  have hindent := readsAs_indent depth
  cases st with
  | action a =>
    have hend : ReadsAs (";\n" ++ "") [.semicolon] := .of_last (by decide) (by decide)
    have ha := ReadsAs.text_append (s := Action.render a) hend (by decide)
    simpa [Statement.render, Statement.tokens, String.append_assoc] using hindent.append ha
  | loop body =>
    have hbody := body.readsAs_lines (depth + 1)
    have hword : ReadsAs "loop " [.word "loop"] := .of_last (by decide) (by decide)
    have htext := hindent.append (hword.append ((hbody.braces depth).append readsAs_newline))
    simpa [Statement.render, Statement.tokens, String.append_assoc] using htext
  | ifThen test yes =>
    have hyes := yes.readsAs_lines (depth + 1)
    have hword : ReadsAs "if (" [.word "if", .lparen] := .of_last (by decide) (by decide)
    have htest := test.readsAs_render ((hyes.braces depth).append readsAs_newline)
    simpa [Statement.render, Statement.tokens, String.append_assoc] using
      hindent.append (hword.append htest)
  | ifElse test yes no =>
    have hyes := yes.readsAs_lines (depth + 1)
    have hno := no.readsAs_lines (depth + 1)
    have hword : ReadsAs "if (" [.word "if", .lparen] := .of_last (by decide) (by decide)
    have helse : ReadsAs " else " [.word "else"] := .of_last (by decide) (by decide)
    have hblocks := (hyes.braces depth).append
      (helse.append ((hno.braces depth).append readsAs_newline))
    simpa [Statement.render, Statement.tokens, String.append_assoc] using
      hindent.append (hword.append (test.readsAs_render hblocks))
  | whileLoop test body =>
    have hbody := body.readsAs_lines (depth + 1)
    have hword : ReadsAs "while (" [.word "while", .lparen] := .of_last (by decide) (by decide)
    have htest := test.readsAs_render ((hbody.braces depth).append readsAs_newline)
    simpa [Statement.render, Statement.tokens, String.append_assoc] using
      hindent.append (hword.append htest)

theorem Block.readsAs_lines (depth : Nat) (b : Block) : ReadsAs (b.lines depth) b.tokens := by
  cases b with
  | single st => exact st.readsAs_render depth
  | cons st rest => exact (st.readsAs_render depth).append (rest.readsAs_lines depth)

end

mutual

theorem Statement.derives_tokens (st : Statement) : Derives st.tokens (.statement st) := by
  cases st with
  | action a => exact .act (Action.derives_render a)
  | loop body => exact .loop (.block body.derives_tokens)
  | ifThen test yes => exact .ifThen test.derives_render (.block yes.derives_tokens)
  | ifElse test yes no =>
    exact .ifElse test.derives_render (.block yes.derives_tokens) (.block no.derives_tokens)
  | whileLoop test body => exact .whileLoop test.derives_render (.block body.derives_tokens)

theorem Block.derives_tokens (b : Block) : Derives b.tokens (.sequence b) := by
  cases b with
  | single st => exact .single st.derives_tokens
  | cons st rest => exact .cons st.derives_tokens rest.derives_tokens

end

theorem Program.textTokens_render (p : Program) : textTokens p.render = p.body.tokens :=
  (p.body.readsAs_lines 0).textTokens_eq

/-- The tokens of a printed program spell it. -/
theorem Program.derives_render (p : Program) : Derives (textTokens p.render) (.program p) := by
  rw [p.textTokens_render]
  exact .program p.body.derives_tokens

/-! ### Programs -/

theorem Program.parse_eq_ok_iff {source : String} {p : Program} :
    Program.parse source = .ok p ↔
      Derives (textTokens source) (.program p) ∧ textNesting source ≤ Parser.maxNesting := by
  rw [← nesting_textTokens, textTokens, Program.parse]
  cases h : Parser.program (tokenize source) with
  | ok q rest =>
    have hq := Parser.program_iff_derives.1 h
    constructor
    · intro heq
      cases heq
      exact hq.2
    · rintro ⟨hd, -⟩
      rw [Parser.derives_program_unique hq.2.1 hd]
  | error e rest =>
    constructor
    · intro heq
      cases heq
    · intro hd
      rw [Parser.program_iff_derives.2 ⟨rfl, hd⟩] at h
      cases h

theorem Program.parse_of_nesting {source : String} (h : Parser.maxNesting < textNesting source) :
    ∃ bad, Program.parse source = .error (.before .nestingTooDeep bad) := by
  rw [← nesting_textTokens, textTokens] at h
  obtain ⟨bad, hbad⟩ := Parser.program_eq_error_of_nesting h
  exact ⟨bad, by rw [Program.parse, hbad]⟩

/-- **Parsing undoes printing.** The text of a program is read back as that program when no more
than 200 of its braces and parentheses are open at once, and is refused for its nesting
otherwise. -/
theorem Program.parse_render (p : Program) :
    (Program.parse p.render = .ok p ↔ textNesting p.render ≤ 200) ∧
      ((∃ e, Program.parse p.render = .error e ∧ e.text = "Nesting is too deep") ↔
        200 < textNesting p.render) := by
  have hok : Program.parse p.render = .ok p ↔ textNesting p.render ≤ 200 := by
    rw [Program.parse_eq_ok_iff]
    exact and_iff_right p.derives_render
  refine ⟨hok, ?_, fun hdeep => ?_⟩
  · rintro ⟨e, he, -⟩
    by_contra hdeep
    rw [hok.2 (not_lt.1 hdeep)] at he
    cases he
  · obtain ⟨bad, hbad⟩ := Program.parse_of_nesting hdeep
    exact ⟨_, hbad, rfl⟩

end RobotControl
