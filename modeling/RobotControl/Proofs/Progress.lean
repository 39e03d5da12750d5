import Mathlib.Tactic
import RobotControl.Proofs.Diagnosis

/-!
# Progress of the productions

Each production, called by itself on any tokens, comes to an end.  When it succeeds it has used up a
token; when it fails, its error quotes the tokens that are left.

* `Parser.Descent.level`: one level of the recursion, in which each production calls others;
* `Parser.Production`: the thirteen productions, each with the tree that it reads;
* `Parser.Production.readWithin`: a production when at most so many tokens are left.  Any bound that
  covers the tokens gives the same answer, and no call is ever cut off by it;
* `ParseError.Quotes`: an error stands in front of some tokens;
* `FirstTooDeep`: the place of the one error that does not stand where reading stopped.
-/

namespace RobotControl

/-- The error tells the line of the first of the tokens `ts`, unless there are none, and the texts
of the first five of them. -/
structure ParseError.Quotes (e : ParseError) (ts : List Lexeme) : Prop where
  line : e.line = ts.head?.map Lexeme.line
  atEnd : e.line = none ↔ ts = []
  context : e.context = (ts.take (min 5 ts.length)).map fun l => l.token.text

theorem ParseError.before_quotes (c : Cause) (ts : List Lexeme) : (before c ts).Quotes ts where
  line := rfl
  atEnd := by cases ts <;> simp [before]
  context := by rw [← List.take_eq_take_min]; rfl

/-! ### Nesting -/

/-- How many delimiters are open after some tokens. -/
def depthAfter (ls : List Lexeme) : Nat := (ls.map Lexeme.token).foldl Token.openAfter 0

/-- The tokens `bad` begin with the first delimiter of `ts` after which more than 200 are open. -/
def FirstTooDeep (ts bad : List Lexeme) : Prop :=
  ∃ pre l post, ts = pre ++ l :: post ∧ bad = l :: post ∧ (l.token = .lbrace ∨ l.token = .lparen) ∧
    200 < depthAfter (pre ++ [l]) ∧ ∀ us, us <+: pre → depthAfter us ≤ 200

theorem Token.isOpening_iff {t : Token} : t.isOpening = true ↔ t = .lbrace ∨ t = .lparen := by
  cases t <;> simp [Token.isOpening]

namespace Parser

/-- Where tokens are nested too deeply, when `d` delimiters are open in front of them. -/
theorem exists_of_tooDeep?_eq_some {d : Nat} {ts bad : List Lexeme} (hd : d ≤ maxNesting)
    (h : tooDeep? d ts = some bad) :
    ∃ pre l post, ts = pre ++ l :: post ∧ bad = l :: post ∧ l.token.isOpening = true ∧
      maxNesting < ((pre ++ [l]).map Lexeme.token).foldl Token.openAfter d ∧
      ∀ us, us <+: pre → (us.map Lexeme.token).foldl Token.openAfter d ≤ maxNesting := by
  induction ts generalizing d with
  | nil => cases h
  | cons l ts ih =>
    -- what holds behind the first token, with the delimiters that are open after it
    have hlater (hd' : l.token.openAfter d ≤ maxNesting)
        (h' : tooDeep? (l.token.openAfter d) ts = some bad) :
        ∃ pre l' post, l :: ts = pre ++ l' :: post ∧ bad = l' :: post ∧ l'.token.isOpening = true ∧
          maxNesting < ((pre ++ [l']).map Lexeme.token).foldl Token.openAfter d ∧
          ∀ us, us <+: pre → (us.map Lexeme.token).foldl Token.openAfter d ≤ maxNesting := by
      obtain ⟨pre, l', post, rfl, hbad, hopen, hdeep, hleast⟩ := ih hd' h'
      refine ⟨l :: pre, l', post, rfl, hbad, hopen, hdeep, fun us hus => ?_⟩
      rcases List.prefix_cons_iff.1 hus with rfl | ⟨us, rfl, hpre⟩
      · exact hd
      · exact hleast us hpre
    rw [tooDeep?] at h
    split_ifs at h with hopen hdeep hclose
    · cases h
      refine ⟨[], l, ts, rfl, rfl, hopen, ?_, fun us hus => ?_⟩
      · simp only [List.nil_append, List.map_cons, List.map_nil, List.foldl_cons, List.foldl_nil,
          Token.openAfter_eq, hopen, if_true]
        omega
      · rw [List.prefix_nil.1 hus]
        exact hd
    · have hafter : l.token.openAfter d = d + 1 := by simp [Token.openAfter_eq, hopen]
      exact hlater (by omega) (by rwa [hafter])
    · have hafter : l.token.openAfter d = d - 1 := by simp [Token.openAfter_eq, hopen, hclose]
      exact hlater (by omega) (by rwa [hafter])
    · have hafter : l.token.openAfter d = d := by simp [Token.openAfter_eq, hopen, hclose]
      exact hlater (by omega) (by rwa [hafter])

theorem firstTooDeep_of_tooDeep? {ts bad : List Lexeme} (h : tooDeep? 0 ts = some bad) :
    FirstTooDeep ts bad := by
  obtain ⟨pre, l, post, hts, hbad, hopen, hdeep, hleast⟩ :=
    exists_of_tooDeep?_eq_some (Nat.zero_le _) h
  exact ⟨pre, l, post, hts, hbad, Token.isOpening_iff.1 hopen, hdeep, hleast⟩

/-! ### The recursion -/

/-- The productions that call each other. -/
structure Descent where
  expression : Parser Expr
  condition : Parser Cond
  statement : Parser Statement
  /-- Statements up to a closing brace. -/
  inside : Parser Block
  /-- Statements up to the end. -/
  sequence : Parser Block

namespace Descent

/-- The productions when at most `n` tokens are left. -/
def within (n : Nat) : Descent where
  expression := expressionWithin n
  condition := conditionWithin n
  statement := statementWithin n
  inside := insideWithin n
  sequence := sequenceWithin (statementWithin n) n

/-- A statement, read with the productions of `D` inside. -/
def item (D : Descent) : Parser Statement :=
  statementOf (actionOf D.expression) D.condition D.inside

/-- One level of the recursion: each production as it is written, with `D` for the calls in it.  A
statement in front of others is read on the same level as they are, as no token comes before it. -/
def level (D : Descent) : Descent where
  expression := expressionOf D.expression
  condition := conditionOf D.condition D.expression
  statement := D.item
  inside := statementsOf D.item D.inside
  sequence := sequenceOf D.item D.sequence

/-- What the productions of `D` do on at most `n` tokens, those of `E` do on at most `m` tokens that
agree with them.  The statements of a program are not asked for where there are no tokens. -/
structure Agrees (n m : Nat) (D E : Descent) : Prop where
  expression : Alike n m D.expression E.expression
  condition : Alike n m D.condition E.condition
  statement : Alike n m D.statement E.statement
  inside : Alike n m D.inside E.inside
  sequence : ∀ ts, ts ≠ [] → ts.length ≤ n → AlikeAt m D.sequence E.sequence ts

variable {n m : Nat} {D : Descent}

theorem within_agrees (h : n ≤ m) : Agrees n m (within n) (within m) where
  expression := expression_alike h
  condition := condition_alike h
  statement := statement_alike h
  inside :=
    statementsWithin_alike (statementWithin_length_lt n) (statement_alike h) h le_rfl le_rfl
  sequence _ hts hlen :=
    sequenceWithin_alikeAt (statementWithin_length_lt n) (statement_alike h) hts hlen h le_rfl
      le_rfl

/-- In front of no token, no production calls another one. -/
theorem agrees_zero (m : Nat) (D : Descent) : Agrees 0 m (within 0) D.level where
  expression := .zero_left (c := .noSensor) rfl rfl
  condition := .zero_left (c := .noComparison) rfl rfl
  statement := .zero_left (c := .noAction) rfl rfl
  inside := .zero_left (c := .missing .rbrace) rfl rfl
  sequence _ hts hlen := absurd (List.eq_nil_of_length_eq_zero (Nat.le_zero.1 hlen)) hts

/-- A production has used up a token when it calls another one, or calls itself. -/
theorem Agrees.level (h : Agrees n m (within n) D) :
    Agrees (n + 1) (m + 1) (within (n + 1)) D.level := by
  have hitem := statement_alike (Nat.le_succ n)
  have hlt := statementWithin_length_lt
  have hst : Alike (n + 1) (m + 1) (statementWithin (n + 1)) D.item :=
    statementOf_alike h.condition h.inside (actionOf_alike h.expression)
  refine ⟨expressionOf_alike h.expression, conditionOf_alike h.expression h.condition, hst,
    statementsOf_alike (hlt _) hst fun ts hts => ?_, fun ts _ hlen => ?_⟩
  · -- one more token for the statement in front does not matter to those behind it
    have heq := statementsWithin_alike (hlt n) hitem le_rfl le_rfl (Nat.le_succ n) ts hts
    exact (h.inside ts hts).of_eq (heq.eq hts)
  · refine sequenceOf_alikeAt (hlt _) (hst ts hlen) fun ts₁ hne hshort => ?_
    have hts₁ : ts₁.length ≤ n := by omega
    have heq := sequenceWithin_alikeAt (hlt n) hitem hne hts₁ le_rfl le_rfl (Nat.le_succ n)
    exact (h.sequence ts₁ hne hts₁).of_eq (heq.eq hts₁)

/-- **The recursion is never deeper than the tokens are many**: below more levels than there are
tokens, anything may stand. -/
theorem iterate_agrees (D : Descent) (h : n < m) : Agrees n m (within n) (level^[m] D) := by
  induction n generalizing m with
  | zero =>
    obtain ⟨m, rfl⟩ := Nat.exists_eq_add_of_lt h
    rw [Function.iterate_succ_apply']
    exact agrees_zero _ _
  | succ n ih =>
    obtain ⟨m, rfl⟩ : ∃ m', m = m' + 1 := ⟨m - 1, by omega⟩
    rw [Function.iterate_succ_apply']
    exact (ih (Nat.lt_of_succ_lt_succ h)).level

end Descent

/-! ### The productions -/

/-- The productions of the grammar. -/
inductive Production where
  | program
  | statement
  | loop
  | conditional
  | whileLoop
  | block
  | action
  | condition
  | comparison
  | expression
  | operator
  | sensor
  | number
deriving DecidableEq

namespace Production

/-- What a production reads. -/
def Tree : Production → Type
  | .program => Program
  | .statement | .loop | .conditional | .whileLoop => Statement
  | .block => Block
  | .action => Action
  | .condition => Cond
  | .comparison => RelOp
  | .expression => Expr
  | .operator => ArithOp
  | .sensor => Sensor
  | .number => Int64

/-- A production by itself. -/
def read : (k : Production) → Parser k.Tree
  | .program => Parser.program
  | .statement => Parser.statement
  | .loop => loopStatement
  | .conditional => ifStatement
  | .whileLoop => whileStatement
  | .block => Parser.block
  | .action => Parser.action
  | .condition => Parser.condition
  | .comparison => Parser.comparison
  | .expression => Parser.expression
  | .operator => Parser.operator
  | .sensor => Parser.sensor
  | .number => Parser.number

/-- A program whose nesting has been checked. -/
def checkedProgram (D : Descent) : Parser Program := do
  if (← peek) = none then fail .noStatements else
  return ⟨← D.sequence⟩

/-- A production, with the productions of `D` for the calls in it. -/
def readWith (D : Descent) : (k : Production) → Parser k.Tree
  | .program => do checkNesting; checkedProgram D
  | .statement => D.statement
  | .loop => loopOf D.inside
  | .conditional => ifOf D.condition D.inside
  | .whileLoop => whileOf D.condition D.inside
  | .block => blockOf D.inside
  | .action => actionOf D.expression
  | .condition => D.condition
  | .comparison => Parser.comparison
  | .expression => D.expression
  | .operator => Parser.operator
  | .sensor => Parser.sensor
  | .number => Parser.number

/-- A production, when at most `n` tokens are left. -/
def readWithin (n : Nat) (k : Production) : Parser k.Tree := k.readWith (.within n)

theorem readWith_program (D : Descent) (ts : List Lexeme) :
    readWith D .program ts =
      match tooDeep? 0 ts with
      | some bad => .error (.before .nestingTooDeep bad) ts
      | none => checkedProgram D ts := by
  have hcheck : checkNesting ts =
      match tooDeep? 0 ts with
      | some bad => .error (.before .nestingTooDeep bad) ts
      | none => .ok () ts := rfl
  cases hdeep : tooDeep? 0 ts with
  | some bad => exact bind_of_error (hcheck.trans (by rw [hdeep]))
  | none => exact bind_of_ok (hcheck.trans (by rw [hdeep]))

/-- By itself, a production is bound by the tokens that it is given. -/
theorem read_eq (k : Production) (ts : List Lexeme) : k.read ts = k.readWithin ts.length ts := by
  cases k with
  | program =>
    rw [readWithin, readWith_program]
    show Parser.program ts = _
    unfold Parser.program checkedProgram
    cases hdeep : tooDeep? 0 ts with
    | some bad => exact bind_of_error (by rw [checkNesting, hdeep])
    | none =>
      rw [bind_of_ok (by rw [checkNesting, hdeep]), peek_bind, peek_bind]
      split_ifs
      · rfl
      · exact remaining_bind _
  | _ => rfl

variable {ts : List Lexeme}

/-- A production uses up at least one token for a tree. -/
theorem length_lt (k : Production) {a : k.Tree} {rest : List Lexeme} (h : k.read ts = .ok a rest) :
    rest.length < ts.length := by
  have hkeyword {α : Type} [Keyword α] {c : Cause} {a : α} (h : keyword c ts = .ok a rest) :
      rest.length < ts.length := by
    obtain ⟨l, w, rfl, -, -⟩ := keyword_eq_ok_iff.1 h
    exact Nat.lt_succ_self _
  have htest := condition_sound ts.length
  have hinside := inside_sound ts.length
  cases k with
  | program =>
    obtain ⟨-, hts, hseq⟩ := program_eq_ok_iff.1 h
    rw [(sequence_sound (statement_sound ts.length) ts.length hseq).1]
    exact List.length_pos_iff.2 hts
  | statement => exact (statement_sound ts.length).length_lt h
  | loop => exact (loop_sound hinside).length_lt h
  | conditional => exact (if_sound htest hinside).length_lt h
  | whileLoop => exact (while_sound htest hinside).length_lt h
  | block => exact (block_sound hinside).length_lt h
  | action => exact (action_sound ts.length).length_lt h
  | condition => exact htest.length_lt h
  | expression => exact (expression_sound ts.length).length_lt h
  | comparison => exact hkeyword (α := RelOp) h
  | operator => exact hkeyword (α := ArithOp) h
  | sensor => exact hkeyword (α := Sensor) h
  | number =>
    obtain ⟨l, w, rfl, -, -⟩ := number_eq_ok_iff.1 h
    exact Nat.lt_succ_self _

section Agrees

variable {D : Descent} {m : Nat} (hD : Descent.Agrees ts.length m (.within ts.length) D)

include hD

theorem checkedProgram_alikeAt :
    AlikeAt m (checkedProgram (.within ts.length)) (checkedProgram D) ts := by
  refine .peek_bind ?_
  split_ifs with hend
  · exact Alike.fail _ ts le_rfl
  · have hts : ts ≠ [] := fun hnil => hend (nextToken_eq_none_iff.2 hnil)
    exact (hD.sequence ts hts le_rfl).bind fun b _ rest _ _ => Alike.pure _ rest le_rfl

/-- Unless the tokens of a program are nested too deeply, a production ends in front of some of its
tokens, and does so in the same way with other productions that agree on them. -/
theorem exists_resultAt (k : Production) (hk : k = .program → tooDeep? 0 ts = none)
    (hm : ts.length ≤ m) :
    ∃ o rest, rest <:+ ts ∧ k.read ts = resultAt o rest ∧ k.readWith D ts = resultAt o rest := by
  have hle := Nat.le_succ ts.length
  have hsucc : ts.length ≤ m + 1 := hm.trans (Nat.le_succ m)
  rw [read_eq, readWithin]
  cases k with
  | program =>
    rw [readWith_program, readWith_program, hk rfl]
    exact (checkedProgram_alikeAt hD).exists_resultAt hm
  | statement => exact (hD.statement ts le_rfl).exists_resultAt hm
  | loop => exact (loop_alike hD.inside ts hle).exists_resultAt hsucc
  | conditional => exact (if_alike hD.condition hD.inside ts hle).exists_resultAt hsucc
  | whileLoop => exact (while_alike hD.condition hD.inside ts hle).exists_resultAt hsucc
  | block => exact (block_alike hD.inside ts le_rfl).exists_resultAt hm
  | action => exact (actionOf_alike hD.expression ts hle).exists_resultAt hsucc
  | condition => exact (hD.condition ts le_rfl).exists_resultAt hm
  | expression => exact (hD.expression ts le_rfl).exists_resultAt hm
  | comparison => exact (Alike.keyword (α := RelOp) _ ts le_rfl).exists_resultAt hm
  | operator => exact (Alike.keyword (α := ArithOp) _ ts le_rfl).exists_resultAt hm
  | sensor => exact (Alike.keyword (α := Sensor) _ ts le_rfl).exists_resultAt hm
  | number => exact (Alike.number ts le_rfl).exists_resultAt hm

/-- Productions that agree on the tokens give the same answer. -/
theorem readWith_eq (k : Production) (hm : ts.length ≤ m) : k.readWith D ts = k.read ts := by
  by_cases hk : k = .program → tooDeep? 0 ts = none
  · obtain ⟨o, rest, -, hread, hwith⟩ := exists_resultAt hD k hk hm
    rw [hread, hwith]
  · obtain ⟨rfl, hdeep⟩ := Classical.not_imp.1 hk
    obtain ⟨bad, hbad⟩ := Option.ne_none_iff_exists'.1 hdeep
    rw [read_eq, readWithin, readWith_program, readWith_program, hbad]

end Agrees

/-- **Every production ends, uses up a token for a tree, and reports where it stopped.**

No bound on the recursion that covers the tokens changes an answer, nor is one ever reached:
whatever stands below more levels than there are tokens, the answer is the same.  A tree leaves a
strict suffix of the tokens.  An error leaves a suffix and quotes it; only nesting that is too deep
is found before any token is used up, and is reported at the first delimiter that stands too deep.
-/
theorem read_progress (k : Production) (ts : List Lexeme) :
    (∀ n, ts.length ≤ n → k.readWithin n ts = k.read ts) ∧
      (∀ n D, ts.length < n → k.readWith (Descent.level^[n] D) ts = k.read ts) ∧
      match k.read ts with
      | .ok _ rest => rest <:+ ts ∧ rest ≠ ts
      | .error e rest =>
        if k = .program ∧ e.text = "Nesting is too deep" then
          rest = ts ∧ ∃ bad, FirstTooDeep ts bad ∧ e.Quotes bad
        else rest <:+ ts ∧ e.Quotes rest := by
  refine ⟨fun n hn => readWith_eq (Descent.within_agrees hn) k hn,
    fun n D hn => readWith_eq (D.iterate_agrees hn) k hn.le, ?_⟩
  by_cases hdeep : k = .program ∧ tooDeep? 0 ts ≠ none
  · obtain ⟨rfl, hdeep⟩ := hdeep
    obtain ⟨bad, hbad⟩ := Option.ne_none_iff_exists'.1 hdeep
    rw [read_eq, readWithin, readWith_program, hbad]
    refine (if_pos ⟨rfl, rfl⟩).mpr ⟨rfl, bad, ?_⟩
    exact ⟨firstTooDeep_of_tooDeep? hbad, ParseError.before_quotes _ bad⟩
  · have hk : k = .program → tooDeep? 0 ts = none := fun hk => by_contra fun h => hdeep ⟨hk, h⟩
    obtain ⟨o, rest, hsuffix, hread, -⟩ :=
      exists_resultAt (Descent.within_agrees (le_refl ts.length)) k hk le_rfl
    rw [hread]
    cases o with
    | ok a =>
      refine ⟨hsuffix, fun hrest => ?_⟩
      have hlt := k.length_lt hread
      rw [hrest] at hlt
      exact lt_irrefl _ hlt
    | error c =>
      -- no other cause is worded like nesting that is too deep
      refine (if_neg ?_).mpr ⟨hsuffix, ParseError.before_quotes c rest⟩
      rintro ⟨rfl, htext⟩
      obtain ⟨c', hc', heq, -, hnesting⟩ := exists_cause_of_program_error hread
      have hcause : c' = .nestingTooDeep :=
        Cause.text_inj hc' (by decide) (heq.symm.trans htext)
      exact hnesting.1 hcause (hk rfl)

end Production

end Parser

end RobotControl
