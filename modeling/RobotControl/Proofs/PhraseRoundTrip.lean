import Mathlib.Tactic
import RobotControl.Proofs.Lookahead
import RobotControl.Proofs.RoundTrip

/-!
# Printed phrases in front of other tokens

Every production gives a printed phrase back and leaves the tokens after it as they are, however
deeply the phrase is nested.  Only two phrases could go on with the token that follows: a command
without the operand that it may have, and a conditional without `else`.

* `Parser.action_reads_iff`, `Parser.statement_reads_iff`: tokens that spell an action or a
  statement are read as that one exactly when the next token does not go on with it.  This holds for
  every spelling, also for those that are never printed.
-/

namespace RobotControl

/-- The tokens of a text in front of any others. -/
theorem Spans.of_tokenize (s : String) (rest : List Lexeme) :
    Spans (tokenize s ++ rest) (textTokens s) rest :=
  Spans.iff_exists_append.2 ⟨tokenize s, rfl, rfl⟩

theorem Spans.length_le {ts rest : List Lexeme} {us : List Token} (h : Spans ts us rest) :
    us.length ≤ ts.length := by
  rw [h.length_eq]
  exact Nat.le_add_right _ _

theorem Statement.derives_render (depth : Nat) (st : Statement) :
    Derives (textTokens (st.render depth)) (.statement st) := by
  rw [(st.readsAs_render depth).textTokens_eq]
  exact st.derives_tokens

theorem Block.derives_render (depth : Nat) (b : Block) :
    Derives (textTokens (b.render depth)) (.block b) := by
  rw [Block.render, ((b.readsAs_lines (depth + 1)).braces depth).textTokens_eq]
  exact .block b.derives_tokens

namespace Parser

variable {n : Nat} {ts rest : List Lexeme} {us : List Token}

/-! ### Actions -/

/-- A command is returned without its operand only where no operand follows. -/
theorem nextToken_of_bare_action {a : Action} (h : actionWithin n ts = .ok a rest)
    (ha : a = .move none ∨ a = .wait none) : nextToken rest ≠ some .lparen := by
  obtain ⟨l, ts₁, rfl, -, ⟨-, rfl, hnext⟩ | ⟨e, he, -⟩⟩ := actionOf_eq_ok_iff.1 h
  · exact hnext ha
  · rcases ha with rfl | rfl <;> cases he

theorem action_reads_iff {a : Action} (hd : Derives us (.action a)) (hn : us.length ≤ n)
    (hs : Spans ts us rest) :
    actionWithin n ts = .ok a rest ↔
      (a = .move none ∨ a = .wait none → nextToken rest ≠ some .lparen) := by
  refine ⟨nextToken_of_bare_action, fun hnext => ?_⟩
  cases hd with
  | bare ha => exact reads_bare ha hs hnext
  | applied ha he => exact takes_applied ha (parsed_of_derives he) hn hs

/-! ### Statements -/

/-- A conditional is returned without `else` only where no `else` follows. -/
theorem nextToken_of_ifThen {c : Cond} {b : Block}
    (h : statementWithin n ts = .ok (.ifThen c b) rest) :
    nextToken rest ≠ some (.word "else") := by
  cases n with
  | zero => exact absurd h fail_ne_ok
  | succ n =>
    rcases statementOf_eq_ok_iff.1 h with h | h | h | ⟨a, l, hst, -⟩
    · obtain ⟨_, _, _, _, _, hst, _⟩ := loopOf_eq_ok_iff.1 h
      cases hst
    · obtain ⟨_, _, _, _, _, _, _, _, _, _, hend⟩ := ifOf_eq_ok_iff.1 h
      rcases hend with ⟨hnext, -, rfl⟩ | ⟨_, _, _, _, _, hst, _⟩
      · exact hnext
      · cases hst
    · obtain ⟨_, _, _, _, _, _, _, hst, _⟩ := whileOf_eq_ok_iff.1 h
      cases hst
    · cases hst

/-- Every other statement ends with a semicolon or a brace after which it takes nothing. -/
theorem statement_takes {st : Statement} (hd : Derives us (.statement st))
    (hst : ¬ ∃ c b, st = .ifThen c b) (hn : us.length ≤ n) : Takes (statementWithin n) us st := by
  cases hd with
  | act ha => exact takes_act (parsed_of_derives ha) hn
  | loop hb => exact takes_loop (parsed_of_derives hb) hn
  | ifThen => exact absurd ⟨_, _, rfl⟩ hst
  | ifElse hc hb hb' =>
    refine takes_ifElse (parsed_of_derives hc) (parsed_of_derives hb) (fun n hn => ?_) hn
    exact else_takes_block hb' (parsed_of_derives hb') hn
  | ifElseBraced hc hb hb' =>
    refine takes_ifElse (parsed_of_derives hc) (parsed_of_derives hb) (fun n hn => ?_) hn
    exact else_takes_braced (parsed_of_derives hb') hn
  | whileLoop hc hb => exact takes_whileLoop (parsed_of_derives hc) (parsed_of_derives hb) hn

theorem statement_reads_iff {st : Statement} (hd : Derives us (.statement st)) (hn : us.length ≤ n)
    (hs : Spans ts us rest) :
    statementWithin n ts = .ok st rest ↔
      ((∃ c b, st = .ifThen c b) → nextToken rest ≠ some (.word "else")) := by
  constructor
  · rintro h ⟨c, b, rfl⟩
    exact nextToken_of_ifThen h
  · intro hnext
    by_cases hst : ∃ c b, st = .ifThen c b
    · exact parsed_of_derives hd n hn ts rest (hnext hst) hs
    · exact statement_takes hd hst hn hs

/-! ### The productions by themselves -/

/-- **Every production reads back what is printed, and leaves the rest untouched.**

Expressions, conditions and blocks are read back whatever tokens follow.  An action is read back
unless it is `move` or `wait` without an operand in front of a parenthesis, and a statement unless
it is a conditional without `else` in front of one.  Nothing is asked of the depth of a phrase, nor
of the depth at which it is printed. -/
theorem read_printed (rest : List Lexeme) :
    (∀ e : Expr, expression (tokenize e.render ++ rest) = .ok e rest) ∧
      (∀ c : Cond, condition (tokenize c.render ++ rest) = .ok c rest) ∧
      (∀ a : Action, action (tokenize (Action.render a) ++ rest) = .ok a rest ↔
        (a = .move none ∨ a = .wait none → nextToken rest ≠ some .lparen)) ∧
      (∀ (b : Block) (depth : Nat), block (tokenize (b.render depth) ++ rest) = .ok b rest) ∧
      ∀ (st : Statement) (depth : Nat),
        statement (tokenize (st.render depth) ++ rest) = .ok st rest ↔
          ((∃ c b, st = .ifThen c b) → nextToken rest ≠ some (.word "else")) := by
  refine ⟨fun e => ?_, fun c => ?_, fun a => ?_, fun b depth => ?_, fun st depth => ?_⟩
  · have hs := Spans.of_tokenize e.render rest
    rw [expression, remaining_bind]
    exact parsed_of_derives e.derives_render _ hs.length_le hs
  · have hs := Spans.of_tokenize c.render rest
    rw [condition, remaining_bind]
    exact parsed_of_derives c.derives_render _ hs.length_le hs
  · have hs := Spans.of_tokenize (Action.render a) rest
    rw [action, remaining_bind]
    exact action_reads_iff (Action.derives_render a) hs.length_le hs
  · have hs := Spans.of_tokenize (b.render depth) rest
    rw [block, remaining_bind]
    exact parsed_of_derives (b.derives_render depth) _ hs.length_le hs
  · have hs := Spans.of_tokenize (st.render depth) rest
    rw [statement, remaining_bind]
    exact statement_reads_iff (st.derives_render depth) hs.length_le hs

end Parser

end RobotControl
