import Mathlib.Tactic
import RobotControl.Proofs.Lookahead

/-!
# Completions

Wherever a production stops, what it has used up can be completed to a phrase of its kind, and the
cause that it gives is borne out by the completion: a delimiter that it misses is the next token
there.

* `Cause.BorneOut`: what a cause says about a completion.  The causes for which a production fails
  only on tokens that no other production hands to it are never borne out;
* `Parser.Unclosed`: the one place where the cause misleads.  At the end of the input, directly
  after an opening brace, the closing one is said to be missing, although a block cannot be empty;
* `Parser.Stops`: wherever a production stops, what it has used up can be completed.  The lemmas
  build a completion for every place in every production.
-/

namespace RobotControl

/-- The delimiters. -/
def Token.delimiters : List Token := [.semicolon, .lparen, .rparen, .lbrace, .rbrace, .comma]

/-- The tokens `vs` come next in a completion, and the cause is right about them: a missing token is
a delimiter, and the first of them. -/
def Cause.BorneOut (vs : List Token) : Cause → Prop
  | .missing t => t ∈ Token.delimiters ∧ vs.head? = some t
  | .emptyBlock | .noAction | .noComparison | .noSensor | .literalTooLarge => True
  | .noStatements | .noOperator | .noNumber | .nestingTooDeep => False

theorem Cause.BorneOut.append {c : Cause} {vs : List Token} (h : c.BorneOut vs) (ws : List Token) :
    c.BorneOut (vs ++ ws) := by
  cases c with
  | missing t => exact ⟨h.1, by rw [List.head?_append, h.2, Option.some_or]⟩
  | _ => exact h

namespace Parser

variable {α β : Type}

/-- The input ends directly after an opening brace, and the closing one is reported missing. -/
def Unclosed (c : Cause) (us : List Token) (rest : List Lexeme) : Prop :=
  c = .missing .rbrace ∧ rest = [] ∧ us.getLast? = some .lbrace

theorem Unclosed.append {c : Cause} {vs : List Token} {rest : List Lexeme} (h : Unclosed c vs rest)
    (us : List Token) : Unclosed c (us ++ vs) rest :=
  ⟨h.1, h.2.1, by rw [List.getLast?_append, h.2.2, Option.some_or]⟩

/-- Wherever `p` stops in `ts`, what it has used up can be completed to a member of `L`, and the
completion bears the cause out, if the block that was begun last is not empty. -/
def Stops (p : Parser α) (ts : List Lexeme) (L : List Token → Prop) : Prop :=
  ∀ ⦃e rest⦄, p ts = .error e rest → ∃ c us vs, e = .before c rest ∧ Spans ts us rest ∧
    L (us ++ vs) ∧ (c.BorneOut vs ∨ Unclosed c us rest)

namespace Stops

variable {p : Parser α} {φ : α → Phrase} {f : α → Parser β} {ts : List Lexeme}
  {L M : List Token → Prop}

theorem pure (a : α) : Stops (pure a) ts L := by
  intro e rest h
  cases h

theorem fail {c : Cause} {vs : List Token} (h : L vs) (hc : c.BorneOut vs) :
    Stops (fail c : Parser α) ts L := by
  intro e rest hfail
  cases hfail
  exact ⟨c, [], vs, rfl, rfl, h, .inl hc⟩

theorem skip : Stops skip ts L := by
  intro e rest h
  cases h

theorem mono (hp : Stops p ts M) (hL : ∀ us, M us → ∃ vs, L (us ++ vs)) : Stops p ts L := by
  intro e rest h
  obtain ⟨c, us, vs, he, hs, hM, hc⟩ := hp h
  obtain ⟨ws, hws⟩ := hL _ hM
  exact ⟨c, us, vs ++ ws, he, hs, by rwa [← List.append_assoc], hc.imp_left fun hc => hc.append ws⟩

theorem bind (hp : Stops p ts L)
    (hf : ∀ a rest, p ts = .ok a rest →
      ∃ us, Spans ts us rest ∧ Stops (f a) rest fun vs => L (us ++ vs)) :
    Stops (p >>= f) ts L := by
  intro e rest h
  rcases bind_eq_error_iff.1 h with herr | ⟨a, ts₁, hok, herr⟩
  · exact hp herr
  · obtain ⟨us, hs, hstops⟩ := hf a ts₁ hok
    obtain ⟨c, vs, ws, he, hs₁, hL, hc⟩ := hstops herr
    exact ⟨c, us ++ vs, ws, he, hs.append hs₁, by rwa [List.append_assoc],
      hc.imp_right fun hc => hc.append us⟩

theorem map {g : α → β} (hp : Stops p ts L) : Stops (p >>= fun a => Pure.pure (g a)) ts L := by
  intro e rest h
  rcases bind_eq_error_iff.1 h with herr | ⟨a, ts₁, -, hok⟩
  · exact hp herr
  · cases hok

theorem peek_bind {f : Option Token → Parser β} (h : Stops (f (nextToken ts)) ts L) :
    Stops (peek >>= f) ts L := h

theorem peekWord_bind {f : Option String → Parser β} (h : Stops (f (nextWord ts)) ts L) :
    Stops (peekWord >>= f) ts L := by
  intro e rest herr
  rw [Parser.peekWord_bind] at herr
  exact h herr

/-- A production that uses up the next token. -/
theorem token_bind {l : Lexeme} {t : Token} {a : α} (hp : p (l :: ts) = .ok a ts) (hl : l.token = t)
    (h : Stops (f a) ts fun vs => L (t :: vs)) : Stops (p >>= f) (l :: ts) L := by
  intro e rest herr
  rw [bind_of_ok hp] at herr
  obtain ⟨c, us, vs, he, hs, hL, hc⟩ := h herr
  exact ⟨c, t :: us, vs, he, .cons hl hs, hL, hc.imp_right fun hc => hc.append [t]⟩

/-- A delimiter that has to come next. -/
theorem expect {t : Token} {vs : List Token} (ht : t ∈ Token.delimiters) (h : L (t :: vs)) :
    Stops (expect t) ts L := by
  refine peek_bind ?_
  split_ifs
  · exact skip
  · exact fail h ⟨ht, rfl⟩

theorem expect_bind {f : Unit → Parser β} {t : Token} {vs : List Token} (ht : t ∈ Token.delimiters)
    (h : L (t :: vs))
    (hf : ∀ ts₁, ts₁.length < ts.length → Stops (f ()) ts₁ fun vs => L (t :: vs)) :
    Stops (Parser.expect t >>= f) ts L := by
  refine bind (expect ht h) fun u rest hok => ?_
  obtain ⟨l, rfl, hl⟩ := expect_eq_ok_iff.1 hok
  exact ⟨[t], .single hl, hf rest (Nat.lt_succ_self _)⟩

end Stops

/-- The tokens `us` spell a phrase of the kind `φ`. -/
def Spells (φ : α → Phrase) (us : List Token) : Prop := ∃ a, Derives us (φ a)

/-- Wherever `p` stops in at most `k` tokens, what it has used up can be completed to a phrase of
the kind `φ`. -/
def Completes (k : Nat) (p : Parser α) (φ : α → Phrase) : Prop :=
  ∀ ts, ts.length ≤ k → Stops p ts (Spells φ)

section Combinators

variable {k : Nat} {p : Parser α} {φ : α → Phrase} {f : α → Parser β} {ts : List Lexeme}
  {L : List Token → Prop}

/-- A phrase that has to come next, and can be completed by what follows it. -/
theorem Stops.phrase_bind (hp : Completes k p φ) (hsound : Sound p φ) (hts : ts.length ≤ k)
    (hL : ∀ us a, Derives us (φ a) → ∃ vs, L (us ++ vs))
    (hf : ∀ us a rest, rest.length ≤ k → Derives us (φ a) →
      Stops (f a) rest fun vs => L (us ++ vs)) :
    Stops (p >>= f) ts L := by
  refine ((hp ts hts).mono fun us ⟨a, hd⟩ => hL us a hd).bind fun a rest hok => ?_
  have hlt := hsound.length_lt hok
  obtain ⟨us, hs, hd⟩ := hsound hok
  exact ⟨us, hs, hf us a rest (by omega) hd⟩

theorem parens_bind : (parens p >>= f) = (do
    expect .lparen
    let a ← p
    expect .rparen
    f a) := by
  simp only [parens, bind_assoc, pure_bind]

theorem pair_bind {f : α × α → Parser β} : (pair p >>= f) = (do
    expect .lparen
    let a ← p
    expect .comma
    let b ← p
    expect .rparen
    f (a, b)) := by
  simp only [pair, bind_assoc, pure_bind]

/-- A phrase in parentheses. -/
theorem Stops.parens_bind (hp : Completes k p φ) (hsound : Sound p φ) (hts : ts.length ≤ k)
    {us : List Token} {a : α} (hd : Derives us (φ a))
    (hL : ∀ us a, Derives us (φ a) → ∃ vs, L (.lparen :: (us ++ .rparen :: vs)))
    (hf : ∀ us a rest, rest.length ≤ k → Derives us (φ a) →
      Stops (f a) rest fun vs => L (.lparen :: (us ++ .rparen :: vs))) :
    Stops (parens p >>= f) ts L := by
  rw [Parser.parens_bind]
  obtain ⟨vs, hvs⟩ := hL us a hd
  refine .expect_bind (by decide) hvs fun ts₁ h₁ => ?_
  refine .phrase_bind hp hsound (by omega) (fun us a hd => ?_) fun us a ts₂ h₂ hd => ?_
  · obtain ⟨vs, hvs⟩ := hL us a hd
    exact ⟨_, hvs⟩
  · obtain ⟨vs, hvs⟩ := hL us a hd
    exact .expect_bind (by decide) hvs fun ts₃ h₃ => hf us a ts₃ (by omega) hd

/-- Two phrases in parentheses, and nothing else to read. -/
theorem Stops.pair_map {g : α × α → β} (hp : Completes k p φ) (hsound : Sound p φ)
    (hts : ts.length ≤ k) {us : List Token} {a : α} (hd : Derives us (φ a))
    (hL : ∀ us vs a b, Derives us (φ a) → Derives vs (φ b) →
      L (.lparen :: (us ++ .comma :: (vs ++ [.rparen])))) :
    Stops (pair p >>= fun ab => Pure.pure (g ab)) ts L := by
  rw [Parser.pair_bind]
  refine .expect_bind (by decide) (hL us us a a hd hd) fun ts₁ h₁ => ?_
  refine .phrase_bind hp hsound (by omega) (fun xs b hb => ⟨_, hL xs us b a hb hd⟩)
    fun xs b ts₂ h₂ hb => ?_
  refine .expect_bind (by decide) (hL xs us b a hb hd) fun ts₃ h₃ => ?_
  refine .phrase_bind hp hsound (by omega) (fun ys c hc => ⟨_, hL xs ys b c hb hc⟩)
    fun ys c ts₄ _ hc => ?_
  exact .expect_bind (by decide) (hL xs ys b c hb hc) fun ts₅ _ => .pure _

end Combinators

/-! ### Phrases inside a statement -/

theorem keyword_stops [Keyword α] {c : Cause} {ts : List Lexeme} {L : List Token → Prop}
    {vs : List Token} (h : L vs) (hc : c.BorneOut vs) : Stops (keyword c : Parser α) ts L := by
  refine .peekWord_bind ?_
  split
  · exact Stops.skip.map
  · exact .fail h hc

/-- A number, of which the next word has the shape. -/
theorem number_stops {ts : List Lexeme} {L : List Token → Prop} {vs : List Token}
    (hshaped : (nextWord ts).any Literal.isShaped = true) (h : L vs) : Stops number ts L := by
  obtain ⟨w, hw, hshaped⟩ := (Option.any_eq_true _ _).1 hshaped
  refine .peekWord_bind ?_
  rw [hw]
  dsimp only
  split
  · exact Stops.skip.map
  · rw [if_pos hshaped]
    exact .fail h trivial

theorem derives_fuelLeft : Derives [.word "fuelLeft"] (.expr (.sensor .fuelLeft)) :=
  .sensor .fuelLeft

theorem expression_completes (k n : Nat) : Completes k (expressionWithin n) .expr := by
  induction n with
  | zero => exact fun ts _ => .fail ⟨_, derives_fuelLeft⟩ trivial
  | succ n ih =>
    intro ts hts
    rw [expressionWithin]
    refine .peekWord_bind ?_
    split_ifs with hshaped
    · exact (number_stops hshaped ⟨_, derives_fuelLeft⟩).map
    · split
      next op hop =>
        obtain ⟨w, hw, hwop⟩ := Option.bind_eq_some_iff.1 hop
        obtain ⟨l, ts₁, rfl, hl⟩ := nextWord_eq_some_iff.1 hw
        have hread : operator (l :: ts₁) = .ok op ts₁ := keyword_eq_ok_iff.2 ⟨l, w, rfl, hl, hwop⟩
        obtain rfl := Keyword.word_of_ofWord? hwop
        refine .token_bind hread hl
          (.pair_map ih (expression_sound n) (Nat.le_of_succ_le hts) derives_fuelLeft ?_)
        exact fun us vs a b ha hb => ⟨_, .binary op ha hb⟩
      next => exact (keyword_stops (c := .noSensor) ⟨_, derives_fuelLeft⟩ trivial).map

theorem exists_derives_cond : ∃ us c, Derives us (.cond c) :=
  ⟨_, _, .compare .eq derives_fuelLeft derives_fuelLeft⟩

theorem condition_completes (k n : Nat) : Completes k (conditionWithin n) .cond := by
  obtain ⟨us, c, hc⟩ := exists_derives_cond
  induction n with
  | zero => exact fun ts _ => .fail ⟨c, hc⟩ trivial
  | succ n ih =>
    intro ts hts
    rw [conditionWithin, conditionOf_eq]
    refine .peekWord_bind ?_
    split_ifs with hand hor hnot
    · obtain ⟨l, ts₁, rfl, hl⟩ := nextWord_eq_some_iff.1 hand
      refine .token_bind rfl hl (.pair_map ih (condition_sound n) (Nat.le_of_succ_le hts) hc ?_)
      exact fun us vs a b ha hb => ⟨_, .conj ha hb⟩
    · obtain ⟨l, ts₁, rfl, hl⟩ := nextWord_eq_some_iff.1 hor
      refine .token_bind rfl hl (.pair_map ih (condition_sound n) (Nat.le_of_succ_le hts) hc ?_)
      exact fun us vs a b ha hb => ⟨_, .disj ha hb⟩
    · obtain ⟨l, ts₁, rfl, hl⟩ := nextWord_eq_some_iff.1 hnot
      refine .token_bind (expect_cons hl) hl (.parens_bind ih (condition_sound n)
        (Nat.le_of_succ_le hts) hc ?_ fun us a rest _ ha => .pure _)
      exact fun us a ha => ⟨[], _, .neg ha⟩
    · refine (keyword_stops (c := .noComparison) ⟨c, hc⟩ trivial).bind fun op rest hop => ?_
      obtain ⟨l, w, rfl, hl, hw⟩ := keyword_eq_ok_iff.1 hop
      obtain rfl := Keyword.word_of_ofWord? hw
      refine ⟨_, .single hl, .pair_map (expression_completes k n) (expression_sound n)
        (Nat.le_of_succ_le hts) derives_fuelLeft ?_⟩
      exact fun us vs a b ha hb => ⟨_, .compare op ha hb⟩

/-- The operand of a command, when the command with an operand would be an action. -/
theorem operand_stops {n : Nat} {ts : List Lexeme} {L : List Token → Prop}
    (hL : ∀ us e, Derives us (.expr e) → L (.lparen :: (us ++ [.rparen]))) :
    Stops (operandOf (expressionWithin n)) ts L := by
  refine .peek_bind ?_
  split_ifs
  · refine .parens_bind (expression_completes _ n) (expression_sound n) le_rfl derives_fuelLeft
      ?_ ?_
    · exact fun us e he => ⟨[], hL us e he⟩
    · exact fun us e rest _ he => .pure _
  · exact .pure none

/-- A command that may have an operand. -/
theorem command_stops {n : Nat} {ts : List Lexeme} {g : Option Expr → Action} {x : Option Expr}
    (hg : ((nextWord ts).bind fun w => Command.ofWord? w none) = some (g x))
    (hword : ∀ e, (g x).word = (g (some e)).word) (hoperand : ∀ e, (g (some e)).operand? = some e) :
    Stops (skip >>= fun _ => operandOf (expressionWithin n) >>= fun x => pure (g x)) ts
      (Spells .action) := by
  obtain ⟨w, hw, hwg⟩ := Option.bind_eq_some_iff.1 hg
  obtain ⟨l, ts₁, rfl, hl⟩ := nextWord_eq_some_iff.1 hw
  obtain rfl := word_eq_of_ofWord? hwg
  refine .token_bind rfl hl (Stops.map (operand_stops fun us e he => ?_))
  rw [hword e, Action.word_eq_terminal]
  exact ⟨g (some e), .applied (hoperand e) he⟩

theorem derives_turnL : Derives [.word "turnL"] (.action .turnLeft) := .bare (a := .turnLeft) rfl

theorem action_completes (k n : Nat) : Completes k (actionWithin n) .action := by
  intro ts _
  refine .peekWord_bind ?_
  split
  next => exact .fail ⟨_, derives_turnL⟩ trivial
  next x hx => exact command_stops (g := .move) hx (fun _ => rfl) fun _ => rfl
  next x hx => exact command_stops (g := .wait) hx (fun _ => rfl) fun _ => rfl
  next => exact Stops.skip.map

/-! ### Blocks and statements -/

theorem derives_turnL_semicolon :
    Derives [.word "turnL", .semicolon] (.statement (.action .turnLeft)) := .act derives_turnL

theorem derives_braced_turnL :
    Derives [.lbrace, .word "turnL", .semicolon, .rbrace] (.block (.single (.action .turnLeft))) :=
  .block (.single derives_turnL_semicolon)

/-- In front of nothing, the closing brace of a block is missing. -/
theorem statementsWithin_nil (item : Parser Statement) (n : Nat) :
    statementsWithin item n [] = .error (.before (.missing .rbrace) []) [] := by
  cases n <;> rfl

theorem insideOf_nil (item : Parser Statement) (n : Nat) :
    insideOf (statementsWithin item n) [] = .error (.before (.missing .rbrace) []) [] := by
  unfold insideOf
  rw [peek_bind, if_neg (by simp)]
  exact bind_of_error (statementsWithin_nil item n)

/-- What begins with a brace, in a context where a block may stand.  Directly after the brace the
input may end. -/
theorem Stops.lbrace_bind {f : Unit → Parser Block} {ts : List Lexeme} {L : List Token → Prop}
    (hL : ∀ us b, Derives us (.block b) → L us)
    (hend : f () [] = .error (.before (.missing .rbrace) []) [])
    (hf : ∀ ts₁, ts₁ ≠ [] → ts₁.length < ts.length → Stops (f ()) ts₁ fun vs => L (.lbrace :: vs)) :
    Stops (Parser.expect .lbrace >>= f) ts L := by
  intro e rest h
  rcases bind_eq_error_iff.1 h with herr | ⟨u, ts₁, hok, herr⟩
  · exact Stops.expect (by decide) (hL _ _ derives_braced_turnL) herr
  · obtain ⟨l, rfl, hl⟩ := expect_eq_ok_iff.1 hok
    by_cases hnil : ts₁ = []
    · subst hnil
      rw [hend] at herr
      cases herr
      exact ⟨_, [.lbrace], _, rfl, .single hl, hL _ _ derives_braced_turnL, .inr ⟨rfl, rfl, rfl⟩⟩
    · exact token_bind (expect_cons hl) hl (hf ts₁ hnil (Nat.lt_succ_self _)) h

section Blocks

variable {item : Parser Statement} {n : Nat} (hitem : Completes n item .statement)
  (hsound : Sound item .statement)

include hitem hsound

/-- The statements of a block, in a context where a closing brace may follow them. -/
theorem statements_stops {k : Nat} {ts : List Lexeme} {L : List Token → Prop} (hts : ts ≠ [])
    (hk : ts.length ≤ k) (hn : ts.length ≤ n)
    (hL : ∀ us b, Derives us (.sequence b) → L (us ++ [.rbrace])) :
    Stops (statementsWithin item k) ts L := by
  induction k generalizing ts L with
  | zero => exact absurd (List.eq_nil_of_length_eq_zero (Nat.le_zero.1 hk)) hts
  | succ k ih =>
    rw [statementsWithin, statementsOf]
    refine .peek_bind ?_
    rw [if_neg fun hend => hts (nextToken_eq_none_iff.1 hend)]
    refine ((hitem ts hn).mono ?_).bind fun st ts₁ hok => ?_
    · rintro us ⟨st, hst⟩
      exact ⟨_, hL us _ (.single hst)⟩
    · have hshort := hsound.length_lt hok
      obtain ⟨us, hs, hst⟩ := hsound hok
      refine ⟨us, hs, .peek_bind ?_⟩
      split_ifs
      · exact .pure _
      · by_cases hend : ts₁ = []
        · subst hend
          refine Stops.map fun e rest h => ?_
          rw [statementsWithin_nil] at h
          cases h
          exact ⟨_, [], [.rbrace], rfl, rfl, hL us _ (.single hst), .inl ⟨by decide, rfl⟩⟩
        · refine Stops.map (ih hend (by omega) (by omega) fun vs b hb => ?_)
          rw [← List.append_assoc]
          exact hL _ _ (.cons hst hb)

/-- What stands in a block after its first brace, in a context where the block may stand. -/
theorem inside_stops {ts : List Lexeme} {L : List Token → Prop} (hts : ts ≠ []) (hn : ts.length ≤ n)
    (hL : ∀ us b, Derives us (.sequence b) → L (us ++ [.rbrace])) :
    Stops (insideOf (statementsWithin item n)) ts L := by
  refine .peek_bind ?_
  split_ifs
  · exact .fail (hL _ _ (.single derives_turnL_semicolon)) trivial
  · refine (statements_stops hitem hsound hts hn hn hL).bind fun b rest hok => ?_
    obtain ⟨us, hs, hb⟩ := statements_sound hsound n hok
    exact ⟨us, hs, .expect_bind (by decide) (hL us b hb) fun _ _ => .pure _⟩

theorem block_completes : Completes n (blockOf (statementsWithin item n)) .block := by
  intro ts hn
  refine .lbrace_bind (fun us b hb => ⟨b, hb⟩) (insideOf_nil item n) fun ts₁ hne hlt => ?_
  exact inside_stops hitem hsound hne (by omega) fun us b hb => ⟨b, .block hb⟩

/-- The block after `else`, in a context where a block may stand in one pair of braces or in two. -/
theorem else_stops {ts : List Lexeme} {L : List Token → Prop} (hn : ts.length ≤ n)
    (hL : ∀ us b, Derives us (.block b) → L us ∧ L (.lbrace :: (us ++ [.rbrace]))) :
    Stops (elseBlockOf (statementsWithin item n)) ts L := by
  rw [elseBlockOf_eq]
  refine .lbrace_bind (fun us b hb => (hL us b hb).1) (insideOf_nil item n) fun ts₁ hne hlt => ?_
  refine .peek_bind ?_
  split_ifs
  · refine .phrase_bind (block_completes hitem hsound) (block_sound (statements_sound hsound n))
      (by omega) ?_ ?_
    · exact fun us b hb => ⟨_, (hL us b hb).2⟩
    · exact fun us b rest _ hb => .expect_bind (by decide) (hL us b hb).2 fun _ _ => .pure _
  · exact inside_stops hitem hsound hne (by omega) fun us b hb => (hL _ b (.block hb)).1

variable {ts : List Lexeme}

theorem loop_stops (hword : nextWord ts = some "loop") (hts : ts.length ≤ n + 1) :
    Stops (loopOf (statementsWithin item n)) ts (Spells .statement) := by
  obtain ⟨l, ts₁, rfl, hl⟩ := nextWord_eq_some_iff.1 hword
  refine .token_bind (expect_cons hl) hl ?_
  refine .phrase_bind (block_completes hitem hsound) (block_sound (statements_sound hsound n))
    (Nat.le_of_succ_le_succ hts) ?_ fun us b rest _ hb => .pure _
  exact fun us b hb => ⟨[], _, by simpa using Derives.loop hb⟩

theorem while_stops (hword : nextWord ts = some "while") (hts : ts.length ≤ n + 1) :
    Stops (whileOf (conditionWithin n) (statementsWithin item n)) ts (Spells .statement) := by
  obtain ⟨us, c, hc⟩ := exists_derives_cond
  obtain ⟨l, ts₁, rfl, hl⟩ := nextWord_eq_some_iff.1 hword
  refine .token_bind (expect_cons hl) hl ?_
  refine .parens_bind (condition_completes n n) (condition_sound n) (Nat.le_of_succ_le_succ hts) hc
    ?_ fun us c ts₂ h₂ hc => ?_
  · exact fun us c hc => ⟨_, _, .whileLoop hc derives_braced_turnL⟩
  · refine .phrase_bind (block_completes hitem hsound) (block_sound (statements_sound hsound n)) h₂
      ?_ fun vs b rest _ hb => .pure _
    exact fun vs b hb => ⟨[], _, by simpa using Derives.whileLoop hc hb⟩

theorem if_stops (hword : nextWord ts = some "if") (hts : ts.length ≤ n + 1) :
    Stops (ifOf (conditionWithin n) (statementsWithin item n)) ts (Spells .statement) := by
  obtain ⟨us, c, hc⟩ := exists_derives_cond
  obtain ⟨l, ts₁, rfl, hl⟩ := nextWord_eq_some_iff.1 hword
  refine .token_bind (expect_cons hl) hl ?_
  refine .parens_bind (condition_completes n n) (condition_sound n) (Nat.le_of_succ_le_succ hts) hc
    ?_ fun us c ts₂ h₂ hc => ?_
  · exact fun us c hc => ⟨_, _, .ifThen hc derives_braced_turnL⟩
  refine .phrase_bind (block_completes hitem hsound) (block_sound (statements_sound hsound n)) h₂ ?_
    fun vs b ts₃ h₃ hb => ?_
  · exact fun vs b hb => ⟨[], _, by simpa using Derives.ifThen hc hb⟩
  refine .peek_bind ?_
  split_ifs with helse
  · obtain ⟨l, ts₄, rfl, hl⟩ := nextToken_eq_some_iff.1 helse
    refine .token_bind rfl hl (Stops.map
      (else_stops hitem hsound (Nat.le_of_succ_le h₃) fun ws b' hb' => ⟨?_, ?_⟩))
    · exact ⟨_, .ifElse hc hb hb'⟩
    · exact ⟨_, .ifElseBraced hc hb hb'⟩
  · exact .pure _

/-- Statements up to the end, of which there has to be one. -/
theorem sequence_stops {k : Nat} (hts : ts ≠ []) (hk : ts.length ≤ k) (hn : ts.length ≤ n) :
    Stops (sequenceWithin item k) ts (Spells .sequence) := by
  induction k generalizing ts with
  | zero => exact absurd (List.eq_nil_of_length_eq_zero (Nat.le_zero.1 hk)) hts
  | succ k ih =>
    rw [sequenceWithin, sequenceOf]
    refine ((hitem ts hn).mono ?_).bind fun st ts₁ hok => ?_
    · rintro us ⟨st, hst⟩
      exact ⟨[], _, by simpa using Derives.single hst⟩
    · have hshort := hsound.length_lt hok
      obtain ⟨us, hs, hst⟩ := hsound hok
      refine ⟨us, hs, .peek_bind ?_⟩
      split_ifs with hend
      · exact .pure _
      · have hne : ts₁ ≠ [] := fun hnil => hend (nextToken_eq_none_iff.2 hnil)
        refine ((ih hne (by omega) (by omega)).mono ?_).map
        rintro vs ⟨b, hb⟩
        exact ⟨[], _, by simpa using Derives.cons hst hb⟩

end Blocks

theorem statement_completes (n : Nat) : Completes n (statementWithin n) .statement := by
  induction n with
  | zero => exact fun ts _ => .fail ⟨_, derives_turnL_semicolon⟩ trivial
  | succ n ih =>
    intro ts hts
    rw [statementWithin, statementOf_eq]
    refine .peekWord_bind ?_
    split_ifs with hloop hif hwhile
    · exact loop_stops ih (statement_sound n) hloop hts
    · exact if_stops ih (statement_sound n) hif hts
    · exact while_stops ih (statement_sound n) hwhile hts
    · refine .phrase_bind (action_completes _ n) (action_sound n) hts ?_ fun us a rest _ ha => ?_
      · exact fun us a ha => ⟨_, _, .act ha⟩
      · exact .expect_bind (by decide) ⟨_, .act ha⟩ fun _ _ => .pure _

end Parser

end RobotControl
