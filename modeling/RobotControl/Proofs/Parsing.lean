import Mathlib.Tactic
import RobotControl.Proofs.Grammar
import RobotControl.Proofs.Productions

/-!
# The parser against the grammar

The parser accepts the token lists that the grammar derives, as far as they are not nested too
deeply, and returns the tree that they spell.

* `Spans`: some tokens in front of the lexemes that are left;
* soundness: what a production uses up derives what it returns, by induction on the tokens left;
* completeness: `Parser.Parsed`, by induction on the derivation.  Here the token after the phrase
  counts: an operand or an `else` that follows would be read too.
-/

namespace RobotControl

/-! ### Numerals -/

theorem Literal.isDigits_iff {ds : List Char} :
    Literal.isDigits ds = true ↔ ds ≠ [] ∧ ∀ c ∈ ds, c.isDigit := by
  cases ds <;> simp [Literal.isDigits]

theorem Literal.read?_negative {ds : List Char} {v : Int64} :
    Literal.read? (String.ofList ('-' :: ds)) = some v ↔
      Literal.isDigits ds = true ∧ v.toInt = -Nat.ofDigitChars 10 ds 0 := by
  simp [Literal.read?, Literal.isShaped, Literal.value, fit?_eq_some_iff]

theorem Literal.read?_unsigned {ds : List Char} {v : Int64} (h : ∀ ds', ds ≠ '-' :: ds') :
    Literal.read? (String.ofList ds) = some v ↔
      Literal.isDigits ds = true ∧ v.toInt = Nat.ofDigitChars 10 ds 0 := by
  have hshaped : Literal.isShaped (String.ofList ds) = Literal.isDigits ds := by
    rw [Literal.isShaped, String.toList_ofList]
    split
    · exact absurd rfl (h _)
    · rfl
  have hvalue : Literal.value (String.ofList ds) = Nat.ofDigitChars 10 ds 0 := by
    rw [Literal.value, String.toList_ofList]
    split
    · exact absurd rfl (h _)
    · rfl
  simp [Literal.read?, hshaped, hvalue, fit?_eq_some_iff]

theorem Literal.read?_eq_some_iff {w : String} {v : Int64} :
    Literal.read? w = some v ↔ Numeral w v := by
  constructor
  · intro h
    rw [← String.ofList_toList (s := w)] at h ⊢
    by_cases hneg : ∃ ds, w.toList = '-' :: ds
    · obtain ⟨ds, hds⟩ := hneg
      rw [hds] at h ⊢
      obtain ⟨hdigits, hv⟩ := Literal.read?_negative.1 h
      obtain ⟨hne, hall⟩ := Literal.isDigits_iff.1 hdigits
      exact .negative hne hall hv
    · obtain ⟨hdigits, hv⟩ := (Literal.read?_unsigned fun ds hds => hneg ⟨ds, hds⟩).1 h
      obtain ⟨hne, hall⟩ := Literal.isDigits_iff.1 hdigits
      exact .unsigned hne hall hv
  · intro h
    cases h with
    | unsigned hne hall hv =>
      refine (Literal.read?_unsigned ?_).2 ⟨Literal.isDigits_iff.2 ⟨hne, hall⟩, hv⟩
      rintro ds rfl
      exact absurd (hall '-' (by simp)) (by decide)
    | negative hne hall hv =>
      exact Literal.read?_negative.2 ⟨Literal.isDigits_iff.2 ⟨hne, hall⟩, hv⟩

/-! ### Tokens in front of lexemes -/

/-- `Spans ts us rest`: the lexemes `ts` are the tokens `us`, on any lines, and then `rest`. -/
def Spans : List Lexeme → List Token → List Lexeme → Prop
  | ts, [], rest => ts = rest
  | ts, t :: us, rest => ∃ l ts', ts = l :: ts' ∧ l.token = t ∧ Spans ts' us rest

namespace Spans

variable {ts ts₁ rest : List Lexeme} {us vs : List Token} {t : Token} {l : Lexeme}

@[simp] theorem nil_iff : Spans ts [] rest ↔ ts = rest := Iff.rfl

theorem cons (ht : l.token = t) (h : Spans ts us rest) : Spans (l :: ts) (t :: us) rest :=
  ⟨l, ts, rfl, ht, h⟩

theorem append_iff : Spans ts (us ++ vs) rest ↔ ∃ ts₁, Spans ts us ts₁ ∧ Spans ts₁ vs rest := by
  induction us generalizing ts with
  | nil => simp
  | cons t us ih =>
    constructor
    · rintro ⟨l, ts', rfl, ht, h⟩
      obtain ⟨ts₁, h₁, h₂⟩ := ih.1 h
      exact ⟨ts₁, cons ht h₁, h₂⟩
    · rintro ⟨ts₁, ⟨l, ts', rfl, ht, h₁⟩, h₂⟩
      exact cons ht (ih.2 ⟨ts₁, h₁, h₂⟩)

theorem append (h₁ : Spans ts us ts₁) (h₂ : Spans ts₁ vs rest) : Spans ts (us ++ vs) rest :=
  append_iff.2 ⟨ts₁, h₁, h₂⟩

theorem single (ht : l.token = t) : Spans (l :: rest) [t] rest := cons ht rfl

theorem all (ts : List Lexeme) : Spans ts (ts.map Lexeme.token) [] := by
  induction ts with
  | nil => rfl
  | cons l ts ih => exact cons rfl ih

theorem eq_map (h : Spans ts us []) : us = ts.map Lexeme.token := by
  induction us generalizing ts with
  | nil => simp [nil_iff.1 h]
  | cons t us ih =>
    obtain ⟨l, ts', rfl, rfl, h⟩ := h
    rw [List.map_cons, ← ih h]

theorem nextToken (h : Spans ts (t :: us) rest) : Parser.nextToken ts = some t := by
  obtain ⟨l, ts', rfl, rfl, -⟩ := h
  rfl

end Spans

namespace Parser

variable {α : Type} {p : Parser α} {φ : α → Phrase} {n : Nat} {ts rest : List Lexeme}

/-! ### Soundness -/

/-- What `p` uses up spells the phrase of what it returns. -/
def Sound (p : Parser α) (φ : α → Phrase) : Prop :=
  ∀ ⦃ts a rest⦄, p ts = .ok a rest → ∃ us, Spans ts us rest ∧ Derives us (φ a)

theorem Sound.of_fail {c : Cause} : Sound (fail c) φ := fun _ _ _ h => absurd h fail_ne_ok

theorem Sound.parens (hp : Sound p φ) {a : α} (h : parens p ts = .ok a rest) :
    ∃ xs, Spans ts (.lparen :: (xs ++ [.rparen])) rest ∧ Derives xs (φ a) := by
  obtain ⟨l₁, ts₁, l₂, rfl, h₁, ha, h₂⟩ := parens_eq_ok_iff.1 h
  obtain ⟨xs, hxs, hd⟩ := hp ha
  exact ⟨xs, .cons h₁ (hxs.append (.single h₂)), hd⟩

theorem Sound.pair (hp : Sound p φ) {ab : α × α} (h : pair p ts = .ok ab rest) :
    ∃ xs ys, Spans ts (.lparen :: (xs ++ .comma :: (ys ++ [.rparen]))) rest ∧
      Derives xs (φ ab.1) ∧ Derives ys (φ ab.2) := by
  obtain ⟨l₁, ts₁, l₂, ts₂, l₃, rfl, h₁, ha, h₂, hb, h₃⟩ := pair_eq_ok_iff.1 h
  obtain ⟨xs, hxs, hdx⟩ := hp ha
  obtain ⟨ys, hys, hdy⟩ := hp hb
  exact ⟨xs, ys, .cons h₁ (hxs.append (.cons h₂ (hys.append (.single h₃)))), hdx, hdy⟩

theorem expression_sound (n : Nat) : Sound (expressionWithin n) .expr := by
  induction n with
  | zero => exact Sound.of_fail
  | succ n ih =>
    intro ts e rest h
    obtain ⟨l, ts₁, w, rfl, hl, h⟩ := expressionOf_eq_ok_iff.1 h
    rcases h with ⟨v, hv, rfl, rfl⟩ | ⟨op, a, b, rfl, rfl, hab⟩ | ⟨s, rfl, rfl, rfl⟩
    · exact ⟨_, .single hl, .number (Literal.read?_eq_some_iff.1 hv)⟩
    · obtain ⟨xs, ys, hs, hx, hy⟩ := ih.pair hab
      exact ⟨_, .cons hl hs, .binary op hx hy⟩
    · exact ⟨_, .single hl, .sensor s⟩

theorem condition_sound (n : Nat) : Sound (conditionWithin n) .cond := by
  induction n with
  | zero => exact Sound.of_fail
  | succ n ih =>
    intro ts c rest h
    obtain ⟨l, ts₁, w, rfl, hl, h⟩ := conditionOf_eq_ok_iff.1 h
    rcases h with ⟨a, b, rfl, rfl, hab⟩ | ⟨a, b, rfl, rfl, hab⟩ | ⟨a, rfl, rfl, ha⟩ |
      ⟨op, a, b, rfl, rfl, hab⟩
    · obtain ⟨xs, ys, hs, hx, hy⟩ := ih.pair hab
      exact ⟨_, .cons hl hs, .conj hx hy⟩
    · obtain ⟨xs, ys, hs, hx, hy⟩ := ih.pair hab
      exact ⟨_, .cons hl hs, .disj hx hy⟩
    · obtain ⟨xs, hs, hx⟩ := ih.parens ha
      exact ⟨_, .cons hl hs, .neg hx⟩
    · obtain ⟨xs, ys, hs, hx, hy⟩ := (expression_sound n).pair hab
      exact ⟨_, .cons hl hs, .compare op hx hy⟩

theorem action_sound (n : Nat) : Sound (actionWithin n) .action := by
  intro ts a rest h
  obtain ⟨l, ts₁, rfl, hl, h⟩ := actionOf_eq_ok_iff.1 h
  rw [Action.word_eq_terminal] at hl
  rcases h with ⟨ha, rfl, -⟩ | ⟨e, ha, he⟩
  · exact ⟨_, .single hl, .bare ha⟩
  · obtain ⟨xs, hs, hx⟩ := (expression_sound n).parens he
    exact ⟨_, .cons hl hs, .applied ha hx⟩

section Statements

variable {item : Parser Statement} (hitem : Sound item .statement)

include hitem

theorem statements_sound (n : Nat) : Sound (statementsWithin item n) .sequence := by
  induction n with
  | zero => exact Sound.of_fail
  | succ n ih =>
    intro ts b rest h
    obtain ⟨-, st, ts₁, hst, h⟩ := statementsOf_eq_ok_iff.1 h
    obtain ⟨xs, hxs, hx⟩ := hitem hst
    rcases h with ⟨-, rfl, rfl⟩ | ⟨-, b', rfl, hb'⟩
    · exact ⟨xs, hxs, .single hx⟩
    · obtain ⟨ys, hys, hy⟩ := ih hb'
      exact ⟨xs ++ ys, hxs.append hys, .cons hx hy⟩

theorem sequence_sound (n : Nat) {b : Block} (h : sequenceWithin item n ts = .ok b rest) :
    rest = [] ∧ ∃ us, Spans ts us [] ∧ Derives us (.sequence b) := by
  induction n generalizing ts b with
  | zero => exact absurd h fail_ne_ok
  | succ n ih =>
    obtain ⟨st, ts₁, hst, h⟩ := sequenceOf_eq_ok_iff.1 h
    obtain ⟨xs, hxs, hx⟩ := hitem hst
    rcases h with ⟨rfl, rfl, rfl⟩ | ⟨-, b', rfl, hb'⟩
    · exact ⟨rfl, xs, hxs, .single hx⟩
    · obtain ⟨hrest, ys, hys, hy⟩ := ih hb'
      exact ⟨hrest, xs ++ ys, hxs.append hys, .cons hx hy⟩

end Statements

section Blocks

variable {test : Parser Cond} {inside : Parser Block} (htest : Sound test .cond)
  (hinside : Sound inside .sequence)

include hinside

theorem block_sound : Sound (blockOf inside) .block := by
  intro ts b rest h
  obtain ⟨l₁, ts₁, l₂, rfl, h₁, -, hb, h₂⟩ := blockOf_eq_ok_iff.1 h
  obtain ⟨xs, hxs, hx⟩ := hinside hb
  exact ⟨_, .cons h₁ (hxs.append (.single h₂)), .block hx⟩

theorem loop_sound : Sound (loopOf inside) .statement := by
  intro ts st rest h
  obtain ⟨l, ts₁, b, rfl, hl, rfl, hb⟩ := loopOf_eq_ok_iff.1 h
  obtain ⟨xs, hxs, hx⟩ := block_sound hinside hb
  exact ⟨_, .cons hl hxs, .loop hx⟩

include htest

theorem while_sound : Sound (whileOf test inside) .statement := by
  intro ts st rest h
  obtain ⟨l, ts₁, c, ts₂, b, rfl, hl, rfl, hc, hb⟩ := whileOf_eq_ok_iff.1 h
  obtain ⟨xs, hxs, hx⟩ := htest.parens hc
  obtain ⟨ys, hys, hy⟩ := block_sound hinside hb
  have hs := Spans.cons hl (hxs.append hys)
  simp only [List.cons_append, List.append_assoc, List.nil_append] at hs
  exact ⟨_, hs, .whileLoop hx hy⟩

theorem if_sound : Sound (ifOf test inside) .statement := by
  intro ts st rest h
  obtain ⟨l, ts₁, c, ts₂, b, ts₃, rfl, hl, hc, hb, h⟩ := ifOf_eq_ok_iff.1 h
  obtain ⟨xs, hxs, hx⟩ := htest.parens hc
  obtain ⟨ys, hys, hy⟩ := block_sound hinside hb
  have hs := Spans.cons hl (hxs.append hys)
  simp only [List.cons_append, List.append_assoc, List.nil_append] at hs
  rcases h with ⟨-, rfl, rfl⟩ | ⟨l', ts₄, b', rfl, hl', rfl, hb'⟩
  · exact ⟨_, hs, .ifThen hx hy⟩
  · rcases elseBlockOf_eq_ok_iff.1 hb' with ⟨-, hb'⟩ | ⟨l₁, ts₅, l₂, rfl, h₁, hb', h₂⟩
    · obtain ⟨zs, hzs, hz⟩ := block_sound hinside hb'
      have hall := hs.append (.cons hl' hzs)
      simp only [List.cons_append, List.append_assoc] at hall
      exact ⟨_, hall, .ifElse hx hy hz⟩
    · obtain ⟨zs, hzs, hz⟩ := block_sound hinside hb'
      have hall := hs.append (.cons hl' (.cons h₁ (hzs.append (.single h₂))))
      simp only [List.cons_append, List.append_assoc] at hall
      exact ⟨_, hall, .ifElseBraced hx hy hz⟩

end Blocks

theorem statement_sound (n : Nat) : Sound (statementWithin n) .statement := by
  induction n with
  | zero => exact Sound.of_fail
  | succ n ih =>
    have hinside := statements_sound ih n
    intro ts st rest h
    rcases statementOf_eq_ok_iff.1 h with h | h | h | ⟨a, l, rfl, ha, hl⟩
    · exact loop_sound hinside h
    · exact if_sound (condition_sound n) hinside h
    · exact while_sound (condition_sound n) hinside h
    · obtain ⟨xs, hxs, hx⟩ := action_sound n ha
      exact ⟨_, hxs.append (.single hl), .act hx⟩

theorem inside_sound (n : Nat) : Sound (insideWithin n) .sequence :=
  statements_sound (statement_sound n) n

/-! ### Completeness -/

/-- `p` reads `a` from the tokens `us`, whatever follows them. -/
def Takes (p : Parser α) (us : List Token) (a : α) : Prop :=
  ∀ ⦃ts rest⦄, Spans ts us rest → p ts = .ok a rest

theorem Takes.parens {us vs : List Token} {a : α} (hp : Takes p us a)
    (hs : Spans ts (.lparen :: (us ++ .rparen :: vs)) rest) :
    ∃ ts', Parser.parens p ts = .ok a ts' ∧ Spans ts' vs rest := by
  obtain ⟨l₁, ts₁, rfl, h₁, hs⟩ := hs
  obtain ⟨_, hus, l₂, ts₂, rfl, h₂, hvs⟩ := Spans.append_iff.1 hs
  exact ⟨ts₂, parens_eq_ok_iff.2 ⟨l₁, ts₁, l₂, rfl, h₁, hp hus, h₂⟩, hvs⟩

theorem Takes.pair {us vs : List Token} {a b : α} (ha : Takes p us a) (hb : Takes p vs b)
    (hs : Spans ts (.lparen :: (us ++ .comma :: (vs ++ [.rparen]))) rest) :
    Parser.pair p ts = .ok (a, b) rest := by
  obtain ⟨l₁, ts₁, rfl, h₁, hs⟩ := hs
  obtain ⟨_, hus, l₂, ts₂, rfl, h₂, hs⟩ := Spans.append_iff.1 hs
  obtain ⟨_, hvs, l₃, ts₃, rfl, h₃, rfl⟩ := Spans.append_iff.1 hs
  exact pair_eq_ok_iff.2 ⟨l₁, ts₁, l₂, ts₂, l₃, rfl, h₁, ha hus, h₂, hb hvs, h₃⟩

/-- The production for a phrase reads it from the tokens `us`, as long as the bound covers them and
the next token does not go on with the phrase. -/
def Parsed (us : List Token) : Phrase → Prop
  | .expr e => ∀ n, us.length ≤ n → Takes (expressionWithin n) us e
  | .cond c => ∀ n, us.length ≤ n → Takes (conditionWithin n) us c
  | .action a => ∀ n, us.length ≤ n → ∀ ts rest, nextToken rest ≠ some .lparen →
    Spans ts us rest → actionWithin n ts = .ok a rest
  | .statement st => ∀ n, us.length ≤ n → ∀ ts rest, nextToken rest ≠ some (.word "else") →
    Spans ts us rest → statementWithin n ts = .ok st rest
  | .block b => ∀ n, us.length ≤ n → Takes (blockOf (insideWithin n)) us b
  | .sequence b => ∀ n, us.length ≤ n → ∀ k, us.length ≤ k → ∀ ts rest, Spans ts us rest →
    (nextToken rest = some .rbrace → statementsWithin (statementWithin n) k ts = .ok b rest) ∧
      (rest = [] → sequenceWithin (statementWithin n) k ts = .ok b rest)
  | .program p => ∀ n, us.length ≤ n → ∀ ts, Spans ts us [] →
    sequenceWithin (statementWithin n) n ts = .ok p.body []

theorem exists_bound {t : Token} {us : List Token} (h : (t :: us).length ≤ n) :
    ∃ m, n = m + 1 ∧ us.length ≤ m := by
  rw [List.length_cons] at h
  exact ⟨n - 1, by omega, by omega⟩

/-- A word and two phrases in parentheses after it, for a production that is given one token less
inside. -/
theorem takes_word_pair {q : Nat → Parser α} {w : String} {xs ys : List Token} {a b : α}
    (ha : ∀ n, xs.length ≤ n → Takes (q n) xs a) (hb : ∀ n, ys.length ≤ n → Takes (q n) ys b)
    (hn : (Token.word w :: .lparen :: (xs ++ .comma :: (ys ++ [.rparen]))).length ≤ n)
    (hs : Spans ts (.word w :: .lparen :: (xs ++ .comma :: (ys ++ [.rparen]))) rest) :
    ∃ m l ts₁, n = m + 1 ∧ ts = l :: ts₁ ∧ l.token = .word w ∧
      Parser.pair (q m) ts₁ = .ok (a, b) rest := by
  obtain ⟨m, rfl, hm⟩ := exists_bound hn
  simp only [List.length_cons, List.length_append] at hm
  obtain ⟨l, ts₁, rfl, hl, hs⟩ := hs
  exact ⟨m, l, ts₁, rfl, rfl, hl, (ha m (by omega)).pair (hb m (by omega)) hs⟩

/-- An action without an operand, where the operand that some actions may have does not follow. -/
theorem reads_bare {a : Action} (h : a.operand? = none) (hs : Spans ts [.word a.terminal] rest)
    (hnext : a = .move none ∨ a = .wait none → nextToken rest ≠ some .lparen) :
    actionWithin n ts = .ok a rest := by
  obtain ⟨l, _, rfl, hl, rfl⟩ := hs
  rw [← Action.word_eq_terminal] at hl
  exact actionOf_eq_ok_iff.2 ⟨l, _, rfl, hl, .inl ⟨h, rfl, hnext⟩⟩

/-- With its operand read, a command takes nothing more, whatever follows. -/
theorem takes_applied {a : Action} {e : Expr} {xs : List Token} (h : a.operand? = some e)
    (he : Parsed xs (.expr e))
    (hn : (Token.word a.terminal :: .lparen :: (xs ++ [.rparen])).length ≤ n) :
    Takes (actionWithin n) (.word a.terminal :: .lparen :: (xs ++ [.rparen])) a := by
  intro ts rest hs
  simp only [List.length_cons, List.length_append] at hn
  obtain ⟨l, ts₁, rfl, hl, hs⟩ := hs
  rw [← Action.word_eq_terminal] at hl
  obtain ⟨_, het, rfl⟩ := (he n (by omega)).parens hs
  exact actionOf_eq_ok_iff.2 ⟨l, ts₁, rfl, hl, .inr ⟨e, h, het⟩⟩

section Statements

variable {xs ys zs : List Token} {c : Cond} {b b' : Block} {st : Statement}

/-- A word and a test in parentheses after it, in front of the tokens `us` of a statement. -/
theorem takes_word_test {w : String} {us : List Token} (hc : Parsed xs (.cond c))
    (hn : (Token.word w :: .lparen :: (xs ++ .rparen :: us)).length ≤ n)
    (hs : Spans ts (.word w :: .lparen :: (xs ++ .rparen :: us)) rest) :
    ∃ m l ts₁ ts₂, n = m + 1 ∧ ts = l :: ts₁ ∧ l.token = .word w ∧
      Parser.parens (conditionWithin m) ts₁ = .ok c ts₂ ∧ us.length ≤ m ∧ Spans ts₂ us rest := by
  obtain ⟨m, rfl, hm⟩ := exists_bound hn
  simp only [List.length_cons, List.length_append] at hm
  obtain ⟨l, ts₁, rfl, hl, hs⟩ := hs
  obtain ⟨ts₂, hct, hs⟩ := (hc m (by omega)).parens hs
  exact ⟨m, l, ts₁, ts₂, rfl, rfl, hl, hct, by omega, hs⟩

theorem parsed_ifThen (hc : Parsed xs (.cond c)) (hb : Parsed ys (.block b)) :
    Parsed (.word "if" :: .lparen :: (xs ++ .rparen :: ys)) (.statement (.ifThen c b)) := by
  intro n hn ts rest hnext hs
  obtain ⟨m, l, ts₁, ts₂, rfl, rfl, hl, hct, hm, hs⟩ := takes_word_test hc hn hs
  have hbt := hb m hm hs
  exact statementOf_eq_ok_iff.2 (.inr (.inl (ifOf_eq_ok_iff.2
    ⟨l, ts₁, c, ts₂, b, rest, rfl, hl, hct, hbt, .inl ⟨hnext, rfl, rfl⟩⟩)))

/-- With its `else` read, a conditional takes nothing more, whatever follows. -/
theorem takes_ifElse {us : List Token} (hc : Parsed xs (.cond c)) (hb : Parsed ys (.block b))
    (helse : ∀ n, us.length ≤ n → Takes (elseBlockOf (insideWithin n)) us b')
    (hn : (Token.word "if" :: .lparen ::
      (xs ++ .rparen :: (ys ++ .word "else" :: us))).length ≤ n) :
    Takes (statementWithin n)
      (.word "if" :: .lparen :: (xs ++ .rparen :: (ys ++ .word "else" :: us)))
      (.ifElse c b b') := by
  intro ts rest hs
  obtain ⟨m, l, ts₁, ts₂, rfl, rfl, hl, hct, hm, hs⟩ := takes_word_test hc hn hs
  simp only [List.length_append, List.length_cons] at hm
  obtain ⟨_, hys, l', ts₄, rfl, hl', hs⟩ := Spans.append_iff.1 hs
  have hbt := hb m (by omega) hys
  have hbt' := helse m (by omega) hs
  exact statementOf_eq_ok_iff.2 (.inr (.inl (ifOf_eq_ok_iff.2
    ⟨l, ts₁, c, ts₂, b, l' :: ts₄, rfl, hl, hct, hbt, .inr ⟨l', ts₄, b', rfl, hl', rfl, hbt'⟩⟩)))

/-- A block that is derived begins with one brace only. -/
theorem else_takes_block (hd : Derives zs (.block b')) (hb' : Parsed zs (.block b'))
    (hn : zs.length ≤ n) : Takes (elseBlockOf (insideWithin n)) zs b' := by
  intro ts rest hs
  refine elseBlockOf_eq_ok_iff.2 (.inl ⟨?_, hb' n hn hs⟩)
  obtain ⟨w, zs', rfl⟩ := hd.beginsWithWord
  obtain ⟨l₁, _, rfl, -, l₂, ts₂, rfl, h₂, -⟩ := hs
  simp [h₂]

theorem else_takes_braced (hb' : Parsed zs (.block b'))
    (hn : (Token.lbrace :: (zs ++ [.rbrace])).length ≤ n) :
    Takes (elseBlockOf (insideWithin n)) (.lbrace :: (zs ++ [.rbrace])) b' := by
  intro ts rest hs
  rw [List.length_cons, List.length_append] at hn
  obtain ⟨l₁, ts₁, rfl, h₁, hs⟩ := hs
  obtain ⟨_, hzs, l₂, ts₂, rfl, h₂, rfl⟩ := Spans.append_iff.1 hs
  exact elseBlockOf_eq_ok_iff.2 (.inr ⟨l₁, ts₁, l₂, rfl, h₁, hb' n (by omega) hzs, h₂⟩)

theorem takes_whileLoop (hc : Parsed xs (.cond c)) (hb : Parsed ys (.block b))
    (hn : (Token.word "while" :: .lparen :: (xs ++ .rparen :: ys)).length ≤ n) :
    Takes (statementWithin n) (.word "while" :: .lparen :: (xs ++ .rparen :: ys))
      (.whileLoop c b) := by
  intro ts rest hs
  obtain ⟨m, l, ts₁, ts₂, rfl, rfl, hl, hct, hm, hs⟩ := takes_word_test hc hn hs
  have hbt := hb m hm hs
  exact statementOf_eq_ok_iff.2 (.inr (.inr (.inl (whileOf_eq_ok_iff.2
    ⟨l, ts₁, c, ts₂, b, rfl, hl, rfl, hct, hbt⟩))))

theorem takes_loop (hb : Parsed xs (.block b)) (hn : (Token.word "loop" :: xs).length ≤ n) :
    Takes (statementWithin n) (.word "loop" :: xs) (.loop b) := by
  intro ts rest hs
  obtain ⟨m, rfl, hm⟩ := exists_bound hn
  obtain ⟨l, ts₁, rfl, hl, hs⟩ := hs
  exact statementOf_eq_ok_iff.2
    (.inl (loopOf_eq_ok_iff.2 ⟨l, ts₁, b, rfl, hl, rfl, hb m hm hs⟩))

/-- The semicolon keeps an action from taking what follows. -/
theorem takes_act {a : Action} (ha : Parsed xs (.action a))
    (hn : (xs ++ [Token.semicolon]).length ≤ n) :
    Takes (statementWithin n) (xs ++ [.semicolon]) (.action a) := by
  intro ts rest hs
  rw [List.length_append, List.length_singleton] at hn
  obtain ⟨m, rfl⟩ : ∃ m, n = m + 1 := ⟨n - 1, by omega⟩
  obtain ⟨_, hxs, l, _, rfl, hl, rfl⟩ := Spans.append_iff.1 hs
  have hat := ha m (by omega) ts _ (by simp [hl]) hxs
  exact statementOf_eq_ok_iff.2 (.inr (.inr (.inr ⟨a, l, rfl, hat, hl⟩)))

theorem parsed_block (hd : Derives xs (.sequence b)) (hb : Parsed xs (.sequence b)) :
    Parsed (.lbrace :: (xs ++ [.rbrace])) (.block b) := by
  intro n hn ts rest hs
  simp only [List.length_cons, List.length_append] at hn
  obtain ⟨l₁, ts₁, rfl, h₁, hs⟩ := hs
  obtain ⟨_, hxs, l₂, ts₂, rfl, h₂, rfl⟩ := Spans.append_iff.1 hs
  have hbt := (hb n (by omega) n (by omega) ts₁ _ hxs).1 (by simp [h₂])
  obtain ⟨w, xs', rfl, -⟩ := hd.beginsWithWord
  exact blockOf_eq_ok_iff.2 ⟨l₁, ts₁, l₂, rfl, h₁, by simp [hxs.nextToken], hbt, h₂⟩

theorem parsed_single (hd : Derives xs (.statement st)) (hst : Parsed xs (.statement st)) :
    Parsed xs (.sequence (.single st)) := by
  intro n hn k hk ts rest hs
  obtain ⟨w, xs', rfl, -⟩ := hd.beginsWithWord
  obtain ⟨k, rfl, -⟩ := exists_bound hk
  constructor
  · intro hnext
    have hstt := hst n hn ts rest (by simp [hnext]) hs
    have hne : ts ≠ [] := fun hnil => by simp [hnil, Spans] at hs
    exact statementsOf_eq_ok_iff.2 ⟨hne, st, rest, hstt, .inl ⟨hnext, rfl, rfl⟩⟩
  · rintro rfl
    have hstt := hst n hn ts [] (by simp) hs
    exact sequenceOf_eq_ok_iff.2 ⟨st, [], hstt, .inl ⟨rfl, rfl, rfl⟩⟩

theorem parsed_cons (hdx : Derives xs (.statement st)) (hdy : Derives ys (.sequence b))
    (hst : Parsed xs (.statement st)) (hb : Parsed ys (.sequence b)) :
    Parsed (xs ++ ys) (.sequence (.cons st b)) := by
  intro n hn k hk ts rest hs
  obtain ⟨w, xs', rfl, -⟩ := hdx.beginsWithWord
  obtain ⟨v, ys', rfl, hv⟩ := hdy.beginsWithWord
  rw [List.cons_append] at hk
  obtain ⟨j, rfl, hj⟩ := exists_bound hk
  simp only [List.length_append] at hn hj
  obtain ⟨ts₁, hxs, hys⟩ := Spans.append_iff.1 hs
  -- The second statement begins with a word other than `else`, which the first one cannot take.
  have hstt := hst n (by omega) ts ts₁ (by simpa [hys.nextToken] using hv) hxs
  have hbt := hb n (by omega) j (by omega) ts₁ rest hys
  have hne : ts ≠ [] := fun hnil => by simp [hnil, Spans] at hxs
  have hne₁ : ts₁ ≠ [] := fun hnil => by simp [hnil, Spans] at hys
  constructor
  · intro hnext
    exact statementsOf_eq_ok_iff.2
      ⟨hne, st, ts₁, hstt, .inr ⟨by simp [hys.nextToken], b, rfl, hbt.1 hnext⟩⟩
  · intro hend
    exact sequenceOf_eq_ok_iff.2 ⟨st, ts₁, hstt, .inr ⟨hne₁, b, rfl, hbt.2 hend⟩⟩

end Statements

/-- What the grammar derives, the production reads. -/
theorem parsed_of_derives {us : List Token} {x : Phrase} (h : Derives us x) : Parsed us x := by
  induction h with
  | number h =>
    intro n hn ts rest hs
    obtain ⟨m, rfl, -⟩ := exists_bound hn
    obtain ⟨l, _, rfl, hl, rfl⟩ := hs
    exact expressionOf_eq_ok_iff.2
      ⟨l, _, _, rfl, hl, .inl ⟨_, Literal.read?_eq_some_iff.2 h, rfl, rfl⟩⟩
  | sensor s =>
    intro n hn ts rest hs
    obtain ⟨m, rfl, -⟩ := exists_bound hn
    obtain ⟨l, _, rfl, hl, rfl⟩ := hs
    exact expressionOf_eq_ok_iff.2 ⟨l, _, _, rfl, hl, .inr (.inr ⟨s, rfl, rfl, rfl⟩)⟩
  | binary op _ _ iha ihb =>
    intro n hn ts rest hs
    obtain ⟨m, l, ts₁, rfl, rfl, hl, hab⟩ := takes_word_pair iha ihb hn hs
    exact expressionOf_eq_ok_iff.2 ⟨l, ts₁, _, rfl, hl, .inr (.inl ⟨op, _, _, rfl, rfl, hab⟩)⟩
  | compare op _ _ iha ihb =>
    intro n hn ts rest hs
    obtain ⟨m, l, ts₁, rfl, rfl, hl, hab⟩ := takes_word_pair iha ihb hn hs
    exact conditionOf_eq_ok_iff.2
      ⟨l, ts₁, _, rfl, hl, .inr (.inr (.inr ⟨op, _, _, rfl, rfl, hab⟩))⟩
  | conj _ _ iha ihb =>
    intro n hn ts rest hs
    obtain ⟨m, l, ts₁, rfl, rfl, hl, hab⟩ := takes_word_pair iha ihb hn hs
    exact conditionOf_eq_ok_iff.2 ⟨l, ts₁, _, rfl, hl, .inl ⟨_, _, rfl, rfl, hab⟩⟩
  | disj _ _ iha ihb =>
    intro n hn ts rest hs
    obtain ⟨m, l, ts₁, rfl, rfl, hl, hab⟩ := takes_word_pair iha ihb hn hs
    exact conditionOf_eq_ok_iff.2 ⟨l, ts₁, _, rfl, hl, .inr (.inl ⟨_, _, rfl, rfl, hab⟩)⟩
  | neg _ ih =>
    intro n hn ts rest hs
    obtain ⟨m, rfl, hm⟩ := exists_bound hn
    simp only [List.length_cons, List.length_append] at hm
    obtain ⟨l, ts₁, rfl, hl, hs⟩ := hs
    obtain ⟨_, hc, rfl⟩ := (ih m (by omega)).parens hs
    exact conditionOf_eq_ok_iff.2 ⟨l, ts₁, _, rfl, hl, .inr (.inr (.inl ⟨_, rfl, rfl, hc⟩))⟩
  | bare h =>
    intro n _ ts rest hnext hs
    exact reads_bare h hs fun _ => hnext
  | applied h _ ih => exact fun n hn ts rest _ hs => takes_applied h ih hn hs
  | act _ ih => exact fun n hn ts rest _ hs => takes_act ih hn hs
  | loop _ ih => exact fun n hn ts rest _ hs => takes_loop ih hn hs
  | ifThen _ _ ihc ihb => exact parsed_ifThen ihc ihb
  | ifElse _ _ hb' ihc ihb ihb' =>
    exact fun n hn ts rest _ hs =>
      takes_ifElse ihc ihb (fun n hn => else_takes_block hb' ihb' hn) hn hs
  | ifElseBraced _ _ _ ihc ihb ihb' =>
    exact fun n hn ts rest _ hs =>
      takes_ifElse ihc ihb (fun n hn => else_takes_braced ihb' hn) hn hs
  | whileLoop _ _ ihc ihb => exact fun n hn ts rest _ hs => takes_whileLoop ihc ihb hn hs
  | block h ih => exact parsed_block h ih
  | single h ih => exact parsed_single h ih
  | cons hs hb ihs ihb => exact parsed_cons hs hb ihs ihb
  | program _ ih =>
    intro n hn ts hs
    exact (ih n hn n hn ts [] hs).2 rfl

/-! ### Programs -/

/-- A token list spells at most one program. -/
theorem derives_program_unique {us : List Token} {p q : Program}
    (hp : Derives us (.program p)) (hq : Derives us (.program q)) : p = q := by
  let ts : List Lexeme := us.map fun t => ⟨t, 0⟩
  have hs : Spans ts us [] := by
    simpa [ts, Function.comp_def] using Spans.all ts
  have hpt := parsed_of_derives hp us.length le_rfl ts hs
  have hqt := parsed_of_derives hq us.length le_rfl ts hs
  rw [hpt] at hqt
  cases p
  cases q
  cases hqt
  rfl

theorem tooDeep?_eq_none_iff {d : Nat} (hd : d ≤ maxNesting) :
    tooDeep? d ts = none ↔ nestingFrom d (ts.map Lexeme.token) ≤ maxNesting := by
  induction ts generalizing d with
  | nil => simpa [tooDeep?, nestingFrom] using hd
  | cons l ts ih =>
    rw [tooDeep?, List.map_cons, nestingFrom, Token.openAfter_eq]
    split_ifs with hopen hdeep hclose
    · have hge := le_nestingFrom (d + 1) (ts.map Lexeme.token)
      simp only [false_iff, not_le]
      omega
    · rw [ih (by omega)]
      omega
    · rw [ih (by omega)]
      omega
    · rw [ih hd]
      omega

/-- A program is read when its tokens derive it and are not nested too deeply. -/
theorem program_iff_derives {p : Program} :
    program ts = .ok p rest ↔
      rest = [] ∧ Derives (ts.map Lexeme.token) (.program p) ∧
        nesting (ts.map Lexeme.token) ≤ maxNesting := by
  rw [program_eq_ok_iff, tooDeep?_eq_none_iff (Nat.zero_le _)]
  constructor
  · rintro ⟨hdeep, -, hseq⟩
    obtain ⟨rfl, us, hs, hd⟩ := sequence_sound (statement_sound _) _ hseq
    obtain rfl := hs.eq_map
    exact ⟨rfl, .program hd, hdeep⟩
  · rintro ⟨rfl, hd, hdeep⟩
    refine ⟨hdeep, ?_, parsed_of_derives hd ts.length (by simp) ts (.all ts)⟩
    rintro rfl
    exact hd.ne_nil rfl

/-- Tokens that are nested too deeply are refused for that, whatever they spell. -/
theorem program_eq_error_of_nesting (h : maxNesting < nesting (ts.map Lexeme.token)) :
    ∃ bad, program ts = .error (.before .nestingTooDeep bad) ts := by
  cases hdeep : tooDeep? 0 ts with
  | none => exact absurd ((tooDeep?_eq_none_iff (Nat.zero_le _)).1 hdeep) (not_le.2 h)
  | some bad =>
    refine ⟨bad, ?_⟩
    rw [program, bind_eq_error_iff, checkNesting, hdeep]
    exact .inl rfl

/-- **The parser accepts exactly its grammar**, up to the limit on nesting, and builds the tree that
the grammar gives; no token list spells two programs. -/
theorem program_eq_ok_iff_derives :
    (∀ (ts : List Lexeme) (p : Program) (rest : List Lexeme),
      program ts = .ok p rest ↔
        rest = [] ∧ Derives (ts.map Lexeme.token) (.program p) ∧
          nesting (ts.map Lexeme.token) ≤ 200) ∧
      ∀ (us : List Token) (p q : Program),
        Derives us (.program p) → Derives us (.program q) → p = q :=
  ⟨fun _ _ _ => program_iff_derives, fun _ _ _ => derives_program_unique⟩

end Parser

end RobotControl
