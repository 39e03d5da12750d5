import Mathlib.Tactic
import RobotControl.Program.Parser
import RobotControl.Sequencing

/-!
# What each production reads

For every production, exactly when it succeeds and what it leaves: a production of the parser is
taken apart into the tokens that it uses up and the productions that it calls.  What a parser does
further on is then derived from these lemmas, and never from the definitions.
-/

namespace RobotControl

namespace Parser

variable {α β : Type} {ts rest : List Lexeme}

/-- The token at the front. -/
def nextToken (ts : List Lexeme) : Option Token := ts.head?.map Lexeme.token

@[simp] theorem nextToken_nil : nextToken [] = none := rfl

@[simp] theorem nextToken_cons (l : Lexeme) (ts : List Lexeme) :
    nextToken (l :: ts) = some l.token := rfl

theorem nextToken_eq_some_iff {t : Token} :
    nextToken ts = some t ↔ ∃ l ts', ts = l :: ts' ∧ l.token = t := by
  cases ts with
  | nil => simp
  | cons l ts => simp

theorem nextToken_eq_none_iff : nextToken ts = none ↔ ts = [] := by
  cases ts <;> simp

/-- The word at the front. -/
def nextWord (ts : List Lexeme) : Option String := (nextToken ts).bind Token.word?

theorem nextWord_cons {l : Lexeme} {w : String} (h : l.token = .word w) :
    nextWord (l :: ts) = some w := by
  simp [nextWord, h, Token.word?]

theorem nextWord_eq_some_iff {w : String} :
    nextWord ts = some w ↔ ∃ l ts', ts = l :: ts' ∧ l.token = .word w := by
  cases ts with
  | nil => simp [nextWord]
  | cons l ts => cases hl : l.token <;> simp [nextWord, hl, Token.word?]

theorem peek_bind (f : Option Token → Parser β) : (peek >>= f) ts = f (nextToken ts) ts := rfl

theorem peekWord_bind (f : Option String → Parser β) :
    (peekWord >>= f) ts = f (nextWord ts) ts := by
  cases ts <;> rfl

theorem skip_bind (f : Unit → Parser β) (l : Lexeme) : (skip >>= f) (l :: ts) = f () ts := rfl

theorem remaining_bind (f : Nat → Parser β) : (remaining >>= f) ts = f ts.length ts := rfl

theorem fail_ne_ok {c : Cause} {a : α} : fail c ts ≠ .ok a rest := by
  intro h
  cases h

/-! ### Tokens -/

theorem expect_eq_ok_iff {t : Token} {u : Unit} :
    expect t ts = .ok u rest ↔ ∃ l, ts = l :: rest ∧ l.token = t := by
  unfold expect
  rw [peek_bind]
  by_cases h : nextToken ts = some t
  · obtain ⟨l, ts', rfl, rfl⟩ := nextToken_eq_some_iff.1 h
    rw [if_pos h]
    constructor
    · intro hs
      cases hs
      exact ⟨l, rfl, rfl⟩
    · rintro ⟨l', hl, -⟩
      cases hl
      rfl
  · rw [if_neg h]
    constructor
    · intro hs
      exact absurd hs fail_ne_ok
    · rintro ⟨l, rfl, rfl⟩
      exact absurd rfl h

theorem expect_cons {t : Token} {l : Lexeme} (h : l.token = t) : expect t (l :: ts) = .ok () ts :=
  expect_eq_ok_iff.2 ⟨l, rfl, h⟩

theorem expect_bind_eq_ok_iff {t : Token} {f : Unit → Parser β} {b : β} :
    (expect t >>= f) ts = .ok b rest ↔
      ∃ l ts₁, ts = l :: ts₁ ∧ l.token = t ∧ f () ts₁ = .ok b rest := by
  rw [bind_eq_ok_iff]
  constructor
  · rintro ⟨_, ts₁, ht, hf⟩
    obtain ⟨l, rfl, hl⟩ := expect_eq_ok_iff.1 ht
    exact ⟨l, ts₁, rfl, hl, hf⟩
  · rintro ⟨l, ts₁, rfl, hl, hf⟩
    exact ⟨(), ts₁, expect_cons hl, hf⟩

theorem keyword_eq_ok_iff [Keyword α] {c : Cause} {a : α} :
    keyword c ts = .ok a rest ↔
      ∃ l w, ts = l :: rest ∧ l.token = .word w ∧ Keyword.ofWord? w = some a := by
  unfold keyword
  rw [peekWord_bind]
  constructor
  · intro h
    cases hb : ((nextWord ts).bind Keyword.ofWord? : Option α) with
    | none =>
      rw [hb] at h
      exact absurd h fail_ne_ok
    | some b =>
      rw [hb] at h
      obtain ⟨w, hw, hwb⟩ := Option.bind_eq_some_iff.1 hb
      obtain ⟨l, ts', rfl, hl⟩ := nextWord_eq_some_iff.1 hw
      cases h
      exact ⟨l, w, rfl, hl, hwb⟩
  · rintro ⟨l, w, rfl, hl, ha⟩
    simp only [nextWord_cons hl, Option.bind_some, ha]
    rfl

theorem number_eq_ok_iff {v : Int64} :
    number ts = .ok v rest ↔
      ∃ l w, ts = l :: rest ∧ l.token = .word w ∧ Literal.read? w = some v := by
  unfold number
  rw [peekWord_bind]
  constructor
  · intro h
    cases hw : nextWord ts with
    | none =>
      rw [hw] at h
      exact absurd h fail_ne_ok
    | some w =>
      rw [hw] at h
      obtain ⟨l, ts', rfl, hl⟩ := nextWord_eq_some_iff.1 hw
      cases hv : Literal.read? w with
      | none =>
        simp only [hv] at h
        exact absurd h fail_ne_ok
      | some v' =>
        simp only [hv] at h
        cases h
        exact ⟨l, w, rfl, hl, hv⟩
  · rintro ⟨l, w, rfl, hl, hv⟩
    simp only [nextWord_cons hl, hv]
    rfl

/-! ### Parentheses -/

theorem parens_eq_ok_iff {p : Parser α} {a : α} :
    parens p ts = .ok a rest ↔
      ∃ l₁ ts₁ l₂, ts = l₁ :: ts₁ ∧ l₁.token = .lparen ∧ p ts₁ = .ok a (l₂ :: rest) ∧
        l₂.token = .rparen := by
  unfold parens
  simp only [bind_eq_ok_iff, expect_eq_ok_iff, pure_apply, EStateM.Result.ok.injEq]
  constructor
  · rintro ⟨_, ts₁, ⟨l₁, rfl, h₁⟩, b, ts₂, hp, _, ts₃, ⟨l₂, rfl, h₂⟩, rfl, rfl⟩
    exact ⟨l₁, ts₁, l₂, rfl, h₁, hp, h₂⟩
  · rintro ⟨l₁, ts₁, l₂, rfl, h₁, hp, h₂⟩
    exact ⟨(), ts₁, ⟨l₁, rfl, h₁⟩, a, l₂ :: rest, hp, (), rest, ⟨l₂, rfl, h₂⟩, rfl, rfl⟩

theorem pair_eq_ok_iff {p : Parser α} {ab : α × α} :
    pair p ts = .ok ab rest ↔
      ∃ l₁ ts₁ l₂ ts₂ l₃, ts = l₁ :: ts₁ ∧ l₁.token = .lparen ∧
        p ts₁ = .ok ab.1 (l₂ :: ts₂) ∧ l₂.token = .comma ∧
        p ts₂ = .ok ab.2 (l₃ :: rest) ∧ l₃.token = .rparen := by
  unfold pair
  simp only [bind_eq_ok_iff, expect_eq_ok_iff, pure_apply, EStateM.Result.ok.injEq]
  constructor
  · rintro ⟨_, ts₁, ⟨l₁, rfl, h₁⟩, a, _, ha, _, ts₂, ⟨l₂, rfl, h₂⟩, b, _, hb, _, _, ⟨l₃, rfl, h₃⟩,
      rfl, rfl⟩
    exact ⟨l₁, ts₁, l₂, ts₂, l₃, rfl, h₁, ha, h₂, hb, h₃⟩
  · rintro ⟨l₁, ts₁, l₂, ts₂, l₃, rfl, h₁, ha, h₂, hb, h₃⟩
    exact ⟨(), ts₁, ⟨l₁, rfl, h₁⟩, ab.1, l₂ :: ts₂, ha, (), ts₂, ⟨l₂, rfl, h₂⟩, ab.2, l₃ :: rest,
      hb, (), rest, ⟨l₃, rfl, h₃⟩, rfl, rfl⟩

/-! ### Expressions and conditions -/

/-- A keyword is no literal. -/
theorem arithOp_not_shaped (op : ArithOp) : Literal.isShaped (Keyword.word op) = false := by
  cases op <;> decide

theorem sensor_not_shaped (s : Sensor) : Literal.isShaped (Keyword.word s) = false := by
  cases s <;> decide

/-- The name of a sensor is no operator. -/
theorem sensor_not_arithOp (s : Sensor) :
    (Keyword.ofWord? (Keyword.word s) : Option ArithOp) = none := by
  cases s <;> decide

theorem isShaped_of_read? {w : String} {v : Int64} (h : Literal.read? w = some v) :
    Literal.isShaped w = true := by
  by_contra hw
  rw [Literal.read?, if_neg hw] at h
  cases h

theorem expressionOf_eq_ok_iff {inner : Parser Expr} {e : Expr} :
    expressionOf inner ts = .ok e rest ↔
      ∃ l ts₁ w, ts = l :: ts₁ ∧ l.token = .word w ∧
        ((∃ v, Literal.read? w = some v ∧ e = .num v ∧ rest = ts₁) ∨
          (∃ op a b, w = Keyword.word op ∧ e = .binary op a b ∧
            pair inner ts₁ = .ok (a, b) rest) ∨
          ∃ s, w = Keyword.word s ∧ e = .sensor s ∧ rest = ts₁) := by
  unfold expressionOf
  rw [peekWord_bind]
  constructor
  · intro h
    cases hw : nextWord ts with
    | none =>
      rw [hw, if_neg (by simp)] at h
      obtain ⟨s, _, hs, _⟩ := bind_eq_ok_iff.1 h
      obtain ⟨l, w, rfl, hl, -⟩ := keyword_eq_ok_iff.1 hs
      rw [nextWord_cons hl] at hw
      cases hw
    | some w =>
      rw [hw] at h
      obtain ⟨l, ts₁, rfl, hl⟩ := nextWord_eq_some_iff.1 hw
      refine ⟨l, ts₁, w, rfl, hl, ?_⟩
      by_cases hshaped : Literal.isShaped w = true
      · rw [if_pos (by simpa using hshaped)] at h
        obtain ⟨v, _, hnum, h⟩ := bind_eq_ok_iff.1 h
        obtain ⟨l', w', hl', hw', hv⟩ := number_eq_ok_iff.1 hnum
        cases hl'
        cases hl.symm.trans hw'
        cases h
        exact .inl ⟨v, hv, rfl, rfl⟩
      · rw [if_neg (by simpa using hshaped)] at h
        cases hop : (Keyword.ofWord? w : Option ArithOp) with
        | some op =>
          simp only [Option.bind_some, hop] at h
          obtain ⟨op', _, hread, hpair⟩ := bind_eq_ok_iff.1 h
          obtain ⟨l', w', hl', hw', hop'⟩ := keyword_eq_ok_iff.1 hread
          obtain ⟨⟨a, b⟩, _, hab, he⟩ := bind_eq_ok_iff.1 hpair
          cases hl'
          cases hl.symm.trans hw'
          cases he
          exact .inr (.inl ⟨op', a, b, (Keyword.word_of_ofWord? hop').symm, rfl, hab⟩)
        | none =>
          simp only [Option.bind_some, hop] at h
          obtain ⟨s, _, hsen, h⟩ := bind_eq_ok_iff.1 h
          obtain ⟨l', w', hl', hw', hs⟩ := keyword_eq_ok_iff.1 hsen
          cases hl'
          cases hl.symm.trans hw'
          cases h
          exact .inr (.inr ⟨s, (Keyword.word_of_ofWord? hs).symm, rfl, rfl⟩)
  · rintro ⟨l, ts₁, w, rfl, hl, ⟨v, hv, rfl, rfl⟩ | ⟨op, a, b, rfl, rfl, hab⟩ | ⟨s, rfl, rfl, rfl⟩⟩
    · rw [nextWord_cons hl, if_pos (by simpa using isShaped_of_read? hv)]
      exact bind_eq_ok_iff.2 ⟨v, _, number_eq_ok_iff.2 ⟨l, w, rfl, hl, hv⟩, rfl⟩
    · rw [nextWord_cons hl, if_neg (by simp [arithOp_not_shaped])]
      simp only [Option.bind_some, ArithOp.ofWord?_word]
      have hop : operator (l :: ts₁) = .ok op ts₁ :=
        keyword_eq_ok_iff.2 ⟨l, _, rfl, hl, ArithOp.ofWord?_word op⟩
      exact bind_eq_ok_iff.2 ⟨op, ts₁, hop, bind_eq_ok_iff.2 ⟨(a, b), _, hab, rfl⟩⟩
    · rw [nextWord_cons hl, if_neg (by simp [sensor_not_shaped])]
      simp only [Option.bind_some, sensor_not_arithOp]
      exact bind_eq_ok_iff.2
        ⟨s, _, keyword_eq_ok_iff.2 ⟨l, _, rfl, hl, Sensor.ofWord?_word s⟩, rfl⟩

/-- The words of the connectives are no comparisons. -/
theorem relOp_not_connective (op : RelOp) :
    Keyword.word op ≠ "and" ∧ Keyword.word op ≠ "or" ∧ Keyword.word op ≠ "not" := by
  cases op <;> decide

theorem conditionOf_eq (inner : Parser Cond) (operand : Parser Expr) :
    conditionOf inner operand = (do
      let w? ← peekWord
      if w? = some "and" then do
        skip
        let ab ← pair inner
        return .conj ab.1 ab.2
      else if w? = some "or" then do
        skip
        let ab ← pair inner
        return .disj ab.1 ab.2
      else if w? = some "not" then do
        expect (.word "not")
        return .neg (← parens inner)
      else do
        let op ← comparison
        let ab ← pair operand
        return .compare op ab.1 ab.2) := by
  unfold conditionOf
  refine bind_congr fun w? => ?_
  split <;> simp_all

theorem conditionOf_eq_ok_iff {inner : Parser Cond} {operand : Parser Expr} {c : Cond} :
    conditionOf inner operand ts = .ok c rest ↔
      ∃ l ts₁ w, ts = l :: ts₁ ∧ l.token = .word w ∧
        ((∃ a b, w = "and" ∧ c = .conj a b ∧ pair inner ts₁ = .ok (a, b) rest) ∨
          (∃ a b, w = "or" ∧ c = .disj a b ∧ pair inner ts₁ = .ok (a, b) rest) ∨
          (∃ a, w = "not" ∧ c = .neg a ∧ parens inner ts₁ = .ok a rest) ∨
          ∃ op a b, w = Keyword.word op ∧ c = .compare op a b ∧
            pair operand ts₁ = .ok (a, b) rest) := by
  rw [conditionOf_eq, peekWord_bind]
  constructor
  · intro h
    split_ifs at h with hand hor hnot
    · obtain ⟨l, ts₁, rfl, hl⟩ := nextWord_eq_some_iff.1 hand
      rw [skip_bind] at h
      obtain ⟨⟨a, b⟩, _, hab, h⟩ := bind_eq_ok_iff.1 h
      cases h
      exact ⟨l, ts₁, _, rfl, hl, .inl ⟨a, b, rfl, rfl, hab⟩⟩
    · obtain ⟨l, ts₁, rfl, hl⟩ := nextWord_eq_some_iff.1 hor
      rw [skip_bind] at h
      obtain ⟨⟨a, b⟩, _, hab, h⟩ := bind_eq_ok_iff.1 h
      cases h
      exact ⟨l, ts₁, _, rfl, hl, .inr (.inl ⟨a, b, rfl, rfl, hab⟩)⟩
    · obtain ⟨l, ts₁, rfl, hl, hinner⟩ := expect_bind_eq_ok_iff.1 h
      obtain ⟨a, _, ha, h⟩ := bind_eq_ok_iff.1 hinner
      cases h
      exact ⟨l, ts₁, _, rfl, hl, .inr (.inr (.inl ⟨a, rfl, rfl, ha⟩))⟩
    · obtain ⟨op, _, hop, hpair⟩ := bind_eq_ok_iff.1 h
      obtain ⟨l, w, rfl, hl, hw⟩ := keyword_eq_ok_iff.1 hop
      obtain ⟨⟨a, b⟩, _, hab, hc⟩ := bind_eq_ok_iff.1 hpair
      cases hc
      exact ⟨l, _, w, rfl, hl, .inr (.inr (.inr
        ⟨op, a, b, (Keyword.word_of_ofWord? hw).symm, rfl, hab⟩))⟩
  · rintro ⟨l, ts₁, w, rfl, hl, ⟨a, b, rfl, rfl, hab⟩ | ⟨a, b, rfl, rfl, hab⟩ | ⟨a, rfl, rfl, ha⟩ |
      ⟨op, a, b, rfl, rfl, hab⟩⟩
    · rw [nextWord_cons hl, if_pos rfl, skip_bind]
      exact bind_eq_ok_iff.2 ⟨(a, b), _, hab, rfl⟩
    · rw [nextWord_cons hl, if_neg (by decide), if_pos rfl, skip_bind]
      exact bind_eq_ok_iff.2 ⟨(a, b), _, hab, rfl⟩
    · rw [nextWord_cons hl, if_neg (by decide), if_neg (by decide), if_pos rfl]
      exact expect_bind_eq_ok_iff.2 ⟨l, ts₁, rfl, hl, bind_eq_ok_iff.2 ⟨a, _, ha, rfl⟩⟩
    · obtain ⟨hand, hor, hnot⟩ := relOp_not_connective op
      have hop : comparison (l :: ts₁) = .ok op ts₁ :=
        keyword_eq_ok_iff.2 ⟨l, _, rfl, hl, RelOp.ofWord?_word op⟩
      rw [nextWord_cons hl, if_neg (by simpa using hand), if_neg (by simpa using hor),
        if_neg (by simpa using hnot)]
      exact bind_eq_ok_iff.2 ⟨op, ts₁, hop, bind_eq_ok_iff.2 ⟨(a, b), _, hab, rfl⟩⟩

/-! ### Actions -/

section Actions

variable {operand : Parser Expr}

theorem operandOf_eq_ok_iff {x : Option Expr} :
    operandOf operand ts = .ok x rest ↔
      (x = none ∧ rest = ts ∧ nextToken ts ≠ some .lparen) ∨
        ∃ e, x = some e ∧ parens operand ts = .ok e rest := by
  unfold operandOf
  rw [peek_bind]
  constructor
  · intro h
    split_ifs at h with hopen
    · obtain ⟨e, _, he, h⟩ := bind_eq_ok_iff.1 h
      cases h
      exact .inr ⟨e, rfl, he⟩
    · cases h
      exact .inl ⟨rfl, rfl, hopen⟩
  · rintro (⟨rfl, rfl, hopen⟩ | ⟨e, rfl, he⟩)
    · rw [if_neg hopen]
      rfl
    · obtain ⟨l, ts₁, _, rfl, hl, _⟩ := parens_eq_ok_iff.1 he
      rw [if_pos (by simp [hl])]
      exact bind_eq_ok_iff.2 ⟨e, _, he, rfl⟩

theorem word_eq_of_ofWord? {w : String} {x : Option α} {c : Command α}
    (h : Command.ofWord? w x = some c) : c.word = w := by
  unfold Command.ofWord? at h
  split at h <;> cases h <;> rfl

theorem ofWord?_none_eq {a : Command α} :
    Command.ofWord? a.word (none : Option α) =
      some (match a with | .move _ => .move none | .wait _ => .wait none | c => c) := by
  cases a with
  | shield raised => cases raised <;> rfl
  | _ => rfl

/-- The two commands with an operand read it alike. -/
theorem operandOf_operand?_iff {a : Action} (ha : a = .move a.operand? ∨ a = .wait a.operand?) :
    operandOf operand ts = .ok a.operand? rest ↔
      (a.operand? = none ∧ rest = ts ∧
          (a = .move none ∨ a = .wait none → nextToken ts ≠ some .lparen)) ∨
        ∃ e, a.operand? = some e ∧ parens operand ts = .ok e rest := by
  rw [operandOf_eq_ok_iff]
  refine or_congr_left (and_congr_right fun hnone => and_congr_right fun _ => ?_)
  rw [hnone] at ha
  exact ⟨fun hopen _ => hopen, fun hopen => hopen ha⟩

theorem actionOf_eq_ok_iff {a : Action} :
    actionOf operand ts = .ok a rest ↔
      ∃ l ts₁, ts = l :: ts₁ ∧ l.token = .word a.word ∧
        ((a.operand? = none ∧ rest = ts₁ ∧
            (a = .move none ∨ a = .wait none → nextToken ts₁ ≠ some .lparen)) ∨
          ∃ e, a.operand? = some e ∧ parens operand ts₁ = .ok e rest) := by
  unfold actionOf
  rw [peekWord_bind]
  constructor
  · intro h
    cases hc : (nextWord ts).bind fun w => (Command.ofWord? w none : Option Action) with
    | none =>
      rw [hc] at h
      exact absurd h fail_ne_ok
    | some c =>
      rw [hc] at h
      obtain ⟨w, hw, hwc⟩ := Option.bind_eq_some_iff.1 hc
      obtain ⟨l, ts₁, rfl, hl⟩ := nextWord_eq_some_iff.1 hw
      obtain rfl := word_eq_of_ofWord? hwc
      refine ⟨l, ts₁, rfl, ?_⟩
      cases c with
      | move =>
        have hread : (operandOf operand >>= fun x => pure (.move x)) ts₁ = .ok a rest := h
        obtain ⟨x, _, hx, ha⟩ := bind_eq_ok_iff.1 hread
        cases ha
        exact ⟨hl, (operandOf_operand?_iff (a := .move x) (.inl rfl)).1 hx⟩
      | wait =>
        have hread : (operandOf operand >>= fun x => pure (.wait x)) ts₁ = .ok a rest := h
        obtain ⟨x, _, hx, ha⟩ := bind_eq_ok_iff.1 hread
        cases ha
        exact ⟨hl, (operandOf_operand?_iff (a := .wait x) (.inr rfl)).1 hx⟩
      | _ =>
        cases h
        exact ⟨hl, .inl ⟨rfl, rfl, by simp⟩⟩
  · rintro ⟨l, ts₁, rfl, hl, h⟩
    rw [nextWord_cons hl, Option.bind_some, ofWord?_none_eq]
    cases a with
    | move x =>
      have hx := (operandOf_operand?_iff (.inl rfl)).2 h
      exact bind_eq_ok_iff.2 ⟨(), ts₁, rfl, bind_eq_ok_iff.2 ⟨x, _, hx, rfl⟩⟩
    | wait x =>
      have hx := (operandOf_operand?_iff (.inr rfl)).2 h
      exact bind_eq_ok_iff.2 ⟨(), ts₁, rfl, bind_eq_ok_iff.2 ⟨x, _, hx, rfl⟩⟩
    | _ =>
      obtain rfl : rest = ts₁ := by simpa [Command.operand?] using h
      rfl

end Actions

/-! ### Blocks -/

section Blocks

variable {item : Parser Statement} {more inside : Parser Block} {test : Parser Cond}

theorem statementsOf_eq_ok_iff {b : Block} :
    statementsOf item more ts = .ok b rest ↔
      ts ≠ [] ∧ ∃ st ts₁, item ts = .ok st ts₁ ∧
        ((nextToken ts₁ = some .rbrace ∧ b = .single st ∧ rest = ts₁) ∨
          (nextToken ts₁ ≠ some .rbrace ∧
            ∃ b', b = .cons st b' ∧ more ts₁ = .ok b' rest)) := by
  unfold statementsOf
  rw [peek_bind]
  constructor
  · intro h
    split_ifs at h with hend
    · exact absurd h fail_ne_ok
    · obtain ⟨st, ts₁, hst, h⟩ := bind_eq_ok_iff.1 h
      refine ⟨fun hnil => hend (nextToken_eq_none_iff.2 hnil), st, ts₁, hst, ?_⟩
      rw [peek_bind] at h
      split_ifs at h with hclose
      · cases h
        exact .inl ⟨hclose, rfl, rfl⟩
      · obtain ⟨b', _, hb', h⟩ := bind_eq_ok_iff.1 h
        cases h
        exact .inr ⟨hclose, b', rfl, hb'⟩
  · rintro ⟨hne, st, ts₁, hst, h⟩
    rw [if_neg fun hend => hne (nextToken_eq_none_iff.1 hend)]
    refine bind_eq_ok_iff.2 ⟨st, ts₁, hst, ?_⟩
    rw [peek_bind]
    obtain ⟨hclose, rfl, rfl⟩ | ⟨hopen, b', rfl, hb'⟩ := h
    · rw [if_pos hclose]
      rfl
    · rw [if_neg hopen]
      exact bind_eq_ok_iff.2 ⟨b', _, hb', rfl⟩

theorem blockOf_eq_ok_iff {b : Block} :
    blockOf inside ts = .ok b rest ↔
      ∃ l₁ ts₁ l₂, ts = l₁ :: ts₁ ∧ l₁.token = .lbrace ∧ nextToken ts₁ ≠ some .rbrace ∧
        inside ts₁ = .ok b (l₂ :: rest) ∧ l₂.token = .rbrace := by
  unfold blockOf
  constructor
  · intro h
    obtain ⟨l₁, ts₁, rfl, h₁, hinside⟩ := expect_bind_eq_ok_iff.1 h
    rw [peek_bind] at hinside
    split_ifs at hinside with hempty
    · exact absurd hinside fail_ne_ok
    · obtain ⟨b', ts₂, hb', hclose⟩ := bind_eq_ok_iff.1 hinside
      obtain ⟨l₂, ts₃, rfl, h₂, hok⟩ := expect_bind_eq_ok_iff.1 hclose
      cases hok
      exact ⟨l₁, ts₁, l₂, rfl, h₁, hempty, hb', h₂⟩
  · rintro ⟨l₁, ts₁, l₂, rfl, h₁, hempty, hb, h₂⟩
    refine expect_bind_eq_ok_iff.2 ⟨l₁, ts₁, rfl, h₁, ?_⟩
    rw [peek_bind, if_neg hempty]
    exact bind_eq_ok_iff.2 ⟨b, _, hb, expect_bind_eq_ok_iff.2 ⟨l₂, rest, rfl, h₂, rfl⟩⟩

/-- A second pair of braces is read whenever there is one: two braces in a row begin no block. -/
theorem elseBlockOf_eq_ok_iff {b : Block} :
    elseBlockOf inside ts = .ok b rest ↔
      ((ts.take 2).map Lexeme.token ≠ [.lbrace, .lbrace] ∧ blockOf inside ts = .ok b rest) ∨
        ∃ l₁ ts₁ l₂, ts = l₁ :: ts₁ ∧ l₁.token = .lbrace ∧
          blockOf inside ts₁ = .ok b (l₂ :: rest) ∧ l₂.token = .rbrace := by
  unfold elseBlockOf
  rw [get_bind]
  constructor
  · intro h
    split_ifs at h with htwo
    · obtain ⟨l₁, ts₁, rfl, h₁, hinside⟩ := expect_bind_eq_ok_iff.1 h
      obtain ⟨b', ts₂, hb', hclose⟩ := bind_eq_ok_iff.1 hinside
      obtain ⟨l₂, ts₃, rfl, h₂, hok⟩ := expect_bind_eq_ok_iff.1 hclose
      cases hok
      exact .inr ⟨l₁, ts₁, l₂, rfl, h₁, hb', h₂⟩
    · exact .inl ⟨htwo, h⟩
  · rintro (⟨htwo, hb⟩ | ⟨l₁, ts₁, l₂, rfl, h₁, hb, h₂⟩)
    · rwa [if_neg htwo]
    · obtain ⟨l, _, _, rfl, hl, _⟩ := blockOf_eq_ok_iff.1 hb
      rw [if_pos (by simp [h₁, hl])]
      exact expect_bind_eq_ok_iff.2 ⟨l₁, _, rfl, h₁, bind_eq_ok_iff.2
        ⟨b, _, hb, expect_bind_eq_ok_iff.2 ⟨l₂, rest, rfl, h₂, rfl⟩⟩⟩

/-! ### Statements -/

theorem loopOf_eq_ok_iff {st : Statement} :
    loopOf inside ts = .ok st rest ↔
      ∃ l ts₁ b, ts = l :: ts₁ ∧ l.token = .word "loop" ∧ st = .loop b ∧
        blockOf inside ts₁ = .ok b rest := by
  unfold loopOf
  simp only [bind_eq_ok_iff, expect_eq_ok_iff, pure_apply, EStateM.Result.ok.injEq]
  constructor
  · rintro ⟨_, ts₁, ⟨l, rfl, hl⟩, b, _, hb, rfl, rfl⟩
    exact ⟨l, ts₁, b, rfl, hl, rfl, hb⟩
  · rintro ⟨l, ts₁, b, rfl, hl, rfl, hb⟩
    exact ⟨(), ts₁, ⟨l, rfl, hl⟩, b, rest, hb, rfl, rfl⟩

theorem whileOf_eq_ok_iff {st : Statement} :
    whileOf test inside ts = .ok st rest ↔
      ∃ l ts₁ c ts₂ b, ts = l :: ts₁ ∧ l.token = .word "while" ∧ st = .whileLoop c b ∧
        parens test ts₁ = .ok c ts₂ ∧ blockOf inside ts₂ = .ok b rest := by
  unfold whileOf
  simp only [bind_eq_ok_iff, expect_eq_ok_iff, pure_apply, EStateM.Result.ok.injEq]
  constructor
  · rintro ⟨_, ts₁, ⟨l, rfl, hl⟩, c, ts₂, hc, b, _, hb, rfl, rfl⟩
    exact ⟨l, ts₁, c, ts₂, b, rfl, hl, rfl, hc, hb⟩
  · rintro ⟨l, ts₁, c, ts₂, b, rfl, hl, rfl, hc, hb⟩
    exact ⟨(), ts₁, ⟨l, rfl, hl⟩, c, ts₂, hc, b, rest, hb, rfl, rfl⟩

theorem ifOf_eq_ok_iff {st : Statement} :
    ifOf test inside ts = .ok st rest ↔
      ∃ l ts₁ c ts₂ b ts₃, ts = l :: ts₁ ∧ l.token = .word "if" ∧
        parens test ts₁ = .ok c ts₂ ∧ blockOf inside ts₂ = .ok b ts₃ ∧
        ((nextToken ts₃ ≠ some (.word "else") ∧ st = .ifThen c b ∧ rest = ts₃) ∨
          ∃ l' ts₄ b', ts₃ = l' :: ts₄ ∧ l'.token = .word "else" ∧ st = .ifElse c b b' ∧
            elseBlockOf inside ts₄ = .ok b' rest) := by
  unfold ifOf
  constructor
  · intro h
    obtain ⟨l, ts₁, rfl, hl, htest⟩ := expect_bind_eq_ok_iff.1 h
    obtain ⟨c, ts₂, hc, hyes⟩ := bind_eq_ok_iff.1 htest
    obtain ⟨b, ts₃, hb, hno⟩ := bind_eq_ok_iff.1 hyes
    refine ⟨l, ts₁, c, ts₂, b, ts₃, rfl, hl, hc, hb, ?_⟩
    rw [peek_bind] at hno
    split_ifs at hno with helse
    · obtain ⟨l', ts₄, rfl, hl'⟩ := nextToken_eq_some_iff.1 helse
      rw [skip_bind] at hno
      obtain ⟨b', _, hb', hok⟩ := bind_eq_ok_iff.1 hno
      cases hok
      exact .inr ⟨l', ts₄, b', rfl, hl', rfl, hb'⟩
    · cases hno
      exact .inl ⟨helse, rfl, rfl⟩
  · rintro ⟨l, ts₁, c, ts₂, b, ts₃, rfl, hl, hc, hb, h⟩
    refine expect_bind_eq_ok_iff.2 ⟨l, ts₁, rfl, hl, bind_eq_ok_iff.2 ⟨c, ts₂, hc,
      bind_eq_ok_iff.2 ⟨b, ts₃, hb, ?_⟩⟩⟩
    rw [peek_bind]
    obtain ⟨helse, rfl, rfl⟩ | ⟨l', ts₄, b', rfl, hl', rfl, hb'⟩ := h
    · rw [if_neg helse]
      rfl
    · rw [if_pos (by simp [hl']), skip_bind]
      exact bind_eq_ok_iff.2 ⟨b', _, hb', rfl⟩

theorem statementOf_eq (act : Parser Action) (test : Parser Cond) (inside : Parser Block) :
    statementOf act test inside = (do
      let w? ← peekWord
      if w? = some "loop" then loopOf inside
      else if w? = some "if" then ifOf test inside
      else if w? = some "while" then whileOf test inside
      else do
        let a ← act
        expect .semicolon
        return .action a) := by
  unfold statementOf
  refine bind_congr fun w? => ?_
  split <;> simp_all

/-- The words of the compound statements spell no command. -/
theorem word_not_compound (a : Command α) :
    a.word ≠ "loop" ∧ a.word ≠ "if" ∧ a.word ≠ "while" := by
  cases a with
  | shield raised => cases raised <;> simp [Command.word]
  | _ => simp [Command.word]

theorem statementOf_eq_ok_iff {operand : Parser Expr} {st : Statement} :
    statementOf (actionOf operand) test inside ts = .ok st rest ↔
      loopOf inside ts = .ok st rest ∨ ifOf test inside ts = .ok st rest ∨
        whileOf test inside ts = .ok st rest ∨
        ∃ a l, st = .action a ∧ actionOf operand ts = .ok a (l :: rest) ∧ l.token = .semicolon := by
  rw [statementOf_eq, peekWord_bind]
  constructor
  · intro h
    split_ifs at h
    · exact .inl h
    · exact .inr (.inl h)
    · exact .inr (.inr (.inl h))
    · obtain ⟨a, ts₁, ha, hend⟩ := bind_eq_ok_iff.1 h
      obtain ⟨l, ts₂, rfl, hl, hok⟩ := expect_bind_eq_ok_iff.1 hend
      cases hok
      exact .inr (.inr (.inr ⟨a, l, rfl, ha, hl⟩))
  · rintro (h | h | h | ⟨a, l, rfl, ha, hl⟩)
    · obtain ⟨l, ts₁, _, rfl, hl, _⟩ := loopOf_eq_ok_iff.1 h
      rwa [nextWord_cons hl, if_pos rfl]
    · obtain ⟨l, ts₁, _, _, _, _, rfl, hl, _⟩ := ifOf_eq_ok_iff.1 h
      rwa [nextWord_cons hl, if_neg (by decide), if_pos rfl]
    · obtain ⟨l, ts₁, _, _, _, rfl, hl, _⟩ := whileOf_eq_ok_iff.1 h
      rwa [nextWord_cons hl, if_neg (by decide), if_neg (by decide), if_pos rfl]
    · obtain ⟨l', ts₁, rfl, hl', _⟩ := actionOf_eq_ok_iff.1 ha
      obtain ⟨hloop, hif, hwhile⟩ := word_not_compound a
      rw [nextWord_cons hl', if_neg (by simpa using hloop), if_neg (by simpa using hif),
        if_neg (by simpa using hwhile)]
      exact bind_eq_ok_iff.2 ⟨a, _, ha, expect_bind_eq_ok_iff.2 ⟨l, rest, rfl, hl, rfl⟩⟩

/-! ### Programs -/

theorem sequenceOf_eq_ok_iff {b : Block} :
    sequenceOf item more ts = .ok b rest ↔
      ∃ st ts₁, item ts = .ok st ts₁ ∧
        ((ts₁ = [] ∧ b = .single st ∧ rest = []) ∨
          (ts₁ ≠ [] ∧ ∃ b', b = .cons st b' ∧ more ts₁ = .ok b' rest)) := by
  rw [sequenceOf, bind_eq_ok_iff]
  refine exists_congr fun st => exists_congr fun ts₁ => and_congr_right fun _ => ?_
  rw [peek_bind]
  constructor
  · intro h
    split_ifs at h with hend
    · obtain rfl := nextToken_eq_none_iff.1 hend
      cases h
      exact .inl ⟨rfl, rfl, rfl⟩
    · obtain ⟨b', _, hb', hok⟩ := bind_eq_ok_iff.1 h
      cases hok
      exact .inr ⟨fun hnil => hend (nextToken_eq_none_iff.2 hnil), b', rfl, hb'⟩
  · rintro (⟨rfl, rfl, rfl⟩ | ⟨hne, b', rfl, hb'⟩)
    · rfl
    · rw [if_neg fun hend => hne (nextToken_eq_none_iff.1 hend)]
      exact bind_eq_ok_iff.2 ⟨b', _, hb', rfl⟩

theorem program_eq_ok_iff {p : Program} :
    program ts = .ok p rest ↔
      tooDeep? 0 ts = none ∧ ts ≠ [] ∧
        sequenceWithin (statementWithin ts.length) ts.length ts = .ok p.body rest := by
  have hcheck (f : Unit → Parser Program) :
      (checkNesting >>= f) ts = .ok p rest ↔ tooDeep? 0 ts = none ∧ f () ts = .ok p rest := by
    rw [bind_eq_ok_iff, checkNesting]
    cases tooDeep? 0 ts <;> simp [Unique.exists_iff]
  unfold program
  rw [hcheck, peek_bind]
  refine and_congr_right fun _ => ?_
  by_cases hend : nextToken ts = none
  · rw [if_pos hend]
    exact iff_of_false fail_ne_ok fun h => h.1 (nextToken_eq_none_iff.1 hend)
  · rw [if_neg hend, remaining_bind, bind_eq_ok_iff]
    constructor
    · rintro ⟨b, _, hb, hok⟩
      cases hok
      exact ⟨fun hnil => hend (nextToken_eq_none_iff.2 hnil), hb⟩
    · rintro ⟨-, hb⟩
      exact ⟨p.body, rest, hb, rfl⟩

/-- A program is refused for its nesting, because it is empty, or where its statements stop. -/
theorem program_eq_error_iff {e : ParseError} :
    program ts = .error e rest ↔
      (∃ bad, tooDeep? 0 ts = some bad ∧ e = .before .nestingTooDeep bad ∧ rest = ts) ∨
        (tooDeep? 0 ts = none ∧
          ((ts = [] ∧ e = .before .noStatements [] ∧ rest = []) ∨
            (ts ≠ [] ∧
              sequenceWithin (statementWithin ts.length) ts.length ts = .error e rest))) := by
  have hcheck (f : Unit → Parser Program) :
      (checkNesting >>= f) ts = .error e rest ↔
        (∃ bad, tooDeep? 0 ts = some bad ∧ e = .before .nestingTooDeep bad ∧ rest = ts) ∨
          (tooDeep? 0 ts = none ∧ f () ts = .error e rest) := by
    rw [bind_eq_error_iff, checkNesting]
    cases tooDeep? 0 ts <;> simp [Unique.exists_iff, eq_comm]
  unfold program
  rw [hcheck, peek_bind]
  refine or_congr_right (and_congr_right fun _ => ?_)
  cases ts with
  | nil => simp [fail, eq_comm]
  | cons l ts =>
    rw [if_neg (by simp), remaining_bind, bind_eq_error_iff]
    simp

end Blocks

end Parser

end RobotControl
