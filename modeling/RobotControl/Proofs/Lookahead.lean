import Mathlib.Tactic
import RobotControl.Proofs.Parsing

/-!
# One token ahead

A production looks at the tokens that it uses up, and at one token after them.  On another token
list that agrees with the first one so far, on any lines, it ends in the same way.

* `Parser.resultAt`: a value or a cause, in front of the tokens that are left;
* `Parser.Alike n m p q`: what `p` does on at most `n` tokens, `q` does on at most `m` tokens that
  agree with them as far as `p` has looked;
* one lemma for each production.  The two bounds of a production may differ: a bound that covers the
  tokens is as good as any other.

The block after `else` is the only phrase that is read with two tokens ahead; `elseBlockOf_eq` reads
it with one.
-/

namespace RobotControl

/-! ### Tokens that are used up -/

namespace Spans

variable {ts ts' rest rest' : List Lexeme} {us : List Token}

theorem length_eq (h : Spans ts us rest) : ts.length = us.length + rest.length := by
  induction us generalizing ts with
  | nil => simp [nil_iff.1 h]
  | cons t us ih =>
    obtain ⟨l, ts₁, rfl, -, h⟩ := h
    rw [List.length_cons, List.length_cons, ih h]
    omega

theorem iff_exists_append :
    Spans ts us rest ↔ ∃ pre, ts = pre ++ rest ∧ pre.map Lexeme.token = us := by
  constructor
  · intro h
    induction us generalizing ts with
    | nil => exact ⟨[], nil_iff.1 h, rfl⟩
    | cons t us ih =>
      obtain ⟨l, ts₁, rfl, rfl, h⟩ := h
      obtain ⟨pre, rfl, rfl⟩ := ih h
      exact ⟨l :: pre, rfl, rfl⟩
  · rintro ⟨pre, rfl, rfl⟩
    induction pre with
    | nil => rfl
    | cons l pre ih => exact cons rfl ih

/-- Lists that agree in the tokens `us` and in the one after them agree in their first token. -/
theorem nextToken_congr (h : Spans ts us rest) (h' : Spans ts' us rest')
    (hnext : Parser.nextToken rest' = Parser.nextToken rest) :
    Parser.nextToken ts' = Parser.nextToken ts := by
  cases us with
  | nil => rwa [nil_iff.1 h, nil_iff.1 h']
  | cons t us => rw [h.nextToken, h'.nextToken]

end Spans

/-- Every phrase has at least one token. -/
theorem Derives.length_pos {us : List Token} {x : Phrase} (h : Derives us x) : 0 < us.length := by
  induction h with
  | single _ ih | program _ ih => exact ih
  | cons _ _ ih =>
    rw [List.length_append]
    omega
  | _ => simp

namespace Parser

variable {α β : Type}

theorem Sound.length_lt {p : Parser α} {φ : α → Phrase} (hp : Sound p φ) {ts rest : List Lexeme}
    {a : α} (h : p ts = .ok a rest) : rest.length < ts.length := by
  obtain ⟨us, hs, hd⟩ := hp h
  have hlen := hs.length_eq
  have hpos := hd.length_pos
  omega

/-! ### Ending alike -/

/-- How a production ends, with a value or a cause, in front of the tokens that are left. -/
def resultAt (o : Except Cause α) (rest : List Lexeme) :
    EStateM.Result ParseError (List Lexeme) α :=
  match o with
  | .ok a => .ok a rest
  | .error c => .error (.before c rest) rest

/-- On `ts`, `p` uses up some tokens and ends in some way; on every list of at most `m` tokens that
agrees with `ts` in these tokens and in the next one, `q` uses up the same tokens and ends in the
same way. -/
def AlikeAt (m : Nat) (p q : Parser α) (ts : List Lexeme) : Prop :=
  ∃ o us rest, Spans ts us rest ∧ p ts = resultAt o rest ∧
    ∀ ts' rest', ts'.length ≤ m → Spans ts' us rest' → nextToken rest' = nextToken rest →
      q ts' = resultAt o rest'

/-- What `p` does on at most `n` tokens, `q` does on at most `m` tokens that agree with them as far
as `p` has looked. -/
def Alike (n m : Nat) (p q : Parser α) : Prop := ∀ ts, ts.length ≤ n → AlikeAt m p q ts

variable {n m n' m' : Nat} {p q : Parser α} {f g : α → Parser β} {ts : List Lexeme}

theorem AlikeAt.mono (hm : m' ≤ m) (h : AlikeAt m p q ts) : AlikeAt m' p q ts := by
  obtain ⟨o, us, rest, hs, hp, hq⟩ := h
  exact ⟨o, us, rest, hs, hp, fun ts' rest' hts' => hq ts' rest' (hts'.trans hm)⟩

theorem Alike.mono (hn : n' ≤ n) (hm : m' ≤ m) (h : Alike n m p q) : Alike n' m' p q :=
  fun ts hts => (h ts (hts.trans hn)).mono hm

/-- What follows from a failure of `p`: it is reported in front of the tokens that are left, and `q`
fails for the same cause. -/
theorem AlikeAt.error (h : AlikeAt m p q ts) {e : ParseError} {rest : List Lexeme}
    (hp : p ts = .error e rest) :
    ∃ c pre, e = .before c rest ∧ ts = pre ++ rest ∧
      ∀ ts' rest', ts'.length ≤ m → Spans ts' (pre.map Lexeme.token) rest' →
        nextToken rest' = nextToken rest → q ts' = .error (.before c rest') rest' := by
  obtain ⟨o, us, rest₁, hs, hpo, hq⟩ := h
  rw [hp] at hpo
  cases o with
  | ok a => cases hpo
  | error c =>
    cases hpo
    obtain ⟨pre, rfl, rfl⟩ := Spans.iff_exists_append.1 hs
    exact ⟨c, pre, rfl, rfl, hq⟩

theorem AlikeAt.exists_resultAt (h : AlikeAt m p q ts) (hm : ts.length ≤ m) :
    ∃ o rest, rest <:+ ts ∧ p ts = resultAt o rest ∧ q ts = resultAt o rest := by
  obtain ⟨o, us, rest, hs, hp, hq⟩ := h
  obtain ⟨pre, hpre, -⟩ := Spans.iff_exists_append.1 hs
  exact ⟨o, rest, ⟨pre, hpre.symm⟩, hp, hq ts rest hm hs rfl⟩

theorem AlikeAt.eq (h : AlikeAt m p q ts) (hm : ts.length ≤ m) : p ts = q ts := by
  obtain ⟨o, rest, -, hp, hq⟩ := h.exists_resultAt hm
  rw [hp, hq]

theorem AlikeAt.of_eq {p' : Parser α} (h : AlikeAt m p q ts) (hp : p ts = p' ts) :
    AlikeAt m p' q ts := by
  obtain ⟨o, us, rest, hs, hpo, hq⟩ := h
  exact ⟨o, us, rest, hs, hp.symm.trans hpo, hq⟩

/-- A production that uses up nothing, and looks at the next token at most. -/
theorem Alike.of_peek {F : Option Token → Except Cause α}
    (hp : ∀ ts, p ts = resultAt (F (nextToken ts)) ts)
    (hq : ∀ ts, q ts = resultAt (F (nextToken ts)) ts) : Alike n m p q := by
  intro ts _
  refine ⟨F (nextToken ts), [], ts, rfl, hp ts, ?_⟩
  rintro ts' rest' - rfl hnext
  rw [hq, hnext]

theorem Alike.pure (a : α) : Alike n m (pure a : Parser α) (pure a) :=
  .of_peek (F := fun _ => .ok a) (fun _ => rfl) fun _ => rfl

theorem Alike.fail (c : Cause) : Alike n m (fail c : Parser α) (fail c) :=
  .of_peek (F := fun _ => .error c) (fun _ => rfl) fun _ => rfl

theorem Alike.peek : Alike n m peek peek :=
  .of_peek (F := fun t? => .ok t?) (fun _ => rfl) fun _ => rfl

theorem Alike.peekWord : Alike n m peekWord peekWord := by
  have hword (ts : List Lexeme) :
      Parser.peekWord ts = resultAt (.ok ((nextToken ts).bind Token.word?)) ts := by
    cases ts <;> rfl
  exact .of_peek (F := fun t? => .ok (t?.bind Token.word?)) hword hword

/-- The next token is used up, if there is one. -/
theorem Alike.skip : Alike n m skip skip := by
  intro ts _
  cases ts with
  | nil =>
    refine ⟨.ok (), [], [], rfl, rfl, ?_⟩
    rintro ts' rest' - rfl hnext
    rw [nextToken_eq_none_iff.1 hnext]
    rfl
  | cons l ts =>
    refine ⟨.ok (), [l.token], ts, .single rfl, rfl, ?_⟩
    rintro _ rest' - ⟨l', _, rfl, -, rfl⟩ -
    rfl

/-- One production after the other.  The second one may be bound to fewer tokens, provided that the
first one leaves no more. -/
theorem AlikeAt.bind_of_le {k : Nat} (hp : AlikeAt m p q ts)
    (hf : ∀ a us ts₁, p ts = .ok a ts₁ → Spans ts us ts₁ → AlikeAt k (f a) (g a) ts₁ ∧
      ∀ ts' rest, Spans ts' us rest → nextToken rest = nextToken ts₁ → ts'.length ≤ m →
        rest.length ≤ k) :
    AlikeAt m (p >>= f) (q >>= g) ts := by
  obtain ⟨o, us, ts₁, hs, hpo, hqo⟩ := hp
  cases o with
  | error c =>
    refine ⟨.error c, us, ts₁, hs, bind_eq_error_iff.2 (.inl hpo), ?_⟩
    intro ts' rest' hts' hs' hnext
    exact bind_eq_error_iff.2 (.inl (hqo ts' rest' hts' hs' hnext))
  | ok a =>
    obtain ⟨⟨o, vs, rest, hs₁, hfo, hgo⟩, hle⟩ := hf a us ts₁ hpo hs
    refine ⟨o, us ++ vs, rest, hs.append hs₁, ?_, ?_⟩
    · show EStateM.bind p f ts = _
      rw [EStateM.bind, hpo]
      exact hfo
    · intro ts' rest' hts' hs' hnext
      obtain ⟨ts₁', hus, hvs⟩ := Spans.append_iff.1 hs'
      have hnext₁ := hs₁.nextToken_congr hvs hnext
      have hgo' := hgo ts₁' rest' (hle ts' ts₁' hus hnext₁ hts') hvs hnext
      show EStateM.bind q g ts' = _
      rw [EStateM.bind, hqo ts' ts₁' hts' hus hnext₁]
      exact hgo'

theorem AlikeAt.bind (hp : AlikeAt m p q ts)
    (hf : ∀ a us ts₁, p ts = .ok a ts₁ → Spans ts us ts₁ → AlikeAt m (f a) (g a) ts₁) :
    AlikeAt m (p >>= f) (q >>= g) ts := by
  refine hp.bind_of_le fun a us ts₁ h hs => ⟨hf a us ts₁ h hs, fun ts' rest hs' _ hts' => ?_⟩
  have hlen := hs'.length_eq
  omega

theorem Alike.bind (hp : Alike n m p q) (hf : ∀ a, Alike n m (f a) (g a)) :
    Alike n m (p >>= f) (q >>= g) := by
  intro ts hts
  refine (hp ts hts).bind fun a us ts₁ _ hs => hf a ts₁ ?_
  have hlen := hs.length_eq
  omega

/-- After a production that uses up a token, there is one token less. -/
theorem AlikeAt.bind_of_lt (hp : AlikeAt (m + 1) p q ts)
    (hlt : ∀ a rest, p ts = .ok a rest → rest.length < ts.length)
    (hf : ∀ a ts₁, p ts = .ok a ts₁ → AlikeAt m (f a) (g a) ts₁) :
    AlikeAt (m + 1) (p >>= f) (q >>= g) ts := by
  refine hp.bind_of_le fun a us ts₁ h hs => ⟨hf a ts₁ h, fun ts' rest hs' _ hts' => ?_⟩
  have hlen := hs.length_eq
  have hlen' := hs'.length_eq
  have hshort := hlt a ts₁ h
  omega

theorem Alike.bind_of_lt (hp : Alike (n + 1) (m + 1) p q)
    (hlt : ∀ ts a rest, p ts = .ok a rest → rest.length < ts.length)
    (hf : ∀ a, Alike n m (f a) (g a)) : Alike (n + 1) (m + 1) (p >>= f) (q >>= g) := by
  intro ts hts
  refine (hp ts hts).bind_of_lt (hlt ts) fun a ts₁ h => hf a ts₁ ?_
  have hshort := hlt ts a ts₁ h
  omega

theorem Alike.skip_bind {f g : Unit → Parser β} (hf : Alike n m (f ()) (g ())) :
    Alike (n + 1) (m + 1) (Parser.skip >>= f) (Parser.skip >>= g) := by
  intro ts hts
  refine AlikeAt.bind_of_le (k := m) (Alike.skip ts hts) ?_
  rintro ⟨⟩ us ts₁ h hs
  cases h
  cases ts with
  | nil =>
    refine ⟨hf [] (Nat.zero_le n), fun ts' rest _ hnext _ => ?_⟩
    rw [nextToken_eq_none_iff.1 hnext]
    exact Nat.zero_le m
  | cons l ts =>
    have hlen := hs.length_eq
    refine ⟨hf ts (Nat.le_of_succ_le_succ hts), fun ts' rest hs' _ hts' => ?_⟩
    have hlen' := hs'.length_eq
    simp only [List.tail_cons, List.length_cons] at hlen
    omega

/-- A look at the next token. -/
theorem AlikeAt.peek_bind {f g : Option Token → Parser β}
    (h : AlikeAt m (f (nextToken ts)) (g (nextToken ts)) ts) :
    AlikeAt m (Parser.peek >>= f) (Parser.peek >>= g) ts := by
  obtain ⟨o, us, rest, hs, hf, hg⟩ := h
  refine ⟨o, us, rest, hs, hf, fun ts' rest' hts' hs' hnext => ?_⟩
  rw [Parser.peek_bind, hs.nextToken_congr hs' hnext]
  exact hg ts' rest' hts' hs' hnext

/-! ### Phrases inside a statement -/

theorem Alike.expect (t : Token) : Alike n m (expect t) (expect t) := by
  refine Alike.peek.bind fun t? => ?_
  split_ifs
  · exact .skip
  · exact .fail _

theorem Alike.expect_bind {f g : Unit → Parser β} (t : Token) (hf : Alike n m (f ()) (g ())) :
    Alike (n + 1) (m + 1) (Parser.expect t >>= f) (Parser.expect t >>= g) := by
  refine (Alike.expect t).bind_of_lt ?_ fun _ => hf
  intro ts u rest h
  obtain ⟨l, rfl, -⟩ := expect_eq_ok_iff.1 h
  exact Nat.lt_succ_self _

theorem Alike.keyword [Keyword α] (c : Cause) :
    Alike n m (keyword c : Parser α) (keyword c) := by
  refine Alike.peekWord.bind fun w? => ?_
  split
  · exact Alike.skip.bind fun _ => .pure _
  · exact .fail c

theorem Alike.keyword_bind [Keyword α] {c : Cause} (hf : ∀ a, Alike n m (f a) (g a)) :
    Alike (n + 1) (m + 1) (Parser.keyword c >>= f) (Parser.keyword c >>= g) := by
  refine (Alike.keyword c).bind_of_lt ?_ hf
  intro ts a rest h
  obtain ⟨l, w, rfl, -, -⟩ := keyword_eq_ok_iff.1 h
  exact Nat.lt_succ_self _

theorem Alike.number : Alike n m number number := by
  refine Alike.peekWord.bind fun w? => ?_
  split
  · exact .fail _
  · split
    · exact Alike.skip.bind fun _ => .pure _
    · exact .fail _

theorem Alike.parens (hp : Alike n m p q) : Alike n m (parens p) (parens q) :=
  (Alike.expect _).bind fun _ => hp.bind fun a => (Alike.expect _).bind fun _ => .pure a

theorem Alike.pair (hp : Alike n m p q) : Alike n m (pair p) (pair q) :=
  (Alike.expect _).bind fun _ => hp.bind fun a => (Alike.expect _).bind fun _ => hp.bind fun b =>
    (Alike.expect _).bind fun _ => .pure (a, b)

/-- Productions that say the same of no tokens. -/
theorem Alike.zero_left {c : Cause} (hp : p [] = resultAt (.error c) [])
    (hq : q [] = resultAt (.error c) []) : Alike 0 m p q := by
  intro ts hts
  obtain rfl := List.eq_nil_of_length_eq_zero (Nat.le_zero.1 hts)
  refine ⟨.error c, [], [], rfl, hp, ?_⟩
  rintro ts' rest' - rfl hnext
  rw [nextToken_eq_none_iff.1 hnext, hq]

theorem expressionOf_alike {p q : Parser Expr} (hp : Alike n m p q) :
    Alike (n + 1) (m + 1) (expressionOf p) (expressionOf q) := by
  refine Alike.peekWord.bind fun w? => ?_
  split_ifs
  · exact Alike.number.bind fun v => .pure _
  · split
    · exact .keyword_bind fun op => hp.pair.bind fun ab => .pure _
    · exact (Alike.keyword _).bind fun s => .pure _

theorem expression_alike (h : n ≤ m) : Alike n m (expressionWithin n) (expressionWithin m) := by
  induction n generalizing m with
  | zero =>
    refine .zero_left (c := .noSensor) rfl ?_
    cases m <;> rfl
  | succ n ih =>
    obtain ⟨m, rfl⟩ := Nat.exists_eq_add_of_lt h
    exact expressionOf_alike (ih (Nat.le_add_right n m))

section Operands

variable {operand operand' : Parser Expr} (hoperand : Alike n m operand operand')

include hoperand

theorem conditionOf_alike {p q : Parser Cond} (hp : Alike n m p q) :
    Alike (n + 1) (m + 1) (conditionOf p operand) (conditionOf q operand') := by
  rw [conditionOf_eq, conditionOf_eq]
  refine Alike.peekWord.bind fun w? => ?_
  split_ifs
  · exact .skip_bind (hp.pair.bind fun ab => .pure _)
  · exact .skip_bind (hp.pair.bind fun ab => .pure _)
  · exact .expect_bind _ (hp.parens.bind fun c => .pure _)
  · exact .keyword_bind fun op => hoperand.pair.bind fun ab => .pure _

theorem operandOf_alike : Alike n m (operandOf operand) (operandOf operand') := by
  refine Alike.peek.bind fun t? => ?_
  split_ifs
  · exact hoperand.parens.bind fun e => .pure _
  · exact .pure none

theorem actionOf_alike : Alike (n + 1) (m + 1) (actionOf operand) (actionOf operand') := by
  refine Alike.peekWord.bind fun w? => ?_
  split
  · exact .fail _
  · exact .skip_bind ((operandOf_alike hoperand).bind fun x => .pure _)
  · exact .skip_bind ((operandOf_alike hoperand).bind fun x => .pure _)
  · exact Alike.skip.bind fun _ => .pure _

end Operands

theorem condition_alike (h : n ≤ m) : Alike n m (conditionWithin n) (conditionWithin m) := by
  induction n generalizing m with
  | zero =>
    refine .zero_left (c := .noComparison) rfl ?_
    cases m <;> rfl
  | succ n ih =>
    obtain ⟨m, rfl⟩ := Nat.exists_eq_add_of_lt h
    have hnm := Nat.le_add_right n m
    exact conditionOf_alike (expression_alike hnm) (ih hnm)

/-! ### Blocks and statements -/

/-- What stands in a block after its first brace. -/
def insideOf (inside : Parser Block) : Parser Block := do
  if (← peek) = some .rbrace then fail .emptyBlock else
  let b ← inside
  expect .rbrace
  return b

theorem blockOf_eq (inside : Parser Block) :
    blockOf inside = (do expect .lbrace; insideOf inside) := rfl

/-- **The block after `else` can be read with one token ahead**: whether there is a second pair of
braces is seen after the first brace. -/
theorem elseBlockOf_eq (inside : Parser Block) :
    elseBlockOf inside = (do
      expect .lbrace
      if (← peek) = some .lbrace then do
        let b ← blockOf inside
        expect .rbrace
        return b
      else insideOf inside) := by
  funext ts
  unfold elseBlockOf
  rw [get_bind]
  by_cases hopen : nextToken ts = some .lbrace
  · obtain ⟨l, ts₁, rfl, hl⟩ := nextToken_eq_some_iff.1 hopen
    have hexpect (f : Unit → Parser Block) : (expect .lbrace >>= f) (l :: ts₁) = f () ts₁ := by
      show EStateM.bind _ _ _ = _
      rw [EStateM.bind, expect_cons hl]
    have htwo : ((l :: ts₁).take 2).map Lexeme.token = [.lbrace, .lbrace] ↔
        nextToken ts₁ = some .lbrace := by
      cases ts₁ <;> simp [hl]
    rw [hexpect, peek_bind]
    by_cases hsecond : nextToken ts₁ = some .lbrace
    · rw [if_pos (htwo.2 hsecond), if_pos hsecond, hexpect]
    · rw [if_neg (htwo.not.2 hsecond), if_neg hsecond, blockOf_eq, hexpect]
  · have htwo : (ts.take 2).map Lexeme.token ≠ [.lbrace, .lbrace] := by
      intro h
      cases ts with
      | nil => cases h
      | cons l ts₁ =>
        rw [List.take_succ_cons, List.map_cons] at h
        exact hopen (congrArg some (List.cons.inj h).1)
    have hexpect (f : Unit → Parser Block) :
        (expect .lbrace >>= f) ts = .error (.before (.missing .lbrace) ts) ts := by
      refine bind_eq_error_iff.2 (.inl ?_)
      unfold expect
      rw [peek_bind, if_neg hopen]
      rfl
    rw [if_neg htwo, blockOf_eq, hexpect, hexpect]

section Blocks

variable {test test' : Parser Cond} {p q : Parser Block} (htest : Alike n m test test')
  (hp : Alike n m p q)

include hp

theorem inside_alike : Alike n m (insideOf p) (insideOf q) := by
  refine Alike.peek.bind fun t? => ?_
  split_ifs
  · exact .fail _
  · exact hp.bind fun b => (Alike.expect _).bind fun _ => .pure b

theorem block_alike : Alike n m (blockOf p) (blockOf q) :=
  (Alike.expect _).bind fun _ => inside_alike hp

theorem else_alike : Alike n m (elseBlockOf p) (elseBlockOf q) := by
  rw [elseBlockOf_eq, elseBlockOf_eq]
  refine (Alike.expect _).bind fun _ => Alike.peek.bind fun t? => ?_
  split_ifs
  · exact (block_alike hp).bind fun b => (Alike.expect _).bind fun _ => .pure b
  · exact inside_alike hp

theorem loop_alike : Alike (n + 1) (m + 1) (loopOf p) (loopOf q) :=
  .expect_bind _ ((block_alike hp).bind fun _ => .pure _)

include htest

theorem while_alike : Alike (n + 1) (m + 1) (whileOf test p) (whileOf test' q) :=
  .expect_bind _ (htest.parens.bind fun _ => (block_alike hp).bind fun _ => .pure _)

theorem if_alike : Alike (n + 1) (m + 1) (ifOf test p) (ifOf test' q) := by
  refine .expect_bind _ (htest.parens.bind fun c => (block_alike hp).bind fun b =>
    Alike.peek.bind fun t? => ?_)
  split_ifs
  · exact Alike.skip.bind fun _ => (else_alike hp).bind fun b' => .pure _
  · exact .pure _

theorem statementOf_alike {act act' : Parser Action} (hact : Alike (n + 1) (m + 1) act act') :
    Alike (n + 1) (m + 1) (statementOf act test p) (statementOf act' test' q) := by
  rw [statementOf_eq, statementOf_eq]
  refine Alike.peekWord.bind fun w? => ?_
  split_ifs
  · exact loop_alike hp
  · exact if_alike htest hp
  · exact while_alike htest hp
  · exact hact.bind fun a => (Alike.expect _).bind fun _ => .pure _

end Blocks

section Sequences

variable {item item' : Parser Statement} {more more' : Parser Block} {k k' : Nat}
  (hlt : ∀ ts st rest, item ts = .ok st rest → rest.length < ts.length)

include hlt

theorem statementsOf_alike (hitem : Alike (n + 1) (m + 1) item item')
    (hmore : Alike n m more more') :
    Alike (n + 1) (m + 1) (statementsOf item more) (statementsOf item' more') := by
  refine Alike.peek.bind fun t? => ?_
  split_ifs
  · exact .fail _
  · refine hitem.bind_of_lt hlt fun st => Alike.peek.bind fun t? => ?_
    split_ifs
    · exact .pure _
    · exact hmore.bind fun b => .pure _

/-- Statements up to the end, of which there has to be one: without any tokens the bound would
count. -/
theorem sequenceOf_alikeAt (hitem : AlikeAt (m + 1) item item' ts)
    (hmore : ∀ ts₁, ts₁ ≠ [] → ts₁.length < ts.length → AlikeAt m more more' ts₁) :
    AlikeAt (m + 1) (sequenceOf item more) (sequenceOf item' more') ts := by
  refine hitem.bind_of_lt (hlt ts) fun st ts₁ h => .peek_bind ?_
  split_ifs with hend
  · exact Alike.pure _ ts₁ le_rfl
  · have hne : ts₁ ≠ [] := fun hnil => hend (nextToken_eq_none_iff.2 hnil)
    exact (hmore ts₁ hne (hlt ts st ts₁ h)).bind fun b _ rest _ _ => Alike.pure _ rest le_rfl

variable (hitem : Alike n m item item')

include hitem

theorem statementsWithin_alike (hkk : k ≤ k') (hk : k ≤ n) (hk' : k' ≤ m) :
    Alike k k' (statementsWithin item k) (statementsWithin item' k') := by
  induction k generalizing k' with
  | zero =>
    refine .zero_left (c := .missing .rbrace) rfl ?_
    cases k' <;> rfl
  | succ k ih =>
    obtain ⟨d, rfl⟩ := Nat.exists_eq_add_of_lt hkk
    have ih := ih (Nat.le_add_right k d) (by omega) (by omega)
    exact statementsOf_alike hlt (hitem.mono hk hk') ih

theorem sequenceWithin_alikeAt (hts : ts ≠ []) (hk : ts.length ≤ k) (hkk : k ≤ k') (hn : k ≤ n)
    (hm : k' ≤ m) : AlikeAt k' (sequenceWithin item k) (sequenceWithin item' k') ts := by
  induction k generalizing k' ts with
  | zero => exact absurd (List.eq_nil_of_length_eq_zero (Nat.le_zero.1 hk)) hts
  | succ k ih =>
    obtain ⟨d, rfl⟩ := Nat.exists_eq_add_of_lt hkk
    refine sequenceOf_alikeAt hlt (hitem.mono hn hm ts hk) fun ts₁ hne hshort => ?_
    exact ih hne (by omega) (Nat.le_add_right k d) (by omega) (by omega)

end Sequences

theorem statementWithin_length_lt (n : Nat) (ts : List Lexeme) (st : Statement)
    (rest : List Lexeme) (h : statementWithin n ts = .ok st rest) : rest.length < ts.length :=
  (statement_sound n).length_lt h

theorem statement_alike (h : n ≤ m) : Alike n m (statementWithin n) (statementWithin m) := by
  induction n generalizing m with
  | zero =>
    refine .zero_left (c := .noAction) rfl ?_
    cases m <;> rfl
  | succ n ih =>
    obtain ⟨m, rfl⟩ := Nat.exists_eq_add_of_lt h
    have hnm := Nat.le_add_right n m
    have hinside := statementsWithin_alike (statementWithin_length_lt n) (ih hnm) hnm le_rfl le_rfl
    exact statementOf_alike (condition_alike hnm) hinside (actionOf_alike (expression_alike hnm))

/-- The statements of a program: any bound that covers the tokens does. -/
theorem sequence_alikeAt (hts : ts ≠ []) (h : ts.length ≤ m) :
    AlikeAt m (sequenceWithin (statementWithin ts.length) ts.length)
      (sequenceWithin (statementWithin m) m) ts :=
  sequenceWithin_alikeAt (statementWithin_length_lt _) (statement_alike h) hts le_rfl h le_rfl
    le_rfl

end Parser

end RobotControl
