import Mathlib.Tactic
import RobotControl.Proofs.Depth
import RobotControl.Proofs.Layout

/-!
# One program after another

A text that holds a program may stand in front of any other text, with nothing between them.  It
ends outside a word, so that the two are cut independently; its delimiters are balanced, so that the
other one is nested as deep as it is alone; and its last statement ends where it does alone, unless
the next word is `else`.

* `Lexeme.later`, `tokenize_append`: the lexemes of two texts, one after the other;
* `Derives.closed`: the last token of statements is a delimiter;
* `Block.append`: the statements of two blocks, one after the other;
* `Parser.program_after`: an error behind a program is the error of what follows it.
-/

namespace RobotControl

/-! ### Lines -/

/-- The same token, `d` lines further down. -/
def Lexeme.later (d : Nat) (l : Lexeme) : Lexeme := { l with line := l.line + d }

theorem map_token_later (d : Nat) (ls : List Lexeme) :
    (ls.map (Lexeme.later d)).map Lexeme.token = ls.map Lexeme.token := by
  rw [List.map_map]
  rfl

theorem pending_later (n d : Nat) (w : List Char) :
    pending (n + d) w = (pending n w).map (Lexeme.later d) := by
  cases w <;> rfl

theorem standing_later (n d : Nat) (t : Token) :
    standing (n + d) t = (standing n t).map (Lexeme.later d) := by
  unfold standing
  split <;> rfl

theorem lexFrom_later (n d : Nat) (w cs : List Char) :
    lexFrom (n + d) w cs = (lexFrom n w cs).map (Lexeme.later d) := by
  induction cs generalizing n w with
  | nil => exact pending_later n d w
  | cons c cs ih =>
    cases hc : Token.ofChar? c with
    | none => rw [lexFrom_cons_none hc, lexFrom_cons_none hc, ih]
    | some t =>
      have hline : t.lineAfter (n + d) = t.lineAfter n + d := by
        unfold Token.lineAfter
        split <;> omega
      rw [lexFrom_cons_some hc, lexFrom_cons_some hc, pending_later, standing_later, hline, ih]
      simp

/-- **Texts are cut independently** when the first one ends outside a word; the lexemes of the
second one stand below the lines of the first. -/
theorem tokenize_append {a b : String} (h : ∀ c ∈ a.toList.getLast?, isWordChar c = false) :
    tokenize (a ++ b) = tokenize a ++ (tokenize b).map (Lexeme.later (a.toList.count '\n')) := by
  rw [tokenize_eq_lexFrom, tokenize_eq_lexFrom, tokenize_eq_lexFrom, String.toList_append,
    ← lexFrom_later]
  rcases List.eq_nil_or_concat' a.toList with hnil | ⟨cs, c, hcs⟩
  · rw [hnil]
    rfl
  · rw [hcs] at h ⊢
    cases hc : Token.ofChar? c with
    | none => simp [isWordChar_iff.2 hc] at h
    | some t =>
      rw [List.append_assoc, List.singleton_append, lexFrom_append_cons hc, lexFrom_append_cons hc]
      simp [lexFrom, pending, lineAfter]

/-- A text that ends in a word has a word as its last lexeme. -/
theorem Cuts.exists_last_word {n : Nat} {cs : List Char} {ls : List Lexeme} (h : Cuts n cs ls)
    {c : Char} (hlast : cs.getLast? = some c) (hc : isWordChar c = true) :
    ∃ l w, ls.getLast? = some l ∧ l.token = .word w := by
  induction h with
  | nil => cases hlast
  | @char n x t cs ls hx rest ih =>
    cases cs with
    | nil =>
      obtain rfl : x = c := by simpa using hlast
      rw [isWordChar_iff.1 hc] at hx
      cases hx
    | cons y cs =>
      obtain ⟨l, w, hl, hw⟩ := ih (by simpa using hlast)
      exact ⟨l, w, by simp [List.getLast?_append, hl], hw⟩
  | @word n v cs ls hne hw hend rest ih =>
    cases cs with
    | nil =>
      obtain rfl : ls = [] := by simpa [munch] using rest.munch_eq.symm
      exact ⟨_, _, rfl, rfl⟩
    | cons y cs =>
      obtain ⟨l, w, hl, hw⟩ := ih (by simpa [List.getLast?_append] using hlast)
      exact ⟨l, w, by simp [List.getLast?_cons, hl], hw⟩

/-! ### What the tokens of a program are like -/

/-- A phrase that is made of statements ends in a delimiter. -/
def Phrase.Closed (us : List Token) : Phrase → Prop
  | .statement _ | .block _ | .sequence _ | .program _ =>
    ∃ t, us.getLast? = some t ∧ ∀ w, t ≠ .word w
  | _ => True

theorem Derives.closed {us : List Token} {x : Phrase} (h : Derives us x) : x.Closed us := by
  induction h with
  | act => exact ⟨.semicolon, by simp, by simp⟩
  | block => exact ⟨.rbrace, by simp [List.getLast?_cons], by simp⟩
  | loop _ ih | ifThen _ _ _ ih | ifElse _ _ _ _ _ ih | whileLoop _ _ _ ih =>
    obtain ⟨t, ht, hne⟩ := ih
    exact ⟨t, by simp [List.getLast?_cons, List.getLast?_append, ht], hne⟩
  | ifElseBraced => exact ⟨.rbrace, by simp [List.getLast?_cons, List.getLast?_append], by simp⟩
  | single _ ih | program _ ih => exact ih
  | cons _ _ _ ih =>
    obtain ⟨t, ht, hne⟩ := ih
    exact ⟨t, by simp [List.getLast?_append, ht], hne⟩
  | _ => trivial

/-- The delimiters of a phrase are balanced. -/
theorem Derives.foldl_openAfter {us : List Token} {x : Phrase} (h : Derives us x) (d : Nat) :
    us.foldl Token.openAfter d = d := by
  induction h generalizing d <;>
    simp_all [Token.openAfter]

/-- A program ends outside a word. -/
theorem Program.isWordChar_getLast? {source : String} {p : Program}
    (hd : Derives (textTokens source) (.program p)) :
    ∀ c ∈ source.toList.getLast?, isWordChar c = false := by
  intro c hlast
  by_contra hc
  obtain ⟨l, w, hl, hw⟩ :=
    (tokenize_cuts source).exists_last_word hlast (Bool.not_eq_false _ ▸ hc)
  obtain ⟨t, ht, hne⟩ := hd.closed
  rw [textTokens, List.getLast?_map, hl, Option.map_some, Option.some.injEq] at ht
  exact hne w (ht ▸ hw)

/-! ### Statements, one after the other -/

/-- The statements of two blocks, one after the other. -/
def Block.append : Block → Block → Block
  | .single s, b => .cons s b
  | .cons s rest, b => .cons s (rest.append b)

theorem Block.toList_append (b b' : Block) : (b.append b').toList = b.toList ++ b'.toList := by
  cases b with
  | single s => rfl
  | cons s rest => rw [Block.append, Block.toList, rest.toList_append b']; rfl

theorem Derives.append {us vs : List Token} {b b' : Block} (h : Derives us (.sequence b))
    (h' : Derives vs (.sequence b')) : Derives (us ++ vs) (.sequence (b.append b')) := by
  cases b with
  | single s =>
    cases h with
    | single hs => exact .cons hs h'
  | cons s rest =>
    cases h with
    | cons hs hrest =>
      rw [List.append_assoc]
      exact .cons hs (hrest.append h')

theorem Derives.body {us : List Token} {p : Program} (h : Derives us (.program p)) :
    Derives us (.sequence p.body) := by
  cases h with
  | program h => exact h

/-- Every statement has at least one token. -/
theorem Derives.length_toList_le {us : List Token} {b : Block} (h : Derives us (.sequence b)) :
    b.toList.length ≤ us.length := by
  cases b with
  | single s => exact h.length_pos
  | cons s rest =>
    cases h with
    | cons hs hrest =>
      have hle := hrest.length_toList_le
      have hpos := hs.length_pos
      simp only [Block.toList, List.length_cons, List.length_append]
      omega

namespace Parser

variable {rest r : List Lexeme} {e : ParseError} {n k : Nat}

/-- Tokens behind others that are not nested too deeply. -/
theorem tooDeep?_append {d : Nat} {ts ts' : List Lexeme} (h : tooDeep? d ts = none) :
    tooDeep? d (ts ++ ts') = tooDeep? ((ts.map Lexeme.token).foldl Token.openAfter d) ts' := by
  induction ts generalizing d with
  | nil => rfl
  | cons l ts ih =>
    rw [tooDeep?] at h
    rw [List.cons_append, tooDeep?, List.map_cons, List.foldl_cons, Token.openAfter_eq]
    split_ifs at h ⊢ <;> exact ih h

theorem sequenceOf_error_of_item {item : Parser Statement} {more : Parser Block} {st : Statement}
    {ts ts' : List Lexeme} (hitem : item ts = .ok st ts') (hne : ts' ≠ [])
    (h : more ts' = .error e r) : sequenceOf item more ts = .error e r := by
  have hmore : nextToken ts' ≠ none := fun hnone => hne (nextToken_eq_none_iff.1 hnone)
  refine bind_eq_error_iff.2 (.inr ⟨st, ts', hitem, ?_⟩)
  rw [peek_bind, if_neg hmore]
  exact bind_eq_error_iff.2 (.inl h)

/-- **The error behind some statements is the error of what follows them.**  The statements are read
one by one, each in front of a token that is not `else`. -/
theorem sequenceWithin_error_after {b : Block} {ts : List Lexeme} {us : List Token}
    (hd : Derives us (.sequence b)) (hs : Spans ts us rest) (hn : us.length ≤ n)
    (hne : rest ≠ []) (helse : nextToken rest ≠ some (.word "else"))
    (h : sequenceWithin (statementWithin n) k rest = .error e r) :
    sequenceWithin (statementWithin n) (b.toList.length + k) ts = .error e r := by
  cases b with
  | single st =>
    cases hd with
    | single hst =>
      rw [Block.toList, List.length_singleton, Nat.add_comm]
      exact sequenceOf_error_of_item (parsed_of_derives hst n hn ts rest helse hs) hne h
  | cons st b =>
    cases hd with
    | @cons xs ys _ _ hst hb =>
      have hlen : xs.length + ys.length ≤ n := by rwa [← List.length_append]
      obtain ⟨ts₁, hxs, hys⟩ := Spans.append_iff.1 hs
      have hrest := sequenceWithin_error_after hb hys (by omega) hne helse h
      obtain ⟨w, ys', rfl, hw⟩ := hb.beginsWithWord
      have hnext : nextToken ts₁ = some (.word w) := hys.nextToken
      have hst := parsed_of_derives hst n (by omega) ts ts₁ (by simpa [hnext] using hw) hxs
      rw [Block.toList, List.length_cons, Nat.add_right_comm]
      refine sequenceOf_error_of_item hst ?_ hrest
      rintro rfl
      cases hnext

/-- What is refused by itself is refused in the same way behind a program. -/
theorem program_after {p : Program} {ts : List Lexeme}
    (hd : Derives (ts.map Lexeme.token) (.program p))
    (hnest : nesting (ts.map Lexeme.token) ≤ maxNesting) (hne : rest ≠ [])
    (helse : nextToken rest ≠ some (.word "else")) (h : program rest = .error e r) :
    ∃ r', program (ts ++ rest) = .error e r' := by
  have hdeep : tooDeep? 0 (ts ++ rest) = tooDeep? 0 rest := by
    rw [tooDeep?_append ((tooDeep?_eq_none_iff (Nat.zero_le _)).2 hnest), hd.foldl_openAfter]
  rcases program_eq_error_iff.1 h with ⟨bad, hbad, he, -⟩ | ⟨hnone, ⟨hnil, -⟩ | ⟨-, hseq⟩⟩
  · exact ⟨ts ++ rest, program_eq_error_iff.2 (.inl ⟨bad, hdeep.trans hbad, he, rfl⟩)⟩
  · exact absurd hnil hne
  · have hb := hd.body
    refine ⟨r, program_eq_error_iff.2 (.inr ⟨hdeep.trans hnone, .inr ⟨by simp [hne], ?_⟩⟩)⟩
    -- the bound that is left behind the statements still covers all other tokens
    obtain ⟨k, hk⟩ := Nat.exists_eq_add_of_le hb.length_toList_le
    rw [List.length_map] at hk
    have hlen : (ts ++ rest).length = p.body.toList.length + (k + rest.length) := by
      rw [List.length_append]
      omega
    have halike : AlikeAt (k + rest.length)
        (sequenceWithin (statementWithin rest.length) rest.length)
        (sequenceWithin (statementWithin (ts ++ rest).length) (k + rest.length)) rest :=
      sequenceWithin_alikeAt (statementWithin_length_lt _) (statement_alike (by omega)) hne le_rfl
        (by omega) le_rfl (by omega)
    obtain ⟨c, pre, rfl, hpre, hmove⟩ := halike.error hseq
    have hrest := hmove rest r (by omega) (Spans.iff_exists_append.2 ⟨pre, hpre, rfl⟩) rfl
    have hafter := sequenceWithin_error_after hb (Spans.iff_exists_append.2 ⟨ts, rfl, rfl⟩)
      (by simp) hne helse hrest
    rwa [← hlen] at hafter

end Parser

/-! ### Programs -/

theorem ParseError.before_later (c : Cause) (d : Nat) (ts : List Lexeme) :
    ParseError.before c (ts.map (Lexeme.later d)) =
      { ParseError.before c ts with line := (ParseError.before c ts).line.map (· + d) } := by
  cases ts <;> simp [ParseError.before, List.map_take, Function.comp_def, Lexeme.later]

/-- **Source texts compose.**  Behind a text that holds a program, with nothing between them,

* a text that holds another program adds its statements;
* a text without tokens adds nothing;
* a text that is refused by itself, and does not begin with `else`, is refused with the same message
  and the same quoted tokens, on a line that is as many lines further down as the first text has
  line feeds. -/
theorem Program.parse_append {a : String} {p : Program} (h : Program.parse a = .ok p) (b : String) :
    (∀ q, Program.parse b = .ok q →
      ∃ r, Program.parse (a ++ b) = .ok r ∧ r.statements = p.statements ++ q.statements) ∧
    (tokenize b = [] → Program.parse (a ++ b) = .ok p) ∧
    ∀ e, Program.parse b = .error e → tokenize b ≠ [] →
      (tokenize b).head?.map Lexeme.token ≠ some (.word "else") →
      Program.parse (a ++ b) =
        .error { e with line := e.line.map (· + a.toList.count '\n') } := by
  obtain ⟨hd, hnest⟩ := Program.parse_eq_ok_iff.1 h
  have hcut := tokenize_append (b := b) (Program.isWordChar_getLast? hd)
  have htok : textTokens (a ++ b) = textTokens a ++ textTokens b := by
    rw [textTokens, hcut, List.map_append, map_token_later]
    rfl
  rw [← nesting_textTokens] at hnest
  refine ⟨fun q hq => ?_, fun hb => ?_, fun e he hne helse => ?_⟩
  · obtain ⟨hd', hnest'⟩ := Program.parse_eq_ok_iff.1 hq
    rw [← nesting_textTokens] at hnest'
    refine ⟨⟨p.body.append q.body⟩, Program.parse_eq_ok_iff.2 ⟨?_, ?_⟩, Block.toList_append _ _⟩
    · rw [htok]
      exact .program (hd.body.append hd'.body)
    · obtain ⟨k, hk, -⟩ := hd.nested
      obtain ⟨k', hk', -⟩ := hd'.nested
      rw [hk.nesting_eq] at hnest
      rw [hk'.nesting_eq] at hnest'
      rw [← nesting_textTokens, htok, (hk.append hk').nesting_eq]
      exact max_le hnest hnest'
  · refine (Program.parse_eq_ok_congr ?_ p).1 h
    rw [htok, textTokens, textTokens, hb, List.map_nil, List.append_nil]
  · obtain ⟨rest, he⟩ := Program.parse_eq_error_iff.1 he
    obtain ⟨c, i, rfl, halike⟩ := Parser.program_error_alike he
    obtain ⟨rest', hb⟩ := halike _ (map_token_later (a.toList.count '\n') (tokenize b))
    obtain ⟨r, hr⟩ := Parser.program_after hd hnest (by simpa using hne)
      (by rw [Parser.nextToken, List.head?_map, Option.map_map]; exact helse) hb
    rw [← ParseError.before_later, List.map_drop, Program.parse_eq_error_iff, hcut]
    exact ⟨r, hr⟩

/-- A conditional on three lines, whose text ends with its last brace. -/
def Program.guardedMove : String := "if (eq(wallDist, 2)) \x7b\n  move(3);\n\x7d"

/-- Behind a conditional that could still go on with `else`, a statement, layout, and a loop without
a body, whose error is moved from line 2 to line 4. -/
theorem Program.parse_append_guardedMove :
    ∃ p, Program.parse Program.guardedMove = .ok p ∧
      (∃ r, Program.parse (Program.guardedMove ++ "turnL;") = .ok r ∧
        r.statements = p.statements ++ [.action .turnLeft]) ∧
      Program.parse (Program.guardedMove ++ "\n \t") = .ok p ∧
      Program.parse (Program.guardedMove ++ "\nloop\x7b\x7d") =
        .error ⟨"Cannot have empty block", some 4, ["\x7d"]⟩ := by
  have h : Program.parse Program.guardedMove =
      .ok ⟨.single (.ifThen (.compare .eq (.sensor .wallDist) (.num 2))
        (.single (.action (.move (some (.num 3))))))⟩ := by rfl
  have hturn : Program.parse "turnL;" = .ok ⟨.single (.action .turnLeft)⟩ := by rfl
  have hloop : Program.parse "\nloop\x7b\x7d" =
      .error ⟨"Cannot have empty block", some 2, ["\x7d"]⟩ := by rfl
  exact ⟨_, h, (Program.parse_append h "turnL;").1 _ hturn,
    (Program.parse_append h "\n \t").2.1 (by decide),
    (Program.parse_append h "\nloop\x7b\x7d").2.2 _ hloop (by decide) (by decide)⟩

end RobotControl
