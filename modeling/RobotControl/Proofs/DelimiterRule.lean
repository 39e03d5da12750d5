import Mathlib.Data.List.MinMax
import Mathlib.Data.List.TakeWhile
import Mathlib.Tactic
import RobotControl.Proofs.Scanning

/-!
# The delimiter rule

How a text is cut into tokens, said without the lexer.  Each of six delimiters is a token of its
own, layout is dropped, and every longest run of other characters is a word.

* `isLayoutChar`, `delimiterOf?`, `isWordChar`: the three classes of characters;
* `LexRule.all`, `munch`: the lexical rules, and reading a text by longest matches.  Such a reading
  may come to a place where no rule matches;
* `Cuts`: a text and its lexemes, piece by piece.  The lexemes that `tokenize` gives are of this
  kind, and everything else is derived from that;
* `Lexeme.Stands`: where in a text a lexeme stands.
-/

namespace RobotControl

/-! ### Characters -/

/-- Space, tab, carriage return, line feed, vertical tab and form feed. -/
def isLayoutChar (c : Char) : Bool := c ∈ [' ', '\t', '\r', '\n', '\x0b', '\x0c']

/-- The token of a delimiter. -/
def delimiterOf? : Char → Option Token
  | '\x7b' => some .lbrace
  | '\x7d' => some .rbrace
  | '(' => some .lparen
  | ')' => some .rparen
  | ',' => some .comma
  | ';' => some .semicolon
  | _ => none

/-- A character that is neither layout nor a delimiter. -/
def isWordChar (c : Char) : Bool := !isLayoutChar c && (delimiterOf? c).isNone

/-- **A character makes a token by itself when it is a delimiter or layout**, and belongs to words
otherwise. -/
theorem ofChar?_cases (c : Char) :
    (Token.ofChar? c = none ∧ isLayoutChar c = false ∧ delimiterOf? c = none) ∨
      (∃ t, Token.ofChar? c = some t ∧ isLayoutChar c = true ∧ delimiterOf? c = none ∧
        t.isLayout = true) ∨
      ∃ t, Token.ofChar? c = some t ∧ isLayoutChar c = false ∧ delimiterOf? c = some t ∧
        t.isLayout = false := by
  unfold Token.ofChar?
  split
  case h_13 =>
    refine .inl ⟨rfl, by simp_all [isLayoutChar], ?_⟩
    unfold delimiterOf?
    split <;> simp_all
  all_goals first
    | exact .inr (.inl ⟨_, rfl, rfl, rfl, rfl⟩)
    | exact .inr (.inr ⟨_, rfl, rfl, rfl, rfl⟩)

theorem isWordChar_iff {c : Char} : isWordChar c = true ↔ Token.ofChar? c = none := by
  rcases ofChar?_cases c with ⟨hc, hl, hd⟩ | ⟨t, hc, hl, hd, -⟩ | ⟨t, hc, hl, hd, -⟩ <;>
    simp [isWordChar, hc, hl, hd]

theorem isLayoutChar_of_isWordChar {c : Char} (h : isWordChar c = true) :
    isLayoutChar c = false := by
  simp_all [isWordChar]

theorem isLayoutChar_eq {c : Char} {t : Token} (hc : Token.ofChar? c = some t) :
    isLayoutChar c = t.isLayout := by
  rcases ofChar?_cases c with ⟨h, -⟩ | ⟨t', h, hl, -, ht⟩ | ⟨t', h, hl, -, ht⟩ <;> simp_all

theorem delimiterOf?_eq_some_iff {c : Char} {t : Token} :
    delimiterOf? c = some t ↔ Token.ofChar? c = some t ∧ t.isLayout = false := by
  rcases ofChar?_cases c with ⟨hc, -, hd⟩ | ⟨t', hc, -, hd, ht⟩ | ⟨t', hc, -, hd, ht⟩
  · simp [hc, hd]
  · suffices t' = t → t.isLayout = true by simpa [hc, hd] using this
    rintro rfl
    exact ht
  · suffices t' = t → t.isLayout = false by simpa [hc, hd] using this
    rintro rfl
    exact ht

theorem text_of_delimiterOf? {c : Char} {t : Token} (h : delimiterOf? c = some t) :
    t.text.toList = [c] := by
  unfold delimiterOf? at h
  split at h <;> cases h <;> rfl

/-! ### Reading by longest matches -/

/-- What a lexical rule matches: one character, or one or more characters of a class. -/
inductive Pattern where
  | char (c : Char)
  | run (p : Char → Bool)

/-- The longest beginning of a text that a pattern matches, which is empty when there is none. -/
def Pattern.longest : Pattern → List Char → List Char
  | .char c, cs => if cs.head? = some c then [c] else []
  | .run p, cs => cs.takeWhile p

/-- A lexical rule: what it matches, and the token of a match. -/
structure LexRule where
  pattern : Pattern
  token : List Char → Token

namespace LexRule

/-- A blank is layout that does not end the line. -/
def isBlankChar (c : Char) : Bool := isLayoutChar c && c != '\n'

/-- The characters that are always a token of their own. -/
def singles : List (Char × Token) := [
  ('\x7b', .lbrace), ('\x7d', .rbrace), ('(', .lparen), (')', .rparen), (',', .comma),
  (';', .semicolon), ('\n', .newline)]

/-- Words and runs of blanks. -/
def runs : List LexRule :=
  [⟨.run isWordChar, fun w => .word (String.ofList w)⟩, ⟨.run isBlankChar, fun _ => .blank⟩]

/-- The lexical rules. -/
def all : List LexRule := singles.map (fun (c, t) => ⟨.char c, fun _ => t⟩) ++ runs

/-- The longest match of a rule at the front of a text, with its token. -/
def match? (r : LexRule) (cs : List Char) : Option (Token × List Char) :=
  let m := r.pattern.longest cs
  if m = [] then none else some (r.token m, m)

/-- The longest match of any rule at the front of a text, with its token. -/
def longest? (cs : List Char) : Option (Token × List Char) :=
  (all.filterMap (match? · cs)).argmax fun m => m.2.length

theorem ne_nil_of_longest? {cs m : List Char} {t : Token} (h : longest? cs = some (t, m)) :
    m ≠ [] := by
  obtain ⟨r, -, hr⟩ := List.mem_filterMap.1 (List.argmax_mem h)
  simp only [match?, Option.ite_none_left_eq_some, Option.some.injEq, Prod.mk.injEq] at hr
  obtain ⟨hne, -, rfl⟩ := hr
  exact hne

end LexRule

/-- Reads a text by longest matches from line `n` on.  A line feed begins a new line, layout is
dropped, and where no rule matches the reading fails in front of the text that is left. -/
def munch (n : Nat) : List Char → Except (List Char) (List Lexeme)
  | [] => .ok []
  | c :: cs =>
    match _ : LexRule.longest? (c :: cs) with
    | none => .error (c :: cs)
    | some (t, m) => (munch (t.lineAfter n) ((c :: cs).drop m.length)).map (standing n t ++ ·)
termination_by cs => cs.length
decreasing_by
  have hpos := List.length_pos_iff.2 (LexRule.ne_nil_of_longest? ‹_›)
  simp only [List.length_drop, List.length_cons]
  omega

theorem munch_append {n : Nat} {m cs : List Char} {t : Token}
    (h : LexRule.longest? (m ++ cs) = some (t, m)) :
    munch n (m ++ cs) = (munch (t.lineAfter n) cs).map (standing n t ++ ·) := by
  obtain ⟨c, m, rfl⟩ := List.exists_cons_of_ne_nil (LexRule.ne_nil_of_longest? h)
  rw [List.cons_append] at h ⊢
  rw [munch, h]
  simp only [← List.cons_append, List.drop_left]

namespace LexRule

theorem not_run_of_single : ∀ x ∈ singles, isWordChar x.1 = false ∧ isBlankChar x.1 = false := by
  decide

/-- In front of a character that may be part of a run, only runs match. -/
theorem longest?_of_run {c : Char} (hc : isWordChar c = true ∨ isBlankChar c = true)
    (cs : List Char) :
    longest? (c :: cs) = (runs.filterMap (match? · (c :: cs))).argmax fun m => m.2.length := by
  have hnone : (singles.map fun (x, t) => (⟨.char x, fun _ => t⟩ : LexRule)).filterMap
      (match? · (c :: cs)) = [] := by
    rw [List.filterMap_map, List.filterMap_eq_nil_iff]
    intro x hx
    have hne : c ≠ x.1 := by
      rintro rfl
      simp [not_run_of_single x hx] at hc
    simp [match?, Pattern.longest, hne]
  rw [longest?, all, List.filterMap_append, hnone, List.nil_append]

theorem longest?_word {w cs : List Char} (hne : w ≠ []) (hw : ∀ c ∈ w, isWordChar c = true)
    (hend : ∀ c ∈ cs.head?, isWordChar c = false) :
    longest? (w ++ cs) = some (.word (String.ofList w), w) := by
  obtain ⟨c, w, rfl⟩ := List.exists_cons_of_ne_nil hne
  have hc := hw c List.mem_cons_self
  have hblank : isBlankChar c = false := by
    simp [isBlankChar, isLayoutChar_of_isWordChar hc]
  have htake : (c :: w ++ cs).takeWhile isWordChar = c :: w := by
    rw [List.takeWhile_append_of_pos hw]
    cases cs <;> simp_all
  rw [List.cons_append] at htake ⊢
  rw [longest?_of_run (.inl hc)]
  simp [runs, match?, Pattern.longest, htake, hblank]

theorem longest?_blank {c : Char} (hc : isBlankChar c = true) (cs : List Char) :
    longest? (c :: cs) = some (.blank, c :: cs.takeWhile isBlankChar) := by
  have hword : isWordChar c = false := by
    simp_all [isBlankChar, isWordChar]
  rw [longest?_of_run (.inr hc)]
  simp [runs, match?, Pattern.longest, hc, hword]

end LexRule

theorem munch_blank {n : Nat} {c : Char} (hc : LexRule.isBlankChar c = true) (cs : List Char) :
    munch n (c :: cs) = munch n (cs.dropWhile LexRule.isBlankChar) := by
  have hsplit :
      c :: cs.takeWhile LexRule.isBlankChar ++ cs.dropWhile LexRule.isBlankChar = c :: cs := by
    rw [List.cons_append, List.takeWhile_append_dropWhile]
  have hread := munch_append (n := n) ((congrArg _ hsplit).trans (LexRule.longest?_blank hc cs))
  rw [hsplit] at hread
  rw [hread, show Token.blank.lineAfter n = n from rfl]
  cases munch n (cs.dropWhile LexRule.isBlankChar) <;> rfl

/-- Blanks in front of a text make no difference. -/
theorem munch_dropWhile_blank (n : Nat) (cs : List Char) :
    munch n (cs.dropWhile LexRule.isBlankChar) = munch n cs := by
  cases cs with
  | nil => rfl
  | cons c cs =>
    cases hc : LexRule.isBlankChar c with
    | true => rw [List.dropWhile_cons_of_pos hc, munch_blank hc]
    | false => rw [List.dropWhile_cons_of_neg (by simp [hc])]

/-! ### Pieces of a text -/

/-- `Cuts n cs ls`: from line `n` on, the text `cs` falls into delimiters, layout and words, none of
which can be made longer, and `ls` are the lexemes of all but the layout. -/
inductive Cuts : Nat → List Char → List Lexeme → Prop
  | nil {n} : Cuts n [] []
  | char {n c t cs ls} (hc : Token.ofChar? c = some t) (rest : Cuts (t.lineAfter n) cs ls) :
    Cuts n (c :: cs) (standing n t ++ ls)
  | word {n w cs ls} (hne : w ≠ []) (hw : ∀ c ∈ w, isWordChar c = true)
    (hend : ∀ c ∈ cs.head?, isWordChar c = false) (rest : Cuts n cs ls) :
    Cuts n (w ++ cs) (⟨.word (String.ofList w), n⟩ :: ls)

/-- Word characters add to the word that is being read. -/
theorem lexFrom_word_append {n : Nat} {v w cs : List Char} (hw : ∀ c ∈ w, isWordChar c = true) :
    lexFrom n v (w ++ cs) = lexFrom n (w.reverse ++ v) cs := by
  induction w generalizing v with
  | nil => rfl
  | cons c w ih =>
    rw [List.cons_append, lexFrom_cons_none (isWordChar_iff.1 (hw c (by simp))),
      ih fun x hx => hw x (by simp [hx])]
    simp

/-- A word ends in front of a character of another class. -/
theorem lexFrom_of_head {n : Nat} {v cs : List Char} (h : ∀ c ∈ cs.head?, isWordChar c = false) :
    lexFrom n v cs = pending n v ++ lexFrom n [] cs := by
  cases cs with
  | nil => simp [lexFrom, pending]
  | cons c cs =>
    cases hc : Token.ofChar? c with
    | none => simp [isWordChar_iff.2 hc] at h
    | some t =>
      rw [lexFrom_cons_some hc, lexFrom_cons_some hc]
      rfl

theorem pending_reverse {n : Nat} {w : List Char} (hne : w ≠ []) :
    pending n w.reverse = [⟨.word (String.ofList w), n⟩] := by
  cases hr : w.reverse with
  | nil => exact absurd (List.reverse_eq_nil_iff.1 hr) hne
  | cons c r => rw [pending, ← hr, List.reverse_reverse]

theorem cuts_lexFrom (n : Nat) (cs : List Char) : Cuts n cs (lexFrom n [] cs) := by
  induction hlen : cs.length using Nat.strong_induction_on generalizing n cs with
  | _ k ih =>
    subst hlen
    cases cs with
    | nil => exact .nil
    | cons c cs =>
      cases hc : Token.ofChar? c with
      | some t =>
        rw [lexFrom_cons_some hc]
        exact .char hc (ih cs.length (by simp) _ cs rfl)
      | none =>
        -- the longest run of word characters, and what is left after it
        let w := c :: cs.takeWhile isWordChar
        let rest := cs.dropWhile isWordChar
        have hsplit : c :: cs = w ++ rest := by
          rw [List.cons_append, List.takeWhile_append_dropWhile]
        have hw : ∀ x ∈ w, isWordChar x = true := by
          intro x hx
          rcases List.mem_cons.1 hx with rfl | hx
          · exact isWordChar_iff.2 hc
          · exact List.mem_takeWhile_imp hx
        have hend : ∀ x ∈ rest.head?, isWordChar x = false := by
          intro x hx
          have hnot := List.head?_dropWhile_not isWordChar cs
          rwa [Option.mem_def.1 hx] at hnot
        have hrest := ih _ (Nat.lt_succ_of_le (List.length_dropWhile_le isWordChar cs)) n rest rfl
        rw [hsplit, lexFrom_word_append hw, List.append_nil, lexFrom_of_head hend,
          pending_reverse (List.cons_ne_nil c _)]
        exact .word (List.cons_ne_nil c _) hw hend hrest

theorem tokenize_cuts (source : String) : Cuts 1 source.toList (tokenize source) := by
  rw [tokenize_eq_lexFrom]
  exact cuts_lexFrom 1 source.toList

/-- **Reading by longest matches makes these cuts**, and never fails. -/
theorem Cuts.munch_eq {n : Nat} {cs : List Char} {ls : List Lexeme} (h : Cuts n cs ls) :
    munch n cs = .ok ls := by
  induction h with
  | nil => rw [munch]
  | @char n c t cs ls hc rest ih =>
    by_cases hblank : LexRule.isBlankChar c = true
    · have ht : t = .blank := by
        unfold Token.ofChar? at hc
        split at hc <;> simp_all [LexRule.isBlankChar, isLayoutChar]
      subst ht
      rw [munch_blank hblank, munch_dropWhile_blank]
      exact ih
    · have hlongest : LexRule.longest? ([c] ++ cs) = some (t, [c]) := by
        unfold Token.ofChar? at hc
        split at hc <;> cases hc <;> first | rfl | exact absurd rfl hblank
      rw [← List.singleton_append, munch_append hlongest, ih]
      rfl
  | word hne hw hend rest ih =>
    rw [munch_append (LexRule.longest?_word hne hw hend)]
    simp only [Token.lineAfter, reduceCtorEq, if_false, ih]
    rfl

/-! ### What the pieces say -/

/-- The texts of lexemes, one after the other. -/
def spelling (ls : List Lexeme) : List Char := ls.flatMap fun l => l.token.text.toList

/-- A text without its layout. -/
def solid (cs : List Char) : List Char := cs.filter fun c => !isLayoutChar c

theorem spelling_append (ls ls' : List Lexeme) :
    spelling (ls ++ ls') = spelling ls ++ spelling ls' :=
  List.flatMap_append

theorem solid_append (cs cs' : List Char) : solid (cs ++ cs') = solid cs ++ solid cs' :=
  List.filter_append ..

theorem spelling_standing {c : Char} {t : Token} (n : Nat) (hc : Token.ofChar? c = some t) :
    spelling (standing n t) = solid [c] := by
  have hl := isLayoutChar_eq hc
  cases ht : t.isLayout with
  | true => simp [spelling, standing, solid, hl, ht]
  | false =>
    have htext := text_of_delimiterOf? (delimiterOf?_eq_some_iff.2 ⟨hc, ht⟩)
    simp [spelling, standing, solid, hl, ht, htext]

theorem solid_word {w : List Char} (hw : ∀ c ∈ w, isWordChar c = true) : solid w = w :=
  List.filter_eq_self.2 fun c hc => by rw [isLayoutChar_of_isWordChar (hw c hc)]; rfl

theorem spelling_word {w : List Char} (n : Nat) (hw : ∀ c ∈ w, isWordChar c = true) :
    spelling [⟨.word (String.ofList w), n⟩] = solid w := by
  simp [spelling, Token.text, solid_word hw]

/-- Nothing but layout is lost. -/
theorem Cuts.spelling_eq {n : Nat} {cs : List Char} {ls : List Lexeme} (h : Cuts n cs ls) :
    spelling ls = solid cs := by
  induction h with
  | nil => rfl
  | @char n c t cs ls hc _ ih =>
    rw [spelling_append, spelling_standing n hc, ih, ← solid_append, List.singleton_append]
  | @word n w cs ls _ hw _ _ ih =>
    rw [← List.singleton_append, spelling_append, spelling_word n hw, ih, solid_append]

/-- The lexeme `l` stands between the texts `a` and `b` of a text that begins on line `n`, in front
of the lexemes of the one and behind those of the other. -/
structure Lexeme.Stands (l : Lexeme) (n : Nat) (cs : List Char) (before after : List Lexeme)
    (a b : List Char) : Prop where
  text : cs = a ++ (l.token.text.toList ++ b)
  before : spelling before = solid a
  after : spelling after = solid b
  line : l.line = n + a.count '\n'

/-- A delimiter, or a word that cannot be made longer where it stands between `a` and `b`. -/
def Token.IsMaximal (t : Token) (a b : List Char) : Prop :=
  (∃ c, delimiterOf? c = some t) ∨
    ∃ w, t = .word w ∧ w ≠ "" ∧ (∀ c ∈ w.toList, isWordChar c = true) ∧
      (∀ c ∈ a.getLast?, isWordChar c = false) ∧ ∀ c ∈ b.head?, isWordChar c = false

/-- Some text in front, with its lexemes. -/
theorem Lexeme.Stands.after_text {l : Lexeme} {n n' : Nat} {cs cs' a b : List Char}
    {ls before after : List Lexeme} (h : l.Stands n' cs before after a b)
    (hspelling : spelling ls = solid cs') (hline : n' = n + cs'.count '\n') :
    l.Stands n (cs' ++ cs) (ls ++ before) after (cs' ++ a) b where
  text := by rw [h.text, List.append_assoc]
  before := by rw [spelling_append, solid_append, hspelling, h.before]
  after := h.after
  line := by rw [h.line, hline, List.count_append, Nat.add_assoc]

/-- Some text in front, whose last character is in no word when it comes right before one. -/
theorem Token.IsMaximal.after_text {t : Token} {cs' a b : List Char} (h : t.IsMaximal a b)
    (hlast : a = [] → ∀ w, t = .word w → ∀ c ∈ cs'.getLast?, isWordChar c = false) :
    t.IsMaximal (cs' ++ a) b := by
  rcases h with h | ⟨w, rfl, hne, hw, ha, hb⟩
  · exact .inl h
  · refine .inr ⟨w, rfl, hne, hw, ?_, hb⟩
    cases a with
    | nil => simpa using hlast rfl w rfl
    | cons x a => simpa using ha

theorem Token.IsMaximal.exists_head {w : String} {a b : List Char}
    (h : (Token.word w).IsMaximal a b) :
    ∃ c cs, w.toList = c :: cs ∧ isWordChar c = true := by
  rcases h with ⟨c, hc⟩ | ⟨_, hw, hne, hall, -⟩
  · exact absurd hc (by unfold delimiterOf?; split <;> simp)
  · cases hw
    cases hcs : w.toList with
    | nil => exact absurd (String.toList_eq_nil_iff.1 hcs) hne
    | cons c cs => exact ⟨c, cs, rfl, hall c (by simp [hcs])⟩

theorem count_newline_word {w : List Char} (hw : ∀ c ∈ w, isWordChar c = true) : w.count '\n' = 0 :=
  List.count_eq_zero.2 fun h => absurd (hw _ h) (by decide)

/-- **Every lexeme stands somewhere in the text**, and is a delimiter or as long as it can be. -/
theorem Cuts.stands {n : Nat} {cs : List Char} {ls before after : List Lexeme} {l : Lexeme}
    (h : Cuts n cs ls) (hls : ls = before ++ l :: after) :
    ∃ a b, l.Stands n cs before after a b ∧ l.token.IsMaximal a b := by
  induction h generalizing before with
  | nil => simp at hls
  | @char n c t cs ls hc rest ih =>
    have hlater : ∀ before', ls = before' ++ l :: after →
        ∃ a b, l.Stands n (c :: cs) (standing n t ++ before') after a b ∧
          l.token.IsMaximal a b := by
      intro before' hls'
      obtain ⟨a, b, hstands, hmax⟩ := ih hls'
      have hchar : isWordChar c = false := by
        rw [← Bool.not_eq_true, isWordChar_iff, hc]
        simp
      exact ⟨[c] ++ a, b, hstands.after_text (spelling_standing n hc) (Token.lineAfter_eq hc),
        hmax.after_text fun _ _ _ => by simpa using hchar⟩
    cases ht : t.isLayout with
    | true =>
      have hnone : standing n t = [] := by simp [standing, ht]
      rw [hnone, List.nil_append] at hls
      simpa [hnone] using hlater before hls
    | false =>
      have hone : standing n t = [⟨t, n⟩] := by simp [standing, ht]
      have hd := delimiterOf?_eq_some_iff.2 ⟨hc, ht⟩
      rw [hone, List.singleton_append] at hls
      cases before with
      | nil =>
        cases hls
        refine ⟨[], cs, ⟨?_, rfl, rest.spelling_eq, rfl⟩, .inl ⟨c, hd⟩⟩
        simp [text_of_delimiterOf? hd]
      | cons first before =>
        cases hls
        simpa [hone] using hlater before rfl
  | @word n w cs ls hne hw hend rest ih =>
    cases before with
    | nil =>
      cases hls
      refine ⟨[], cs, ⟨by simp [Token.text], rfl, rest.spelling_eq, rfl⟩, .inr ⟨_, rfl, ?_⟩⟩
      exact ⟨by simpa using hne, by simpa using hw, by simp, hend⟩
    | cons first before =>
      cases hls
      obtain ⟨a, b, hstands, hmax⟩ := ih rfl
      refine ⟨w ++ a, b, hstands.after_text (spelling_word n hw) ?_, hmax.after_text ?_⟩
      · rw [count_newline_word hw, Nat.add_zero]
      · -- another word right behind this one would begin with a word character
        rintro rfl v hv
        rw [hv] at hmax
        obtain ⟨x, xs, hx, hxw⟩ := hmax.exists_head
        have hhead : cs.head? = some x := by simp [hstands.text, hv, Token.text, hx]
        simp [hend x hhead] at hxw

/-- **The delimiter rule.**  Reading a source text by longest matches never fails, and gives its
lexemes:

* their texts, one after the other, are the source without its layout;
* wherever one of the six delimiters stands in the source, it is a lexeme of its own;
* every lexeme stands somewhere in the source, between the texts of the lexemes before it and those
  of the lexemes after it.  Its line is the one of its first character.  It is a delimiter or a
  word, and a word has at least one character, no layout or delimiter in it, and no word character
  next to it. -/
theorem tokenize_delimiter_rule (source : String) :
    munch 1 source.toList = .ok (tokenize source) ∧
    String.join ((tokenize source).map fun l => l.token.text) =
      String.ofList (source.toList.filter fun c => !isLayoutChar c) ∧
    (∀ a c b t, source.toList = a ++ c :: b → delimiterOf? c = some t →
      ∃ before after, tokenize source = before ++ ⟨t, 1 + a.count '\n'⟩ :: after ∧
        spelling before = solid a ∧ spelling after = solid b) ∧
    ∀ before l after, tokenize source = before ++ l :: after →
      ∃ a b, l.Stands 1 source.toList before after a b ∧ l.token.IsMaximal a b := by
  have hcuts := tokenize_cuts source
  refine ⟨hcuts.munch_eq, ?_, ?_, fun before l after => hcuts.stands⟩
  · rw [← String.toList_inj, String.toList_ofList, String.toList_join, List.flatMap_map]
    exact hcuts.spelling_eq
  · intro a c b t hsource hd
    obtain ⟨hc, ht⟩ := delimiterOf?_eq_some_iff.1 hd
    have hone : standing (lineAfter 1 a) t = [⟨t, 1 + a.count '\n'⟩] := by
      simp [standing, ht, lineAfter]
    refine ⟨lexFrom 1 [] a, lexFrom (lineAfter 1 (a ++ [c])) [] b, ?_, ?_, ?_⟩
    · rw [tokenize_eq_lexFrom, hsource, lexFrom_append_cons hc, hone, List.singleton_append]
    · exact (cuts_lexFrom 1 a).spelling_eq
    · exact (cuts_lexFrom _ b).spelling_eq

end RobotControl
