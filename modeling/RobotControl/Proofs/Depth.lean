import Mathlib.Tactic
import RobotControl.Proofs.RoundTrip

/-!
# Depth and canonical form

How deep the blocks, conditions and expressions of a program are nested, and how deep the delimiters
of its texts are.  Each of them stands between delimiters of its own, and only a block after `else`
can have more than it needs, so that the printed text of a program is nested no deeper than any
other text of it.

* `Expr.depth`, `Cond.depth`, `Action.depth`, `Statement.depth`, `Block.depth`: the depth of a tree;
* `Nested`: the nesting of balanced tokens, whatever stands around them;
* `Derives.nested`: tokens that spell a phrase are nested at least as deep as its tree;
  `Block.nested_tokens`: printed tokens are nested exactly as deep;
* `Part`: what stands between delimiters, and `Part.Encloses`: one part inside another;
* `Program.reprint`: a text read and printed again.
-/

namespace RobotControl

/-! ### The depth of a tree -/

/-- How many expressions are nested inside an expression. -/
def Expr.depth : Expr → Nat
  | .num _ | .sensor _ => 0
  | .binary _ l r => max l.depth r.depth + 1

/-- How many conditions and expressions are nested inside a condition. -/
def Cond.depth : Cond → Nat
  | .compare _ l r => max l.depth r.depth + 1
  | .conj l r | .disj l r => max l.depth r.depth + 1
  | .neg c => c.depth + 1

/-- How many expressions are nested inside an action. -/
def Action.depth (a : Action) : Nat :=
  match a.operand? with
  | none => 0
  | some e => e.depth + 1

mutual

/-- How many blocks, conditions and expressions are nested inside a statement. -/
def Statement.depth : Statement → Nat
  | .action a => Action.depth a
  | .loop body => body.depth + 1
  | .ifThen test yes => max (test.depth + 1) (yes.depth + 1)
  | .ifElse test yes no => max (test.depth + 1) (max (yes.depth + 1) (no.depth + 1))
  | .whileLoop test body => max (test.depth + 1) (body.depth + 1)

/-- How many blocks, conditions and expressions are nested inside a block. -/
def Block.depth : Block → Nat
  | .single s => s.depth
  | .cons s rest => max s.depth rest.depth

end

/-! ### The nesting of tokens -/

/-- The tokens `us` are balanced, and `h` of their delimiters are open at once, in addition to those
that are open around them. -/
def Nested (us : List Token) (h : Nat) : Prop :=
  ∀ d ts, nestingFrom d (us ++ ts) = max (d + h) (nestingFrom d ts)

namespace Nested

variable {us vs : List Token} {h k : Nat}

theorem nesting_eq (hu : Nested us h) : nesting us = h := by
  have hall := hu 0 []
  rw [List.append_nil, Nat.zero_add] at hall
  exact hall.trans (max_eq_left (Nat.zero_le h))

theorem append (hu : Nested us h) (hv : Nested vs k) : Nested (us ++ vs) (max h k) := by
  intro d ts
  rw [List.append_assoc, hu, hv]
  omega

/-- A token that is no delimiter. -/
theorem cons {t : Token} (ht : t.isOpening = false) (ht' : t.isClosing = false) (hu : Nested us h) :
    Nested (t :: us) h := by
  intro d ts
  have hopen : t.openAfter d = d := by simp [Token.openAfter_eq, ht, ht']
  rw [List.cons_append, nestingFrom, hopen, hu]
  omega

theorem single {t : Token} (ht : t.isOpening = false) (ht' : t.isClosing = false) : Nested [t] 0 :=
  cons ht ht' fun d ts => (max_eq_right (le_nestingFrom d ts)).symm

/-- Delimiters around balanced tokens. -/
theorem wrap {t t' : Token} (ht : t.isOpening = true) (ho : t'.isOpening = false)
    (hc : t'.isClosing = true) (hu : Nested us h) : Nested (t :: (us ++ [t'])) (h + 1) := by
  intro d ts
  have hopen : t.openAfter d = d + 1 := by simp [Token.openAfter_eq, ht]
  have hclose : t'.openAfter (d + 1) = d := by simp [Token.openAfter_eq, ho, hc]
  rw [List.cons_append, nestingFrom, hopen, List.append_assoc, hu, List.singleton_append,
    nestingFrom, hclose]
  omega

theorem parens (hu : Nested us h) : Nested (.lparen :: (us ++ [.rparen])) (h + 1) :=
  wrap rfl rfl rfl hu

theorem braces (hu : Nested us h) : Nested (.lbrace :: (us ++ [.rbrace])) (h + 1) :=
  wrap rfl rfl rfl hu

theorem pair (hu : Nested us h) (hv : Nested vs k) :
    Nested (.lparen :: (us ++ .comma :: (vs ++ [.rparen]))) (max h k + 1) := by
  simpa using (hu.append (hv.cons (t := .comma) rfl rfl)).parens

/-- A condition in parentheses, and what depends on it. -/
theorem test (hu : Nested us h) (hv : Nested vs k) :
    Nested (.lparen :: (us ++ .rparen :: vs)) (max (h + 1) k) := by
  simpa using hu.parens.append hv

theorem word (w : String) (hu : Nested us h) : Nested (.word w :: us) h := hu.cons rfl rfl

end Nested

/-- How deep the tokens of a phrase are nested, compared with its tree: just as deep without blocks,
and at least as deep with them. -/
def Phrase.Allows (h : Nat) : Phrase → Prop
  | .expr e => h = e.depth
  | .cond c => h = c.depth
  | .action a => h = Action.depth a
  | .statement st => st.depth ≤ h
  | .block b => b.depth + 1 ≤ h
  | .sequence b => b.depth ≤ h
  | .program p => p.body.depth ≤ h

/-- **Tokens that spell a phrase are balanced, and nested at least as deep as its tree.** -/
theorem Derives.nested {us : List Token} {x : Phrase} (hd : Derives us x) :
    ∃ h, Nested us h ∧ x.Allows h := by
  induction hd with
  | number | sensor => exact ⟨0, .single rfl rfl, rfl⟩
  | binary _ _ _ ihl ihr | compare _ _ _ ihl ihr =>
    obtain ⟨_, hl, rfl⟩ := ihl
    obtain ⟨_, hr, rfl⟩ := ihr
    exact ⟨_, (hl.pair hr).word _, rfl⟩
  | conj _ _ ihl ihr | disj _ _ ihl ihr =>
    obtain ⟨_, hl, rfl⟩ := ihl
    obtain ⟨_, hr, rfl⟩ := ihr
    exact ⟨_, (hl.pair hr).word _, rfl⟩
  | neg _ ih =>
    obtain ⟨_, hc, rfl⟩ := ih
    exact ⟨_, hc.parens.word _, rfl⟩
  | bare h => exact ⟨0, .single rfl rfl, by simp [Phrase.Allows, Action.depth, h]⟩
  | applied h _ ih =>
    obtain ⟨_, he, rfl⟩ := ih
    exact ⟨_, he.parens.word _, by simp [Phrase.Allows, Action.depth, h]⟩
  | act _ ih =>
    obtain ⟨_, ha, rfl⟩ := ih
    exact ⟨_, ha.append (.single rfl rfl), le_max_left _ _⟩
  | loop _ ih =>
    obtain ⟨h, hb, hle⟩ := ih
    exact ⟨h, hb.word _, hle⟩
  | ifThen _ _ ihc ihb | whileLoop _ _ ihc ihb =>
    obtain ⟨_, hc, rfl⟩ := ihc
    obtain ⟨h, hb, hle⟩ := ihb
    exact ⟨_, (hc.test hb).word _, max_le_max_left _ hle⟩
  | ifElse _ _ _ ihc ihb ihb' =>
    obtain ⟨_, hc, rfl⟩ := ihc
    obtain ⟨h, hb, hle⟩ := ihb
    obtain ⟨h', hb', hle'⟩ := ihb'
    exact ⟨_, (hc.test (hb.append (hb'.word _))).word _, max_le_max_left _ (max_le_max hle hle')⟩
  | ifElseBraced _ _ _ ihc ihb ihb' =>
    -- the second pair of braces is one more than the tree needs
    obtain ⟨_, hc, rfl⟩ := ihc
    obtain ⟨h, hb, hle⟩ := ihb
    obtain ⟨h', hb', hle'⟩ := ihb'
    exact ⟨_, (hc.test (hb.append (hb'.braces.word _))).word _,
      max_le_max_left _ (max_le_max hle (Nat.le_succ_of_le hle'))⟩
  | block _ ih =>
    obtain ⟨h, hb, hle⟩ := ih
    exact ⟨_, hb.braces, Nat.succ_le_succ hle⟩
  | single _ ih | program _ ih => exact ih
  | cons _ _ ihs ihb =>
    obtain ⟨h, hs, hle⟩ := ihs
    obtain ⟨h', hb, hle'⟩ := ihb
    exact ⟨_, hs.append hb, max_le_max hle hle'⟩

theorem Cond.nested_tokens (c : Cond) : Nested (textTokens c.render) c.depth := by
  obtain ⟨_, hc, rfl⟩ := c.derives_render.nested
  exact hc

mutual

theorem Statement.nested_tokens (st : Statement) : Nested st.tokens st.depth := by
  cases st with
  | action a =>
    obtain ⟨_, ha, rfl⟩ := (Action.derives_render a).nested
    simpa [Statement.tokens, Statement.depth] using ha.append (.single (t := .semicolon) rfl rfl)
  | loop body => exact body.nested_tokens.braces.word _
  | ifThen test yes => exact (test.nested_tokens.test yes.nested_tokens.braces).word _
  | ifElse test yes no =>
    exact (test.nested_tokens.test
      (yes.nested_tokens.braces.append (no.nested_tokens.braces.word _))).word _
  | whileLoop test body => exact (test.nested_tokens.test body.nested_tokens.braces).word _

theorem Block.nested_tokens (b : Block) : Nested b.tokens b.depth := by
  cases b with
  | single st => exact st.nested_tokens
  | cons st rest => exact st.nested_tokens.append rest.nested_tokens

end

/-- **A printed program is nested exactly as deep as its tree.** -/
theorem Program.textNesting_render (p : Program) : textNesting p.render = p.body.depth := by
  rw [← nesting_textTokens, p.textTokens_render, p.body.nested_tokens.nesting_eq]

theorem Derives.depth_le {us : List Token} {p : Program} (hd : Derives us (.program p)) :
    p.body.depth ≤ nesting us := by
  obtain ⟨h, hu, hle⟩ := hd.nested
  rwa [hu.nesting_eq]

/-! ### Parts -/

/-- A part of a program that stands between delimiters. -/
inductive Part where
  | block (b : Block)
  | cond (c : Cond)
  | expr (e : Expr)
deriving DecidableEq, Repr

/-- The expressions next inside an expression. -/
def Expr.parts : Expr → List Part
  | .num _ | .sensor _ => []
  | .binary _ l r => [.expr l, .expr r]

/-- The conditions and expressions next inside a condition. -/
def Cond.parts : Cond → List Part
  | .compare _ l r => [.expr l, .expr r]
  | .conj l r | .disj l r => [.cond l, .cond r]
  | .neg c => [.cond c]

/-- The parts next inside a statement. -/
def Statement.parts : Statement → List Part
  | .action a => a.operand?.toList.map .expr
  | .loop body => [.block body]
  | .ifThen test yes => [.cond test, .block yes]
  | .ifElse test yes no => [.cond test, .block yes, .block no]
  | .whileLoop test body => [.cond test, .block body]

/-- The parts next inside a block. -/
def Block.parts (b : Block) : List Part := b.toList.flatMap Statement.parts

namespace Part

/-- The parts next inside a part. -/
def parts : Part → List Part
  | .block b => b.parts
  | .cond c => c.parts
  | .expr e => e.parts

/-- How many parts are nested inside a part. -/
def depth : Part → Nat
  | .block b => b.depth
  | .cond c => c.depth
  | .expr e => e.depth

/-- The part `y` stands inside the part `x`, at any depth. -/
def Encloses (x y : Part) : Prop := Relation.TransGen (fun x y => y ∈ x.parts) x y

end Part

/-- The part `x` occurs in the program, at any depth. -/
def Program.Contains (p : Program) (x : Part) : Prop :=
  ∃ y ∈ p.body.parts, Relation.ReflTransGen (fun x y => y ∈ x.parts) y x

theorem Statement.depth_lt_of_mem_parts {st : Statement} {x : Part} (h : x ∈ st.parts) :
    x.depth < st.depth := by
  cases st with
  | action a =>
    obtain ⟨e, he, rfl⟩ := List.mem_map.1 h
    rw [Option.mem_toList] at he
    simp [Statement.depth, Action.depth, Part.depth, Option.mem_def.1 he]
  | loop body =>
    rw [List.mem_singleton.1 h]
    exact Nat.lt_succ_self _
  | ifThen test body | whileLoop test body =>
    rcases List.mem_pair.1 h with rfl | rfl
    · exact lt_max_of_lt_left (Nat.lt_succ_self _)
    · exact lt_max_of_lt_right (Nat.lt_succ_self _)
  | ifElse test yes no =>
    rcases List.mem_cons.1 h with rfl | h
    · exact lt_max_of_lt_left (Nat.lt_succ_self _)
    · rcases List.mem_pair.1 h with rfl | rfl
      · exact lt_max_of_lt_right (lt_max_of_lt_left (Nat.lt_succ_self _))
      · exact lt_max_of_lt_right (lt_max_of_lt_right (Nat.lt_succ_self _))

theorem Block.depth_le_of_mem {b : Block} {st : Statement} (h : st ∈ b.toList) :
    st.depth ≤ b.depth := by
  cases b with
  | single s =>
    rw [List.mem_singleton.1 h, Block.depth]
  | cons s rest =>
    rw [Block.depth]
    rcases List.mem_cons.1 h with rfl | h
    · exact le_max_left _ _
    · exact (Block.depth_le_of_mem h).trans (le_max_right _ _)

theorem Block.depth_lt_of_mem_parts {b : Block} {x : Part} (h : x ∈ b.parts) :
    x.depth < b.depth := by
  obtain ⟨st, hst, hx⟩ := List.mem_flatMap.1 h
  exact (Statement.depth_lt_of_mem_parts hx).trans_le (Block.depth_le_of_mem hst)

namespace Part

theorem depth_lt_of_mem_parts {x y : Part} (h : y ∈ x.parts) : y.depth < x.depth := by
  cases x with
  | block b => exact Block.depth_lt_of_mem_parts h
  | cond c =>
    cases c with
    | compare op l r | conj l r | disj l r =>
      rcases List.mem_pair.1 h with rfl | rfl
      · exact Nat.lt_succ_of_le (le_max_left _ _)
      · exact Nat.lt_succ_of_le (le_max_right _ _)
    | neg c =>
      rw [List.mem_singleton.1 h]
      exact Nat.lt_succ_self _
  | expr e =>
    cases e with
    | num v | sensor x => exact absurd h List.not_mem_nil
    | binary op l r =>
      rcases List.mem_pair.1 h with rfl | rfl
      · exact Nat.lt_succ_of_le (le_max_left _ _)
      · exact Nat.lt_succ_of_le (le_max_right _ _)

theorem Encloses.depth_lt {x y : Part} (h : x.Encloses y) : y.depth < x.depth := by
  induction h with
  | single h => exact depth_lt_of_mem_parts h
  | tail _ h ih => exact (depth_lt_of_mem_parts h).trans ih

/-- Every part of a chain but the first is one level down from the part before it. -/
theorem length_le_of_isChain {x : Part} {xs : List Part} (h : (x :: xs).IsChain Encloses) :
    xs.length ≤ x.depth := by
  induction xs generalizing x with
  | nil => exact Nat.zero_le _
  | cons y xs ih =>
    obtain ⟨hxy, hys⟩ := List.isChain_cons_cons.1 h
    exact (Nat.succ_le_succ (ih hys)).trans hxy.depth_lt

end Part

theorem Program.Contains.depth_lt {p : Program} {x : Part} (h : p.Contains x) :
    x.depth < p.body.depth := by
  obtain ⟨y, hy, hyx⟩ := h
  have hle : x.depth ≤ y.depth := by
    rcases Relation.reflTransGen_iff_eq_or_transGen.1 hyx with rfl | hyx
    · exact le_rfl
    · exact (Part.Encloses.depth_lt hyx).le
  exact hle.trans_lt (Block.depth_lt_of_mem_parts hy)

/-- A chain of parts of a program, each inside the one before it, is no longer than the program is
deep. -/
theorem Program.length_le_depth {p : Program} {xs : List Part} (hp : ∀ x ∈ xs, p.Contains x)
    (hxs : xs.IsChain Part.Encloses) : xs.length ≤ p.body.depth := by
  cases xs with
  | nil => exact Nat.zero_le _
  | cons x xs =>
    have hlength := Nat.succ_le_succ (Part.length_le_of_isChain hxs)
    exact hlength.trans (hp x List.mem_cons_self).depth_lt

/-! ### Canonical form -/

/-- The canonical text of the program that a text holds. -/
def Program.reprint (source : String) : Except ParseError String :=
  (Program.parse source).map Program.render

theorem Program.depth_le_of_parse {source : String} {p : Program}
    (h : Program.parse source = .ok p) :
    p.body.depth ≤ nesting (textTokens source) ∧ nesting (textTokens source) ≤ 200 := by
  obtain ⟨hd, hle⟩ := Program.parse_eq_ok_iff.1 h
  rw [nesting_textTokens]
  exact ⟨nesting_textTokens source ▸ hd.depth_le, hle⟩

theorem Program.parse_render_of_parse {source : String} {p : Program}
    (h : Program.parse source = .ok p) : Program.parse p.render = .ok p := by
  obtain ⟨hdepth, hle⟩ := Program.depth_le_of_parse h
  refine Program.parse_eq_ok_iff.2 ⟨p.derives_render, ?_⟩
  rw [p.textNesting_render]
  exact hdepth.trans hle

/-- **An accepted program is not too deep to be printed and read again.** Its printed text is nested
no deeper than the text it came from, no chain of blocks, conditions and expressions inside one
another is longer than 200, and printing gives a canonical text: it is read back as the same
program, so that reading and printing it once more changes nothing. -/
theorem Program.render_canonical {source : String} {p : Program}
    (h : Program.parse source = .ok p) :
    textNesting p.render ≤ nesting (textTokens source) ∧
      textNesting p.render ≤ 200 ∧
      (∀ xs : List Part, (∀ x ∈ xs, p.Contains x) → xs.IsChain Part.Encloses → xs.length ≤ 200) ∧
      Program.parse p.render = .ok p ∧
      (Program.reprint source >>= Program.reprint) = Program.reprint source := by
  obtain ⟨hdepth, hle⟩ := Program.depth_le_of_parse h
  have hparse := Program.parse_render_of_parse h
  rw [p.textNesting_render]
  refine ⟨hdepth, hdepth.trans hle, fun xs hp hxs => ?_, hparse, ?_⟩
  · exact (Program.length_le_depth hp hxs).trans (hdepth.trans hle)
  · have hreprint : Program.reprint source = .ok p.render := by rw [Program.reprint, h]; rfl
    have hagain : Program.reprint p.render = .ok p.render := by rw [Program.reprint, hparse]; rfl
    rw [hreprint]
    exact hagain

/-- A conditional whose second block holds a movement. -/
def Program.sidestep : Program :=
  ⟨.single (.ifElse (.compare .eq (.num 1) (.num 2)) (.single (.action .turnRight))
    (.single (.action (.move (some (.num 3))))))⟩

/-- A text of it with two pairs of braces after `else`. -/
def Program.sidestepText : String :=
  "if (eq(1, 2)) \x7bturnR;\x7d else \x7b\x7bmove(3);\x7d\x7d"

/-- With two pairs of braces after `else`, a text is deeper than its canonical form. -/
theorem Program.render_canonical_sidestep :
    Program.parse Program.sidestepText = .ok Program.sidestep ∧
      nesting (textTokens Program.sidestepText) = 3 ∧ textNesting Program.sidestep.render = 2 ∧
      (∀ xs : List Part, (∀ x ∈ xs, Program.sidestep.Contains x) → xs.IsChain Part.Encloses →
        xs.length ≤ 200) ∧
      Program.parse Program.sidestep.render = .ok Program.sidestep ∧
      (Program.reprint Program.sidestepText >>= Program.reprint) =
        Program.reprint Program.sidestepText := by
  have hparse : Program.parse Program.sidestepText = .ok Program.sidestep := by rfl
  have hdepth : Program.sidestep.body.depth = 2 := by decide
  obtain ⟨-, -, hchains, hback, hidem⟩ := Program.render_canonical hparse
  exact ⟨hparse, by decide, Program.sidestep.textNesting_render.trans hdepth, hchains, hback, hidem⟩

end RobotControl
