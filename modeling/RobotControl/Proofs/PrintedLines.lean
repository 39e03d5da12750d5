import Mathlib.Tactic
import RobotControl.Proofs.RoundTrip

/-!
# The lines of a printed program

A line of a printed program is indented by the braces that are open in front of it, and every
statement starts a line of its own.

* `Statement.nested`: a statement and all statements inside of it, with the blocks around each;
* `LaidOut d xs ls`: the lines `ls` of the statements `xs` inside `d` blocks, by the way in which
  statements are built;
* `Indented d ls d'`: in front of the lines `ls`, `d` braces are open, behind them `d'`, and each
  line is indented by those that are open in front of it.
-/

namespace RobotControl

/-! ### Text inside a line -/

/-- Neither a brace nor the end of a line stands in the text. -/
def Inline (cs : List Char) : Prop := ∀ c ∈ cs, c ≠ '\n' ∧ c ≠ '\x7b' ∧ c ≠ '\x7d'

instance (cs : List Char) : Decidable (Inline cs) :=
  List.decidableBAll (fun c => c ≠ '\n' ∧ c ≠ '\x7b' ∧ c ≠ '\x7d') cs

namespace Inline

variable {cs ds : List Char}

theorem append (hcs : Inline cs) (hds : Inline ds) : Inline (cs ++ ds) := by
  intro c hc
  rcases List.mem_append.1 hc with hc | hc
  · exact hcs c hc
  · exact hds c hc

theorem newline (h : Inline cs) : '\n' ∉ cs := fun hmem => (h _ hmem).1 rfl

theorem opening (h : Inline cs) : cs.count '\x7b' = 0 :=
  List.count_eq_zero.2 fun hmem => (h _ hmem).2.1 rfl

theorem closing (h : Inline cs) : cs.count '\x7d' = 0 :=
  List.count_eq_zero.2 fun hmem => (h _ hmem).2.2 rfl

theorem of_isDigit (h : ∀ c ∈ cs, c.isDigit = true) : Inline cs := by
  intro c hc
  refine ⟨?_, ?_, ?_⟩
  all_goals
    rintro rfl
    exact absurd (h _ hc) (by decide)

end Inline

theorem inline_of_numeral {w : String} {v : Int64} (h : Numeral w v) : Inline w.toList := by
  cases h with
  | unsigned _ hds _ =>
    rw [String.toList_ofList]
    exact .of_isDigit hds
  | negative _ hds _ =>
    rw [String.toList_ofList]
    have hsign : Inline ['-'] := by decide
    exact hsign.append (.of_isDigit hds)

theorem inline_renderPair {w x y : String} (hw : Inline w.toList) (hx : Inline x.toList)
    (hy : Inline y.toList) : Inline (renderPair w x y).toList := by
  have hopen : Inline "(".toList := by decide
  have hcomma : Inline ", ".toList := by decide
  have hclose : Inline ")".toList := by decide
  simp only [renderPair, String.toList_append]
  exact (((hw.append hopen).append hx).append hcomma |>.append hy).append hclose

theorem Expr.inline_render (e : Expr) : Inline e.render.toList := by
  induction e with
  | num v => exact inline_of_numeral (numeral_renderInt v)
  | sensor s => cases s <;> decide
  | binary op l r ihl ihr =>
    exact inline_renderPair (by cases op <;> decide) ihl ihr

theorem Cond.inline_render (c : Cond) : Inline c.render.toList := by
  induction c with
  | compare op l r =>
    exact inline_renderPair (by cases op <;> decide) l.inline_render r.inline_render
  | conj l r ihl ihr | disj l r ihl ihr => exact inline_renderPair (by decide) ihl ihr
  | neg c ih =>
    have hopen : Inline "not(".toList := by decide
    have hclose : Inline ")".toList := by decide
    simp only [Cond.render, String.toList_append]
    exact (hopen.append ih).append hclose

theorem Action.inline_render (a : Action) : Inline (Action.render a).toList := by
  have hword : Inline a.word.toList := by
    cases a with
    | shield raised => cases raised <;> simp only [Command.word] <;> decide
    | _ =>
      simp only [Command.word]
      decide
  rw [Action.render, Command.render]
  cases a.operand? with
  | none => exact hword
  | some e =>
    have hopen : Inline "(".toList := by decide
    have hclose : Inline ")".toList := by decide
    simp only [String.toList_append]
    exact ((hword.append hopen).append e.inline_render).append hclose

/-! ### Statements and their lines -/

/-- A line inside `d` blocks. -/
def lineAt (d : Nat) (cs : List Char) : List Char := List.replicate (4 * d) ' ' ++ cs

/-- The text of the given lines. -/
def ended (ls : List (List Char)) : List Char := ls.flatMap (· ++ ['\n'])

theorem ended_cons (l : List Char) (ls : List (List Char)) :
    ended (l :: ls) = l ++ '\n' :: ended ls := by
  simp [ended]

theorem ended_append (ls ms : List (List Char)) : ended (ls ++ ms) = ended ls ++ ended ms :=
  List.flatMap_append

/-- The first line of a statement, up to the brace that opens its block. -/
def Statement.lead : Statement → String
  | .action a => Action.render a ++ ";"
  | .loop _ => "loop "
  | .ifThen test _ | .ifElse test _ _ => "if (" ++ test.render ++ ") "
  | .whileLoop test _ => "while (" ++ test.render ++ ") "

/-- The number of lines of a statement, without those of the statements inside of it. -/
def Statement.ownLines : Statement → Nat
  | .action _ => 1
  | .loop _ | .ifThen _ _ | .whileLoop _ _ => 2
  | .ifElse _ _ _ => 3

/-- The first line of a statement, without its indentation. -/
def Statement.head (st : Statement) : List Char :=
  st.lead.toList ++ if st.ownLines = 1 then [] else ['\x7b']

mutual

/-- A statement inside `d` blocks and all statements inside of it, each with the number of blocks
around it. -/
def Statement.nested (d : Nat) : Statement → List (Nat × Statement)
  | .action a => [(d, .action a)]
  | .loop body => (d, .loop body) :: body.nested (d + 1)
  | .ifThen test yes => (d, .ifThen test yes) :: yes.nested (d + 1)
  | .ifElse test yes no => (d, .ifElse test yes no) :: (yes.nested (d + 1) ++ no.nested (d + 1))
  | .whileLoop test body => (d, .whileLoop test body) :: body.nested (d + 1)

/-- The statements of a block inside `d` blocks and all statements inside of them. -/
def Block.nested (d : Nat) : Block → List (Nat × Statement)
  | .single s => s.nested d
  | .cons s rest => s.nested d ++ rest.nested d

end

/-- `LaidOut d xs ls`: the lines of statements inside `d` blocks, where `xs` are these statements
and all statements inside of them. -/
inductive LaidOut : Nat → List (Nat × Statement) → List (List Char) → Prop
  | line {d : Nat} {st : Statement} (hown : st.ownLines = 1) :
    LaidOut d [(d, st)] [lineAt d st.head]
  | block {d : Nat} {st : Statement} {xs : List (Nat × Statement)} {ls : List (List Char)}
      (hown : st.ownLines = 2) (hbody : LaidOut (d + 1) xs ls) :
    LaidOut d ((d, st) :: xs) (lineAt d st.head :: (ls ++ [lineAt d ['\x7d']]))
  | blocks {d : Nat} {st : Statement} {xs ys : List (Nat × Statement)} {ls ms : List (List Char)}
      (hown : st.ownLines = 3) (hyes : LaidOut (d + 1) xs ls) (hno : LaidOut (d + 1) ys ms) :
    LaidOut d ((d, st) :: (xs ++ ys))
      (lineAt d st.head ::
        (ls ++ lineAt d ('\x7d' :: " else \x7b".toList) :: (ms ++ [lineAt d ['\x7d']])))
  | append {d : Nat} {xs ys : List (Nat × Statement)} {ls ms : List (List Char)}
      (hfirst : LaidOut d xs ls) (hrest : LaidOut d ys ms) : LaidOut d (xs ++ ys) (ls ++ ms)

theorem toList_braces (d : Nat) {s : String} {ls : List (List Char)} (hs : s.toList = ended ls) :
    (braces d s).toList = '\x7b' :: '\n' :: (ended ls ++ lineAt d ['\x7d']) := by
  simp [braces, indent, lineAt, hs]

/-- The text of a statement with one block. -/
theorem toList_block (d : Nat) {st : Statement} (hown : st.ownLines = 2) {s : String}
    {ls : List (List Char)} (hs : s.toList = ended ls) :
    (indent d ++ (st.lead ++ (braces d s ++ "\n"))).toList =
      ended (lineAt d st.head :: (ls ++ [lineAt d ['\x7d']])) := by
  simp only [String.toList_append, toList_braces d hs, ended_cons, ended_append]
  simp [indent, lineAt, Statement.head, hown, ended]

mutual

theorem Statement.exists_laidOut (d : Nat) (st : Statement) :
    ∃ ls, LaidOut d (st.nested d) (lineAt d st.head :: ls) ∧
      (st.render d).toList = ended (lineAt d st.head :: ls) := by
  cases st with
  | action a =>
    refine ⟨_, .line rfl, ?_⟩
    simp [Statement.render, indent, ended, lineAt, Statement.head, Statement.lead,
      Statement.ownLines]
  | loop body =>
    obtain ⟨ls, hls, htext⟩ := body.exists_laidOut (d + 1)
    refine ⟨_, .block rfl hls, ?_⟩
    rw [← toList_block d rfl htext, Statement.render, Statement.lead]
    simp only [String.append_assoc]
  | ifThen test yes =>
    obtain ⟨ls, hls, htext⟩ := yes.exists_laidOut (d + 1)
    refine ⟨_, .block rfl hls, ?_⟩
    rw [← toList_block d rfl htext, Statement.render, Statement.lead]
    simp only [String.append_assoc]
  | ifElse test yes no =>
    obtain ⟨ls, hls, htext⟩ := yes.exists_laidOut (d + 1)
    obtain ⟨ms, hms, htext'⟩ := no.exists_laidOut (d + 1)
    refine ⟨_, .blocks rfl hls hms, ?_⟩
    simp only [Statement.render, String.toList_append, toList_braces d htext,
      toList_braces d htext', ended_cons, ended_append]
    simp [indent, lineAt, Statement.head, Statement.lead, Statement.ownLines, ended]
  | whileLoop test body =>
    obtain ⟨ls, hls, htext⟩ := body.exists_laidOut (d + 1)
    refine ⟨_, .block rfl hls, ?_⟩
    rw [← toList_block d rfl htext, Statement.render, Statement.lead]
    simp only [String.append_assoc]

theorem Block.exists_laidOut (d : Nat) (b : Block) :
    ∃ ls, LaidOut d (b.nested d) ls ∧ (b.lines d).toList = ended ls := by
  cases b with
  | single st =>
    obtain ⟨ls, hst⟩ := st.exists_laidOut d
    exact ⟨_, hst⟩
  | cons st rest =>
    obtain ⟨ls, hls, htext⟩ := st.exists_laidOut d
    obtain ⟨ms, hms, htext'⟩ := rest.exists_laidOut d
    refine ⟨_, .append hls hms, ?_⟩
    rw [Block.lines, String.toList_append, htext, htext', ended_append]

end

/-! ### How statements begin -/

theorem Statement.inline_lead (st : Statement) : Inline st.lead.toList := by
  have hclose : Inline ") ".toList := by decide
  cases st with
  | action a =>
    rw [Statement.lead, String.toList_append]
    exact (Action.inline_render a).append (by decide)
  | loop body => exact (by decide : Inline "loop ".toList)
  | ifThen test yes | ifElse test yes no =>
    have hword : Inline "if (".toList := by decide
    simp only [Statement.lead, String.toList_append]
    exact (hword.append test.inline_render).append hclose
  | whileLoop test body =>
    have hword : Inline "while (".toList := by decide
    simp only [Statement.lead, String.toList_append]
    exact (hword.append test.inline_render).append hclose

/-- The text begins with a character other than a space. -/
def begins (cs : List Char) : Bool := cs.head?.any (· ≠ ' ')

theorem begins_iff {cs : List Char} : begins cs = true ↔ ∃ c ds, cs = c :: ds ∧ c ≠ ' ' := by
  cases cs <;> simp [begins]

theorem begins_append {cs : List Char} (h : begins cs = true) (ds : List Char) :
    begins (cs ++ ds) = true := by
  obtain ⟨c, cs, rfl, hc⟩ := begins_iff.1 h
  exact begins_iff.2 ⟨c, cs ++ ds, rfl, hc⟩

theorem Command.begins_word {α : Type} (a : Command α) : begins a.word.toList = true := by
  cases a with
  | shield raised => cases raised <;> simp only [Command.word] <;> decide
  | _ =>
    simp only [Command.word]
    decide

theorem Statement.begins_lead (st : Statement) : begins st.lead.toList = true := by
  cases st with
  | action a =>
    have hword := Command.begins_word a
    rw [Statement.lead, Action.render, Command.render, String.toList_append]
    refine begins_append ?_ _
    cases a.operand? with
    | none => exact hword
    | some e =>
      simp only [String.toList_append, List.append_assoc]
      exact begins_append hword _
  | loop body => exact (by decide : begins "loop ".toList = true)
  | ifThen test yes | ifElse test yes no =>
    simp only [Statement.lead, String.toList_append, List.append_assoc]
    exact begins_append (by decide) _
  | whileLoop test body =>
    simp only [Statement.lead, String.toList_append, List.append_assoc]
    exact begins_append (by decide) _

theorem Statement.head_eq_cons (st : Statement) :
    ∃ c cs, st.head = c :: cs ∧ c ≠ ' ' ∧ c ≠ '\x7d' := by
  obtain ⟨c, cs, hcs, hc⟩ := begins_iff.1 st.begins_lead
  have hne : c ≠ '\x7d' := (st.inline_lead c (by simp [hcs])).2.2
  exact ⟨c, _, by rw [Statement.head, hcs, List.cons_append], hc, hne⟩

theorem Statement.newline_not_mem_head (st : Statement) : '\n' ∉ st.head := by
  have hlead := st.inline_lead.newline
  rw [Statement.head]
  split_ifs <;> simp [hlead]

/-- The first line of a statement inside `d` blocks. -/
def Statement.firstLine (d : Nat) (st : Statement) : List Char :=
  (st.render d).toList.takeWhile (· ≠ '\n')

/-! ### Indentation -/

/-- `Indented d ls d'`: when `d` braces are open in front of the lines `ls`, each of them is
indented by the braces that are open in front of it, a closing brace by one less, and `d'` are open
in the end. -/
inductive Indented : Nat → List (List Char) → Nat → Prop
  | nil (d : Nat) : Indented d [] d
  | cons {d d' d'' k : Nat} {c : Char} {cs : List Char} {ls : List (List Char)} (hc : c ≠ ' ')
      (hk : k + (if c = '\x7d' then 1 else 0) = d)
      (hd : d + (c :: cs).count '\x7b' = d' + (c :: cs).count '\x7d') (h : Indented d' ls d'') :
    Indented d (lineAt k (c :: cs) :: ls) d''

namespace Indented

variable {d d' d'' : Nat} {ls ms : List (List Char)}

theorem append (h : Indented d ls d') (h' : Indented d' ms d'') : Indented d (ls ++ ms) d'' := by
  induction h with
  | nil => exact h'
  | cons hc hk hd _ ih => exact .cons hc hk hd (ih h')

theorem count_eq (h : Indented d ls d') :
    d + ls.flatten.count '\x7b' = d' + ls.flatten.count '\x7d' := by
  induction h with
  | nil => rfl
  | @cons d d' _ k _ _ _ _ _ hd _ ih =>
    have hopen : (List.replicate (4 * k) ' ').count '\x7b' = 0 := List.count_replicate ..
    have hclose : (List.replicate (4 * k) ' ').count '\x7d' = 0 := List.count_replicate ..
    rw [List.flatten_cons, lineAt, List.count_append, List.count_append, List.count_append,
      List.count_append, hopen, hclose]
    omega

/-- What is known of one of the lines. -/
theorem exists_of_append {l : List Char} (h : Indented d (ls ++ l :: ms) d') :
    ∃ d₁ k c cs, Indented d ls d₁ ∧ l = lineAt k (c :: cs) ∧ c ≠ ' ' ∧
      k + (if c = '\x7d' then 1 else 0) = d₁ := by
  induction ls generalizing d with
  | nil =>
    cases h with
    | cons hc hk _ _ => exact ⟨d, _, _, _, .nil d, rfl, hc, hk⟩
  | cons m ls ih =>
    cases h with
    | cons hc hk hd h =>
      obtain ⟨d₁, k, c, cs, hls, hl⟩ := ih h
      exact ⟨d₁, k, c, cs, .cons hc hk hd hls, hl⟩

/-- The first line of a statement, which opens a brace unless it is the only one. -/
theorem head (st : Statement) (h : Indented (d + if st.ownLines = 1 then 0 else 1) ls d') :
    Indented d (lineAt d st.head :: ls) d' := by
  have hopen : st.head.count '\x7b' = if st.ownLines = 1 then 0 else 1 := by
    rw [Statement.head, List.count_append, st.inline_lead.opening]
    split_ifs <;> rfl
  have hclose : st.head.count '\x7d' = 0 := by
    rw [Statement.head, List.count_append, st.inline_lead.closing]
    split_ifs <;> rfl
  obtain ⟨c, cs, hcs, hc, hne⟩ := st.head_eq_cons
  rw [hcs] at hopen hclose ⊢
  refine .cons hc (by rw [if_neg hne, Nat.add_zero]) ?_ h
  rw [hopen, hclose, Nat.add_zero]

/-- A line that closes a block, and may open another one. -/
theorem close (tail : List Char)
    (hd : d + tail.count '\x7b' = d' + tail.count '\x7d') (h : Indented d' ls d'') :
    Indented (d + 1) (lineAt d ('\x7d' :: tail) :: ls) d'' := by
  refine .cons (by decide) (by rw [if_pos rfl]) ?_ h
  rw [List.count_cons_self, List.count_cons_of_ne (by decide)]
  omega

end Indented

theorem LaidOut.indented {d : Nat} {xs : List (Nat × Statement)} {ls : List (List Char)}
    (h : LaidOut d xs ls) : Indented d ls d := by
  induction h with
  | @line d st hown =>
    refine .head st ?_
    rw [if_pos hown]
    exact .nil d
  | @block d st _ _ hown _ ih =>
    refine .head st ?_
    rw [if_neg (by omega)]
    exact ih.append (.close [] rfl (.nil d))
  | @blocks d st _ _ _ _ hown _ _ ihyes ihno =>
    have helse :
        d + " else \x7b".toList.count '\x7b' = d + 1 + " else \x7b".toList.count '\x7d' := rfl
    -- the line between the two blocks closes one brace and opens another
    have hno := ihno.append (.close [] rfl (.nil d))
    refine .head st ?_
    rw [if_neg (by omega)]
    exact ihyes.append (.close _ helse hno)
  | append _ _ ihfirst ihrest => exact ihfirst.append ihrest

/-! ### Which line begins a statement -/

/-- The first character of the line, apart from spaces, is a closing brace. -/
def closes (l : List Char) : Bool := (l.dropWhile (· = ' ')).head? = some '\x7d'

theorem closes_lineAt (d : Nat) {c : Char} (hc : c ≠ ' ') (cs : List Char) :
    closes (lineAt d (c :: cs)) = decide (c = '\x7d') := by
  have hblank : ∀ b ∈ List.replicate (4 * d) ' ', decide (b = ' ') = true := by simp
  rw [closes, lineAt, List.dropWhile_append_of_pos hblank,
    List.dropWhile_cons_of_neg (by simpa using hc)]
  simp

@[simp] theorem Statement.closes_head (d : Nat) (st : Statement) :
    closes (lineAt d st.head) = false := by
  obtain ⟨c, cs, hcs, hc, hne⟩ := st.head_eq_cons
  rw [hcs, closes_lineAt d hc]
  exact decide_eq_false hne

@[simp] theorem closes_brace (d : Nat) (tail : List Char) :
    closes (lineAt d ('\x7d' :: tail)) = true :=
  closes_lineAt d (by decide) tail

theorem newline_not_mem_lineAt (d : Nat) {cs : List Char} (h : '\n' ∉ cs) : '\n' ∉ lineAt d cs := by
  simp [lineAt, h]

theorem Statement.firstLine_eq (d : Nat) (st : Statement) : st.firstLine d = lineAt d st.head := by
  obtain ⟨ls, -, htext⟩ := st.exists_laidOut d
  have hline : ∀ c ∈ lineAt d st.head, decide (c ≠ '\n') = true := by
    rintro c hc
    rw [decide_eq_true_iff]
    rintro rfl
    exact newline_not_mem_lineAt d st.newline_not_mem_head hc
  rw [Statement.firstLine, htext, ended_cons, List.takeWhile_append_of_pos hline,
    List.takeWhile_cons_of_neg (by simp), List.append_nil]

theorem LaidOut.newline_not_mem {d : Nat} {xs : List (Nat × Statement)} {ls : List (List Char)}
    (h : LaidOut d xs ls) : ∀ l ∈ ls, '\n' ∉ l := by
  have hhead (d : Nat) (st : Statement) : '\n' ∉ lineAt d st.head :=
    newline_not_mem_lineAt d st.newline_not_mem_head
  have hclose (d : Nat) : '\n' ∉ lineAt d ['\x7d'] := newline_not_mem_lineAt d (by decide)
  have helse (d : Nat) : '\n' ∉ lineAt d ('\x7d' :: " else \x7b".toList) :=
    newline_not_mem_lineAt d (by decide)
  induction h with
  | line => simpa using hhead _ _
  | block _ _ ih =>
    simp only [List.forall_mem_cons, List.forall_mem_append]
    exact ⟨hhead _ _, ih, hclose _, List.forall_mem_nil _⟩
  | blocks _ _ _ ihyes ihno =>
    simp only [List.forall_mem_cons, List.forall_mem_append]
    exact ⟨hhead _ _, ihyes, helse _, ihno, hclose _, List.forall_mem_nil _⟩
  | append _ _ ihfirst ihrest =>
    exact List.forall_mem_append.2 ⟨ihfirst, ihrest⟩

/-- The lines that do not begin with a closing brace are the first lines of the statements. -/
theorem LaidOut.filter_closes {d : Nat} {xs : List (Nat × Statement)} {ls : List (List Char)}
    (h : LaidOut d xs ls) :
    ls.filter (fun l => !closes l) = xs.map fun x => x.2.firstLine x.1 := by
  induction h with
  | line => simp [Statement.firstLine_eq]
  | block _ _ ih => simp [Statement.firstLine_eq, ih]
  | blocks _ _ _ ihyes ihno => simp [Statement.firstLine_eq, ihyes, ihno]
  | append _ _ ihfirst ihrest => simp [ihfirst, ihrest]

theorem LaidOut.length_eq {d : Nat} {xs : List (Nat × Statement)} {ls : List (List Char)}
    (h : LaidOut d xs ls) : ls.length = (xs.map fun x => x.2.ownLines).sum := by
  induction h with
  | line hown => simp [hown]
  | block hown _ ih =>
    simp only [List.map_cons, List.sum_cons, List.length_cons, List.length_append, List.length_nil,
      hown, ih]
    omega
  | blocks hown _ _ ihyes ihno =>
    simp only [List.map_cons, List.map_append, List.sum_cons, List.sum_append, List.length_cons,
      List.length_append, List.length_nil, hown, ihyes, ihno]
    omega
  | append _ _ ihfirst ihrest => simp [ihfirst, ihrest]

theorem LaidOut.ne_nil {d : Nat} {xs : List (Nat × Statement)} {ls : List (List Char)}
    (h : LaidOut d xs ls) : ls ≠ [] := by
  induction h with
  | line | block | blocks => exact List.cons_ne_nil _ _
  | append _ _ ihfirst _ => exact List.append_ne_nil_of_left_ne_nil ihfirst _

/-! ### Programs -/

theorem splitOn_ended {ls : List (List Char)} (h : ∀ l ∈ ls, '\n' ∉ l) :
    (ended ls).splitOn '\n' = ls ++ [[]] := by
  induction ls with
  | nil => rfl
  | cons l ls ih =>
    obtain ⟨hl, hls⟩ := List.forall_mem_cons.1 h
    have hinside : ∀ c ∈ l, (c == '\n') = false := by
      rintro c hc
      exact beq_false_of_ne fun heq => hl (heq ▸ hc)
    rw [ended_cons, List.splitOn, List.splitOnP_append_cons_of_forall_mem hinside _ (by decide),
      List.cons_append, ← ih hls, List.splitOn]

theorem getLast?_ended {ls : List (List Char)} (h : ls ≠ []) : (ended ls).getLast? = some '\n' := by
  rw [← List.dropLast_append_getLast h, ended, List.flatMap_append, List.flatMap_singleton,
    ← List.append_assoc, List.getLast?_concat]

/-- **The layout of a printed program.**

Its text ends with a newline, and none of its lines is empty.  Each line starts with four spaces for
each brace that is open in front of it, but for the one that it closes, and goes on with another
character.  The lines that do not begin with a closing brace are the first lines of the statements,
so that each statement has a line of its own; there is one line for an action, two for a block and
three for two. -/
theorem Program.render_layout (p : Program) :
    ∃ ls : List (List Char),
      p.render.toList.splitOn '\n' = ls ++ [[]] ∧ p.render.toList.getLast? = some '\n' ∧ [] ∉ ls ∧
      (∀ before l after, ls = before ++ l :: after → ∃ (k : Nat) (c : Char) (cs : List Char),
        l = List.replicate (4 * k) ' ' ++ c :: cs ∧ c ≠ ' ' ∧
          (k : Int) = before.flatten.count '\x7b' - before.flatten.count '\x7d' -
            if c = '\x7d' then 1 else 0) ∧
      ls.filter (fun l => !closes l) = (p.body.nested 0).map (fun x => x.2.firstLine x.1) ∧
      ls.length = ((p.body.nested 0).map fun x => x.2.ownLines).sum := by
  obtain ⟨ls, hls, htext⟩ := p.body.exists_laidOut 0
  have htext : p.render.toList = ended ls := htext
  refine ⟨ls, ?_, ?_, ?_, ?_, hls.filter_closes, hls.length_eq⟩
  · rw [htext, splitOn_ended hls.newline_not_mem]
  · rw [htext, getLast?_ended hls.ne_nil]
  · intro hmem
    obtain ⟨before, after, rfl⟩ := List.append_of_mem hmem
    obtain ⟨-, k, c, cs, -, hl, -⟩ := hls.indented.exists_of_append
    simp [lineAt] at hl
  · -- the braces that are open in front of a line are counted over all lines before it
    rintro before l after rfl
    obtain ⟨d, k, c, cs, hbefore, hl, hc, hk⟩ := hls.indented.exists_of_append
    have hcount := hbefore.count_eq
    refine ⟨k, c, cs, hl, hc, ?_⟩
    split_ifs at hk ⊢ <;> omega

end RobotControl
