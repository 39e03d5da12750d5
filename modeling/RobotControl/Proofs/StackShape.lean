import Mathlib.Tactic
import RobotControl.Proofs.Accounting
import RobotControl.Proofs.Depth

/-!
# The shape of the stack

The frames of a stepper mirror a path in its program: from the statements of the whole program,
through the statement under way at each level, to the innermost block.  A frame keeps only what is
left to do, so the path is stated over frames together with what they have been through.

* `Site`: a frame with the whole of its sequence, and how far it has come;
* `Site.Over`: which site can stand on which;
* `Site.Path`: sites that lead from a program inward.  Every transition preserves this;
* `Statement.levels`, `Block.levels`: how deep blocks are nested.  A path takes two sites at most
  for each level, however long the run has been.
-/

namespace RobotControl

/-- One level of a stack: a sequence of which the first `next` statements have been begun, or a
loop, endless or with a condition. -/
inductive Site where
  | seq (statements : List Statement) (next : Nat)
  | again (test? : Option Cond) (body : Block) (mark : Option Nat)
deriving DecidableEq, Repr

/-- The sites that a statement can open, before anything is done there. -/
def Statement.sites : Statement → List Site
  | .action _ => []
  | .loop body => [.again none body none]
  | .ifThen _ yes => [.seq yes.toList 0]
  | .ifElse _ yes no => [.seq yes.toList 0, .seq no.toList 0]
  | .whileLoop test body => [.again (some test) body none]

namespace Site

/-- What a stepper keeps of a site. -/
def frame : Site → Frame
  | .seq statements next => .seq (statements.drop next)
  | .again test? body mark => .again test? body mark

/-- A site before anything was done there. -/
def fresh : Site → Site
  | .seq statements _ => .seq statements 0
  | .again test? body _ => .again test? body none

/-- No more statements have been begun than there are. -/
def InBounds : Site → Prop
  | .seq statements next => next ≤ statements.length
  | .again _ _ _ => True

/-- The site `x` can stand on the site `y` after `n` actions.  On a sequence, `x` belongs to the
statement that was begun last; on a loop, it is the body, and the loop has its mark. -/
def Over (n : Nat) (x y : Site) : Prop :=
  match y with
  | .seq statements next =>
    ∃ i st, next = i + 1 ∧ statements[i]? = some st ∧ x.fresh ∈ st.sites
  | .again _ body mark => x.fresh = .seq body.toList 0 ∧ ∃ k ≤ n, mark = some k

/-- The sites lead from the program `p` inward, the innermost first, after `n` actions. -/
structure Path (p : Program) (n : Nat) (sites : List Site) : Prop where
  bottom : ∀ x ∈ sites.getLast?, x.fresh = .seq p.statements 0
  linked : sites.IsChain (Over n)
  inBounds : ∀ x ∈ sites, x.InBounds

variable {p : Program} {n : Nat} {x y : Site} {below : List Site}

theorem Over.congr (h : Over n x y) {x' : Site} (hx : x'.fresh = x.fresh) : Over n x' y := by
  cases y with
  | seq statements next =>
    obtain ⟨i, st, hnext, hst, hmem⟩ := h
    exact ⟨i, st, hnext, hst, hx ▸ hmem⟩
  | again test? body mark => exact ⟨hx.trans h.1, h.2⟩

theorem Over.mono {n' : Nat} (hn : n ≤ n') (h : Over n x y) : Over n' x y := by
  cases y with
  | seq statements next => exact h
  | again test? body mark =>
    obtain ⟨hx, k, hk, hmark⟩ := h
    exact ⟨hx, k, hk.trans hn, hmark⟩

/-- A statement opens sites at which nothing was done. -/
theorem of_mem_sites {st : Statement} (h : x ∈ st.sites) : x.fresh = x ∧ x.InBounds := by
  cases st with
  | action a => exact absurd h List.not_mem_nil
  | loop body | whileLoop test body =>
    rw [List.mem_singleton.1 h]
    exact ⟨rfl, trivial⟩
  | ifThen test yes =>
    rw [List.mem_singleton.1 h]
    exact ⟨rfl, Nat.zero_le _⟩
  | ifElse test yes no =>
    rcases List.mem_pair.1 h with rfl | rfl
    · exact ⟨rfl, Nat.zero_le _⟩
    · exact ⟨rfl, Nat.zero_le _⟩

namespace Path

theorem start (p : Program) : Path p 0 [.seq p.statements 0] where
  bottom := by
    rintro x hx
    cases hx
    rfl
  linked := List.isChain_singleton _
  inBounds := by
    intro x hx
    rw [List.mem_singleton.1 hx]
    exact Nat.zero_le _

theorem nil : Path p n [] where
  bottom := by simp
  linked := List.isChain_nil
  inBounds := by simp

theorem mono {n' : Nat} {sites : List Site} (hn : n ≤ n') (h : Path p n sites) : Path p n' sites :=
  ⟨h.bottom, h.linked.imp fun _ _ => Over.mono hn, h.inBounds⟩

theorem pop (h : Path p n (x :: below)) : Path p n below where
  bottom y hy := by
    cases below with
    | nil => cases hy
    | cons z below => exact h.bottom y hy
  linked := h.linked.tail
  inBounds y hy := h.inBounds y (List.mem_cons_of_mem x hy)

theorem push (h : Path p n (x :: below)) (hy : Over n y x) (hin : y.InBounds) :
    Path p n (y :: x :: below) where
  bottom := h.bottom
  linked := List.isChain_cons_cons.2 ⟨hy, h.linked⟩
  inBounds z hz := by
    rcases List.mem_cons.1 hz with rfl | hz
    · exact hin
    · exact h.inBounds z hz

/-- The innermost site goes on, or goes back to its beginning. -/
theorem move (h : Path p n (x :: below)) (hy : y.fresh = x.fresh) (hin : y.InBounds) :
    Path p n (y :: below) := by
  cases below with
  | nil =>
    refine ⟨fun z hz => ?_, List.isChain_singleton y, fun z hz => ?_⟩
    · cases hz
      exact hy.trans (h.bottom x rfl)
    · rw [List.mem_singleton.1 hz]
      exact hin
  | cons z below =>
    have hover : Over n x z := (List.isChain_cons_cons.1 h.linked).1
    exact h.pop.push (hover.congr hy) hin

end Path

end Site

/-! ### Steppers on a path -/

namespace Stepper

open Site (Path)

/-- The frames of a stepper are those of sites that lead from the program `p` inward. -/
def Mirrors (p : Program) (m : Stepper) : Prop :=
  ∃ sites : List Site, m.frames = sites.map Site.frame ∧ Path p m.actions sites

namespace Mirrors

variable {p : Program} {n : Nat} {f : Frame} {below : List Frame}

theorem finished (p : Program) (n : Nat) : Mirrors p ⟨[], n⟩ := ⟨[], rfl, .nil⟩

theorem mono {n' : Nat} {frames : List Frame} (hn : n ≤ n') (h : Mirrors p ⟨frames, n⟩) :
    Mirrors p ⟨frames, n'⟩ := by
  obtain ⟨sites, hframes, hpath⟩ := h
  exact ⟨sites, hframes, hpath.mono hn⟩

theorem pop (h : Mirrors p ⟨f :: below, n⟩) : Mirrors p ⟨below, n⟩ := by
  obtain ⟨sites, hframes, hpath⟩ := h
  obtain ⟨x, sites, rfl, -, hbelow⟩ := List.map_eq_cons_iff.1 hframes.symm
  exact ⟨sites, hbelow.symm, hpath.pop⟩

/-- A statement is begun: what it opens stands on the rest of its sequence. -/
theorem begin {st : Statement} {todo : List Statement}
    (h : Mirrors p ⟨.seq (st :: todo) :: below, n⟩) :
    Mirrors p ⟨.seq todo :: below, n⟩ ∧
      ∀ x ∈ st.sites, Mirrors p ⟨x.frame :: .seq todo :: below, n⟩ := by
  obtain ⟨sites, hframes, hpath⟩ := h
  obtain ⟨x, sites, rfl, hx, rfl⟩ := List.map_eq_cons_iff.1 hframes.symm
  cases x with
  | again test? body mark => cases test? <;> cases hx
  | seq statements i =>
    have hdrop : statements.drop i = st :: todo := Frame.seq.inj hx
    have hst : statements[i]? = some st := by
      rw [← List.head?_drop, hdrop, List.head?_cons]
    have hrest : statements.drop (i + 1) = todo := by
      rw [← List.tail_drop, hdrop, List.tail_cons]
    have hmoved : Path p n (.seq statements (i + 1) :: sites) :=
      hpath.move rfl (List.getElem?_eq_some_iff.1 hst).1
    refine ⟨⟨_, ?_, hmoved⟩, fun y hy => ⟨y :: _, ?_, hmoved.push ?_ (Site.of_mem_sites hy).2⟩⟩
    · rw [List.map_cons, Site.frame, hrest]
    · rw [List.map_cons, List.map_cons, Site.frame.eq_1, hrest]
    · refine ⟨i, st, rfl, hst, ?_⟩
      rw [(Site.of_mem_sites hy).1]
      exact hy

/-- A loop is left without its mark, or with the present mark under a new round. -/
theorem round (test? : Option Cond) {body : Block} {mark : Option Nat}
    (h : Mirrors p ⟨.again test? body mark :: below, n⟩) :
    Mirrors p ⟨.again test? body none :: below, n⟩ ∧
      Mirrors p ⟨.seq body.toList :: .again test? body (some n) :: below, n⟩ := by
  obtain ⟨sites, hframes, hpath⟩ := h
  obtain ⟨x, sites, rfl, hx, rfl⟩ := List.map_eq_cons_iff.1 hframes.symm
  have hfresh : x.fresh = .again test? body none := by
    cases x with
    | seq statements i => cases test? <;> cases hx
    | again test?' body' mark' =>
      cases test? <;> cases test?' <;> cases hx <;> rfl
  have hunmarked : Path p n (.again test? body none :: sites) := hpath.move hfresh.symm trivial
  have hmarked : Path p n (.again test? body (some n) :: sites) := hpath.move hfresh.symm trivial
  have hbody : Site.Over n (.seq body.toList 0) (.again test? body (some n)) :=
    ⟨rfl, n, le_rfl, rfl⟩
  exact ⟨⟨_, rfl, hunmarked⟩, ⟨_, rfl, hmarked.push hbody (Nat.zero_le _)⟩⟩

end Mirrors

variable {σ : Type} {R : Robot σ} {log : Log σ} {p : Program} {m m' : Stepper} {s s' : σ} {k : Nat}

/-- **Every transition stays on a path in the program.** -/
theorem Transition.mirrors {o : Option Step} (ht : Transition R log m s o m' s')
    (h : m.Mirrors p) : m'.Mirrors p := by
  cases ht with
  | stop => exact h
  | leave | whileExit => exact h.pop
  | act => exact h.begin.1.mono (Nat.le_succ _)
  | thenNo => exact h.begin.1
  | enterLoop => exact h.begin.2 (.again none _ none) List.mem_cons_self
  | enterWhile => exact h.begin.2 (.again (some _) _ none) List.mem_cons_self
  | thenYes | elseYes => exact h.begin.2 (.seq _ 0) List.mem_cons_self
  | elseNo => exact h.begin.2 (.seq _ 0) (List.mem_cons_of_mem _ List.mem_cons_self)
  | loopIdle => exact (Mirrors.round none h).1
  | loopRound => exact (Mirrors.round none h).2
  | whileIdle => exact (Mirrors.round (some _) h).1
  | whileRound => exact (Mirrors.round (some _) h).2

theorem Runs.mirrors {os : List Step} (run : Runs R log k m s os m' s') (h : m.Mirrors p) :
    m'.Mirrors p := by
  induction run with
  | refl => exact h
  | tick ht _ _ ih => exact ih (ht.mirrors h)

/-- A step stays on a path, or nothing is left to be done after it. -/
theorem mirrors_of_step {o : Step} (hstep : m.step R log s = ((o, m'), s')) (h : m.Mirrors p) :
    m'.Mirrors p := by
  by_cases ho : o.IsTerminal
  · obtain ⟨frames, n⟩ := m'
    obtain rfl : frames = [] := frames_eq_nil_of_step hstep ho
    exact .finished p n
  · obtain ⟨k, run⟩ := runs_of_step hstep ho
    exact run.mirrors h

theorem mirrors_of_session (h : m.Mirrors p) (found : List σ) (es : Array Event) :
    (session R found m es).2.1.Mirrors p := by
  induction found generalizing m es with
  | nil => exact h
  | cons s found ih =>
    obtain ⟨⟨⟨o, m₁⟩, s₁, es₁⟩, hstep⟩ : ∃ r, m.step R.recorded .off (s, es) = r := ⟨_, rfl⟩
    rw [session_cons hstep]
    exact ih (mirrors_of_step hstep h) es₁

theorem mirrors_start (p : Program) : (start p).Mirrors p := ⟨_, rfl, .start p⟩

end Stepper

/-! ### How high a stack can be -/

mutual

/-- How deep blocks are nested inside a statement. -/
def Statement.levels : Statement → Nat
  | .action _ => 0
  | .loop body => body.levels + 1
  | .ifThen _ yes => yes.levels + 1
  | .ifElse _ yes no => max yes.levels no.levels + 1
  | .whileLoop _ body => body.levels + 1

/-- How deep blocks are nested inside a block. -/
def Block.levels : Block → Nat
  | .single s => s.levels
  | .cons s rest => max s.levels rest.levels

end

mutual

theorem Statement.levels_le_depth (st : Statement) : st.levels ≤ st.depth := by
  cases st with
  | action a => exact Nat.zero_le _
  | loop body => exact Nat.succ_le_succ body.levels_le_depth
  | ifThen test body | whileLoop test body =>
    have hbody := body.levels_le_depth
    simp only [Statement.levels, Statement.depth]
    omega
  | ifElse test yes no =>
    have hyes := yes.levels_le_depth
    have hno := no.levels_le_depth
    simp only [Statement.levels, Statement.depth]
    omega

/-- Blocks are nested no deeper than blocks, conditions and expressions together. -/
theorem Block.levels_le_depth (b : Block) : b.levels ≤ b.depth := by
  cases b with
  | single st => exact st.levels_le_depth
  | cons st rest => exact max_le_max st.levels_le_depth rest.levels_le_depth

end

/-- How deep blocks are nested inside some statements. -/
def Statement.levelsOf : List Statement → Nat
  | [] => 0
  | st :: rest => max st.levels (levelsOf rest)

theorem Statement.levels_le_levelsOf {st : Statement} {ss : List Statement} (h : st ∈ ss) :
    st.levels ≤ levelsOf ss := by
  induction ss with
  | nil => exact absurd h List.not_mem_nil
  | cons st' ss ih =>
    rcases List.mem_cons.1 h with rfl | h
    · exact le_max_left _ _
    · exact (ih h).trans (le_max_right _ _)

theorem Block.levelsOf_toList (b : Block) : Statement.levelsOf b.toList = b.levels := by
  cases b with
  | single st => exact max_eq_left (Nat.zero_le _)
  | cons st rest => exact congrArg (max st.levels) rest.levelsOf_toList

namespace Site

/-- How many sites can stand on a site. -/
def room : Site → Nat
  | .seq statements _ => 2 * Statement.levelsOf statements
  | .again _ body _ => 2 * body.levels + 1

theorem room_fresh (x : Site) : x.fresh.room = x.room := by
  cases x <;> rfl

theorem room_lt_of_mem_sites {x : Site} {st : Statement} (h : x ∈ st.sites) :
    x.room < 2 * st.levels := by
  cases st with
  | action a => exact absurd h List.not_mem_nil
  | loop body | whileLoop test body =>
    rw [List.mem_singleton.1 h]
    simp only [room, Statement.levels]
    omega
  | ifThen test yes =>
    rw [List.mem_singleton.1 h]
    simp only [room, Statement.levels, Block.levelsOf_toList]
    omega
  | ifElse test yes no =>
    simp only [Statement.levels]
    rcases List.mem_pair.1 h with rfl | rfl <;>
      simp only [room, Block.levelsOf_toList] <;>
      omega

/-- Each site leaves less room above it. -/
theorem Over.room_lt {n : Nat} {x y : Site} (h : Over n x y) : x.room < y.room := by
  rw [← room_fresh x]
  cases y with
  | seq statements next =>
    obtain ⟨i, st, -, hst, hmem⟩ := h
    have hle := Statement.levels_le_levelsOf (List.mem_of_getElem? hst)
    have hlt := room_lt_of_mem_sites hmem
    have hroom : room (.seq statements next) = 2 * Statement.levelsOf statements := rfl
    omega
  | again test? body mark =>
    rw [h.1]
    simp only [room, Block.levelsOf_toList]
    omega

theorem Path.length_add_room_le {p : Program} {n : Nat} {x : Site} {below : List Site}
    (h : Path p n (x :: below)) : below.length + x.room ≤ 2 * p.body.levels := by
  induction below generalizing x with
  | nil =>
    rw [← room_fresh, h.bottom x rfl, room, Program.statements, Block.levelsOf_toList]
    exact (Nat.zero_add _).le
  | cons y below ih =>
    have hlt : x.room < y.room := (List.isChain_cons_cons.1 h.linked).1.room_lt
    have hle := ih h.pop
    rw [List.length_cons]
    omega

end Site

theorem Stepper.Mirrors.length_le {p : Program} {m : Stepper} (h : m.Mirrors p) :
    m.frames.length ≤ 1 + 2 * p.body.levels := by
  obtain ⟨sites, hframes, hpath⟩ := h
  rw [hframes, List.length_map]
  cases sites with
  | nil => exact Nat.zero_le _
  | cons x below =>
    have hle := hpath.length_add_room_le
    rw [List.length_cons]
    omega

/-- **The stack mirrors a path in the program, and does not grow with time.**  After any steps, each
of which may find the robot in any state, the frames are those of sites of which

* the outermost is the sequence of the program's statements, if there is one at all;
* a site that stands on a sequence belongs to the statement that was begun last there;
* a site that stands on a loop is the sequence of its body, and the mark of the loop is a number of
  actions that has been reached;
* no more statements of a sequence have been begun than there are.

So there are at most two frames for each level of blocks in the program, and one more; of a program
that was read from a text, at most 401. -/
theorem Stepper.session_mirrors {σ : Type} (R : Robot σ) (p : Program) (found : List σ) :
    let m := (session R found (.start p) #[]).2.1
    (∃ sites : List Site, m.frames = sites.map Site.frame ∧
      (∀ x ∈ sites.getLast?, ∃ next, x = .seq p.statements next) ∧
      sites.IsChain (Site.Over m.actions) ∧
      ∀ statements next, .seq statements next ∈ sites → next ≤ statements.length) ∧
    m.frames.length ≤ 1 + 2 * p.body.levels ∧
    ∀ source, Program.parse source = .ok p → m.frames.length ≤ 401 := by
  intro m
  have hmirrors : m.Mirrors p := mirrors_of_session (mirrors_start p) found #[]
  have hlength := hmirrors.length_le
  refine ⟨?_, hlength, fun source hparse => ?_⟩
  · obtain ⟨sites, hframes, hpath⟩ := hmirrors
    refine ⟨sites, hframes, fun x hx => ?_, hpath.linked, fun statements next hmem => ?_⟩
    · have hbottom := hpath.bottom x hx
      cases x with
      | seq statements next =>
        cases hbottom
        exact ⟨next, rfl⟩
      | again test? body mark => cases hbottom
    · exact hpath.inBounds _ hmem
  · obtain ⟨hdepth, hnesting⟩ := Program.depth_le_of_parse hparse
    have hlevels := p.body.levels_le_depth
    omega

end RobotControl
