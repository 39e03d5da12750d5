import Mathlib.Tactic
import RobotControl.Proofs.Agreement
import RobotControl.Proofs.Transitions

/-!
# Transitions that follow a run

A program that runs by recursion on its structure keeps its place in the nesting of its calls; a
stepper keeps it in a stack of frames.  This module shows that the transitions of a stepper follow
such a run wherever it goes: to its end, into a fault, or on and on.

* `Course`: the outcomes that a run amounts to, read off the notes that it makes;
* `Tracks`: the robot of a stepper keeps up with the robot of a run;
* `Matches`: the transitions that follow a run with a given result.  A run that is cut off after `k`
  rounds of a loop is followed by at least `k` transitions;
* `Statement.exec_matches`, `Block.exec_matches`: the transitions follow every run.
-/

namespace RobotControl

open Stepper (Transition Breaks Runs Final)

/-! ### The course of a run -/

/-- The course of a run: its outcomes so far, and for each round that is under way the number of
actions at its beginning, the innermost first. -/
structure Course where
  outcomes : List Step := []
  marks : List Nat := []
deriving DecidableEq, Repr

namespace Course

/-- The number of actions so far. -/
def actions (w : Course) : Nat := w.outcomes.countP Step.isActed

/-- The course after a note.  An action is an outcome, and so is the end of a round during which
there was none. -/
def note (w : Course) : Note → Course
  | .acted a => { w with outcomes := w.outcomes ++ [.acted a] }
  | .roundBegins => { w with marks := w.actions :: w.marks }
  | .roundEnds =>
    { outcomes := if w.marks.head? = some w.actions then w.outcomes ++ [.idle] else w.outcomes
      marks := w.marks.tail }
  | _ => w

@[simp] theorem actions_acted (w : Course) (a : Action) :
    (w.note (.acted a)).actions = w.actions + 1 := by
  simp [actions, note, Step.isActed]

@[simp] theorem actions_roundBegins (w : Course) :
    (w.note .roundBegins).actions = w.actions := rfl

@[simp] theorem actions_roundEnds (w : Course) : (w.note .roundEnds).actions = w.actions := by
  unfold actions note
  split_ifs <;> simp [Step.isActed]

end Course

/-! ### Runs and the transitions that follow them -/

variable {τ σ : Type}

/-- The robot `R₂` keeps up with the robot `R₁` of a run that makes its notes in `log₁`: `Sim w`
relates their states after the course `w`. -/
structure Tracks (R₁ : Robot τ) (log₁ : Log τ) (R₂ : Robot σ) (Sim : Course → τ → σ → Prop) :
    Prop where
  senses : ∀ w, R₁.SensesAlike R₂ (Sim w)
  dispatch : ∀ {w t s} (a : Action) (c : Call), Sim w t s →
    Agree (Sim (w.note (.acted a))) (Sim w) (R₁.dispatch log₁ a c t) (R₂.dispatch .off a c s)
  note : ∀ {w t s} (n : Note), (∀ a, n ≠ .acted a) → Sim w t s → Sim (w.note n) (log₁ n t) s

/-- The transitions from `m` and `s`, after the outcomes `past`, that follow a run with a given
result: to the given frames and marks when the run succeeds, into the same fault when it fails, and
through at least `k` transitions when it is cut off. -/
inductive Matches (R : Robot σ) (Sim : Course → τ → σ → Prop) (k : Nat) (m : Stepper) (s : σ)
    (past : List Step) (frames : List Frame) (marks : List Nat) :
    EStateM.Result Stop τ Unit → Prop
  | ok {j os s' w t} (run : Runs R .off j m s os ⟨frames, w.actions⟩ s')
    (ho : w.outcomes = past ++ os) (hm : w.marks = marks) (sim : Sim w t s') :
    Matches R Sim k m s past frames marks (.ok () t)
  | fault {j os m₁ s₁ f s' w t} (run : Runs R .off j m s os m₁ s₁)
    (hf : Breaks R .off m₁ s₁ f s') (ho : w.outcomes = past ++ os) (sim : Sim w t s') :
    Matches R Sim k m s past frames marks (.error (.fault f) t)
  | unfinished {j os m₁ s₁ w t} (hj : k ≤ j) (run : Runs R .off j m s os m₁ s₁)
    (ho : w.outcomes = past ++ os) (sim : Sim w t s₁) :
    Matches R Sim k m s past frames marks (.error .unfinished t)

namespace Matches

variable {R : Robot σ} {Sim : Course → τ → σ → Prop} {j k : Nat} {m m₁ : Stepper} {s s₁ : σ}
  {past past₁ os : List Step} {frames frames₁ : List Frame} {marks marks₁ : List Nat}

theorem mono {r : EStateM.Result Stop τ Unit} (hjk : j ≤ k)
    (h : Matches R Sim k m s past frames marks r) : Matches R Sim j m s past frames marks r := by
  cases h with
  | ok run ho hm sim => exact .ok run ho hm sim
  | fault run hf ho sim => exact .fault run hf ho sim
  | unfinished hj run ho sim => exact .unfinished (hjk.trans hj) run ho sim

/-- Transitions in front count towards those that follow a run. -/
theorem after {r : EStateM.Result Stop τ Unit} (run : Runs R .off j m s os m₁ s₁)
    (hp : past₁ = past ++ os) (h : Matches R Sim k m₁ s₁ past₁ frames marks r) :
    Matches R Sim (j + k) m s past frames marks r := by
  subst hp
  cases h with
  | ok run' ho hm sim => exact .ok (run.trans run') (by rw [ho, List.append_assoc]) hm sim
  | fault run' hf ho sim => exact .fault (run.trans run') hf (by rw [ho, List.append_assoc]) sim
  | unfinished hk run' ho sim =>
    exact .unfinished (Nat.add_le_add_left hk j) (run.trans run') (by rw [ho, List.append_assoc])
      sim

/-- A transition without an outcome in front. -/
theorem silent {r : EStateM.Result Stop τ Unit} (h : Transition R .off m s none m₁ s₁)
    (h' : Matches R Sim k m₁ s₁ past frames marks r) :
    Matches R Sim (k + 1) m s past frames marks r := by
  rw [Nat.add_comm]
  exact h'.after (.silent h) (List.append_nil past).symm

/-- A sequence that is done is left. -/
theorem leave {r : EStateM.Result Stop τ Unit}
    (h : Matches R Sim k m s past (.seq [] :: frames) marks r) :
    Matches R Sim k m s past frames marks r := by
  cases h with
  | ok run ho hm sim => exact .ok (run.trans (.silent .leave)) (by rw [ho, List.append_nil]) hm sim
  | fault run hf ho sim => exact .fault run hf ho sim
  | unfinished hj run ho sim => exact .unfinished hj run ho sim

/-- One run after the other. -/
theorem bind {x : EStateM Stop τ Unit} {f : Unit → EStateM Stop τ Unit} {t : τ}
    (h : Matches R Sim k m s past frames₁ marks₁ (x t))
    (hf : ∀ w t' s', w.marks = marks₁ → Sim w t' s' →
      Matches R Sim k ⟨frames₁, w.actions⟩ s' w.outcomes frames marks (f () t')) :
    Matches R Sim k m s past frames marks ((x >>= f) t) := by
  show Matches R Sim k m s past frames marks (EStateM.bind x f t)
  unfold EStateM.bind
  generalize x t = r at h
  cases h with
  | ok run ho hm sim => exact ((hf _ _ _ hm sim).after run ho).mono (Nat.le_add_left k _)
  | fault run hf ho sim => exact .fault run hf ho sim
  | unfinished hj run ho sim => exact .unfinished hj run ho sim

/-- A condition in front of a run: it fails where the next transition does. -/
theorem test {R₁ : Robot τ} {log₁ : Log τ} (h : Tracks R₁ log₁ R Sim) (c : Cond)
    {f : Bool → EStateM Stop τ Unit} {w : Course} {t : τ} (hs : Sim w t s)
    (hfault : ∀ e s', c.eval R s = .error e s' → Breaks R .off m s e s')
    (hf : ∀ b t' s', c.eval R s = .ok b s' → Sim w t' s' →
      Matches R Sim k m s w.outcomes frames marks (f b t')) :
    Matches R Sim k m s w.outcomes frames marks (((c.eval R₁).adaptExcept .fault >>= f) t) := by
  have hagree := c.eval_agree (h.senses w) hs
  show Matches R Sim k m s w.outcomes frames marks (EStateM.bind (EStateM.adaptExcept _ _) f t)
  unfold EStateM.bind EStateM.adaptExcept
  generalize c.eval R₁ t = r₁ at hagree
  generalize hr₂ : c.eval R s = r₂ at hagree
  cases hagree with
  | ok hsim => exact hf _ _ _ hr₂ hsim
  | error hsim => exact .fault (.refl m s) (hfault _ _ hr₂) (List.append_nil _).symm hsim

end Matches

/-! ### Loops -/

/-- The frame of a loop, endless or with a condition. -/
def Frame.again (c? : Option Cond) (body : Block) (mark : Option Nat) : Frame :=
  match c? with
  | none => .loop body mark
  | some c => .whileLoop c body mark

variable {R₁ : Robot τ} {log₁ : Log τ} {R₂ : Robot σ} {Sim : Course → τ → σ → Prop}
  {w : Course} {t : τ} {s : σ} {j k : Nat} {body : Block} {below frames : List Frame}
  {marks : List Nat}

theorem Stepper.Transition.idle (c? : Option Cond) (n : Nat) :
    Transition R₂ .off ⟨.again c? body (some n) :: below, n⟩ s (some .idle)
      ⟨.again c? body none :: below, n⟩ s := by
  cases c? with
  | none => exact .loopIdle
  | some c => exact .whileIdle

/-- The end of a round: the frame of the loop comes to the front again, and reports that it was
idle if there was no action. -/
theorem Stepper.runs_roundEnds (R : Robot σ) (c? : Option Cond) (body : Block)
    (below : List Frame) (s : σ) {n : Nat} (hm : w.marks.head? = some n) :
    ∃ j os mark, Runs R .off j ⟨.seq [] :: .again c? body (some n) :: below, w.actions⟩ s os
        ⟨.again c? body mark :: below, (w.note .roundEnds).actions⟩ s ∧
      mark ≠ some (w.note .roundEnds).actions ∧
      (w.note .roundEnds).outcomes = w.outcomes ++ os := by
  have hleave : Runs R .off 1 ⟨.seq [] :: .again c? body (some n) :: below, w.actions⟩ s []
      ⟨.again c? body (some n) :: below, w.actions⟩ s := .silent .leave
  rw [Course.actions_roundEnds]
  by_cases hn : n = w.actions
  · subst hn
    refine ⟨_, _, none, hleave.trans (.single (.idle c? w.actions) (by simp)), by simp, ?_⟩
    simp [Course.note, hm]
  · refine ⟨_, _, some n, hleave, by simpa using hn, ?_⟩
    simp [Course.note, hm, hn]

/-- Transitions follow every run of `body` with loops of at most `k` rounds. -/
def Block.Follows (R₁ : Robot τ) (log₁ : Log τ) (R₂ : Robot σ) (Sim : Course → τ → σ → Prop)
    (k : Nat) (body : Block) : Prop :=
  ∀ w t s below, Sim w t s →
    Matches R₂ Sim k ⟨.seq body.toList :: below, w.actions⟩ s w.outcomes (.seq [] :: below) w.marks
      (body.exec R₁ log₁ k t)

/-- A round of a loop, and what comes after it. -/
theorem Log.round_matches (h : Tracks R₁ log₁ R₂ Sim) (hjk : j ≤ k)
    (hbody : body.Follows R₁ log₁ R₂ Sim k) (c? : Option Cond) {g : EStateM Stop τ Unit}
    (hs : Sim w t s)
    (hg : ∀ w' t' s' mark, w'.marks = w.marks → mark ≠ some w'.actions → Sim w' t' s' →
      Matches R₂ Sim j ⟨.again c? body mark :: below, w'.actions⟩ s' w'.outcomes frames marks
        (g t')) :
    Matches R₂ Sim j ⟨.seq body.toList :: .again c? body (some w.actions) :: below, w.actions⟩ s
      w.outcomes frames marks ((log₁.round (body.exec R₁ log₁ k) >>= fun _ => g) t) := by
  have hbegun : Sim (w.note .roundBegins) (log₁ .roundBegins t) s := h.note _ (by simp) hs
  have hassoc : (log₁.round (body.exec R₁ log₁ k) >>= fun _ => g) t =
      (body.exec R₁ log₁ k >>= fun _ => log₁.say .roundEnds >>= fun _ => g)
        (log₁ .roundBegins t) := by
    simp only [Log.round, bind_assoc]
    rfl
  rw [hassoc]
  refine ((hbody _ _ _ (.again c? body (some w.actions) :: below) hbegun).mono hjk).bind ?_
  intro w' t' s' hm' hs'
  have hmark : w'.marks.head? = some w.actions := by rw [hm']; rfl
  obtain ⟨i, os, mark, hrun, hfresh, ho⟩ := Stepper.runs_roundEnds R₂ c? body below s' hmark
  have hended : Sim (w'.note .roundEnds) (log₁ .roundEnds t') s' := h.note _ (by simp) hs'
  have hmarks : (w'.note .roundEnds).marks = w.marks := by
    show w'.marks.tail = w.marks
    rw [hm']
    rfl
  exact ((hg _ _ _ mark hmarks hfresh hended).after hrun ho).mono (Nat.le_add_left j i)

/-- An endless loop: if its rounds run out, there was a transition for each of them. -/
theorem forever_matches (h : Tracks R₁ log₁ R₂ Sim) (hbody : body.Follows R₁ log₁ R₂ Sim k)
    (hjk : j ≤ k) {mark : Option Nat} (hmark : mark ≠ some w.actions) (hs : Sim w t s) :
    Matches R₂ Sim j ⟨.loop body mark :: below, w.actions⟩ s w.outcomes frames marks
      (forever (log₁.round (body.exec R₁ log₁ k)) j t) := by
  induction j generalizing w t s mark with
  | zero => exact .unfinished (Nat.zero_le _) (.refl _ s) (List.append_nil _).symm hs
  | succ j ih =>
    refine Matches.silent (.loopRound hmark) ?_
    refine Log.round_matches h (Nat.le_of_succ_le hjk) hbody none hs ?_
    intro w' t' s' mark' _ hmark' hs'
    exact ih (Nat.le_of_succ_le hjk) hmark' hs'

/-- A loop with a condition. -/
theorem repeatWhile_matches (h : Tracks R₁ log₁ R₂ Sim) (hbody : body.Follows R₁ log₁ R₂ Sim k)
    (c : Cond) (hjk : j ≤ k) {mark : Option Nat} (hmark : mark ≠ some w.actions) (hs : Sim w t s) :
    Matches R₂ Sim j ⟨.whileLoop c body mark :: below, w.actions⟩ s w.outcomes below w.marks
      (repeatWhile ((c.eval R₁).adaptExcept .fault) (log₁.round (body.exec R₁ log₁ k)) j t) := by
  induction j generalizing w t s mark with
  | zero => exact .unfinished (Nat.zero_le _) (.refl _ s) (List.append_nil _).symm hs
  | succ j ih =>
    refine Matches.test h c hs (fun e s' he => .whileLoop hmark he) ?_
    intro holds t₁ s₁ hc hs₁
    cases holds with
    | false => exact .ok (.silent (.whileExit hmark hc)) (List.append_nil _).symm rfl hs₁
    | true =>
      refine Matches.silent (.whileRound hmark hc) ?_
      refine Log.round_matches h (Nat.le_of_succ_le hjk) hbody (some c) hs₁ ?_
      intro w' t' s' mark' hm' hmark' hs'
      rw [← hm']
      exact ih (Nat.le_of_succ_le hjk) hmark' hs'

/-! ### Statements and blocks -/

theorem Action.perform_matches (h : Tracks R₁ log₁ R₂ Sim) (a : Action) (hs : Sim w t s)
    (todo : List Statement) (below : List Frame) :
    Matches R₂ Sim k ⟨.seq (.action a :: todo) :: below, w.actions⟩ s w.outcomes
      (.seq todo :: below) w.marks ((Action.perform R₁ log₁ a).adaptExcept .fault t) := by
  have hagree : Agree (Sim (w.note (.acted a))) (Sim w) (Action.perform R₁ log₁ a t)
      (Action.perform R₂ .off a s) :=
    Action.perform_agree (h.senses w) (h.note (.executing a) (by simp) hs) fun c _ _ hs' =>
      h.dispatch a c hs'
  unfold EStateM.adaptExcept
  generalize Action.perform R₁ log₁ a t = r₁ at hagree
  generalize hr₂ : Action.perform R₂ .off a s = r₂ at hagree
  cases hagree with
  | @ok _ t' s' hsim =>
    have hrun : Runs R₂ .off 1 ⟨.seq (.action a :: todo) :: below, w.actions⟩ s [.acted a]
        ⟨.seq todo :: below, (w.note (.acted a)).actions⟩ s' := by
      rw [Course.actions_acted]
      exact .single (.act hr₂) (by simp)
    exact .ok hrun rfl rfl hsim
  | error hsim => exact .fault (.refl _ s) (.act hr₂) (List.append_nil _).symm hsim

/-- Deciding the condition of a conditional statement, and what comes after it. -/
theorem Cond.decide_matches (h : Tracks R₁ log₁ R₂ Sim) (c : Cond) (hs : Sim w t s) {m : Stepper}
    {f : Bool → EStateM Stop τ Unit}
    (hfault : ∀ e s', c.eval R₂ s = .error e s' → Breaks R₂ .off m s e s')
    (hf : ∀ b t' s', c.eval R₂ s = .ok b s' → Sim w t' s' →
      Matches R₂ Sim k m s w.outcomes frames marks (f b t')) :
    Matches R₂ Sim k m s w.outcomes frames marks ((c.decide R₁ log₁ >>= f) t) := by
  have hassoc : c.decide R₁ log₁ >>= f =
      (c.eval R₁).adaptExcept .fault >>= fun b => log₁.say (.decided c b) >>= fun _ => f b := by
    simp only [Cond.decide, bind_assoc, pure_bind]
  rw [hassoc]
  refine Matches.test h c hs hfault fun b t' s' hc hs' => ?_
  exact hf b (log₁ (.decided c b) t') s' hc (h.note (.decided c b) (by simp) hs')

mutual

/-- **The transitions of a stepper follow every run of a statement.** -/
theorem Statement.exec_matches (h : Tracks R₁ log₁ R₂ Sim) (k : Nat) (st : Statement)
    {w : Course} {t : τ} {s : σ} (hs : Sim w t s) (todo : List Statement) (below : List Frame) :
    Matches R₂ Sim k ⟨.seq (st :: todo) :: below, w.actions⟩ s w.outcomes (.seq todo :: below)
      w.marks (st.exec R₁ log₁ k t) := by
  cases st with
  | action a => exact Action.perform_matches h a hs todo below
  | loop body =>
    have hbody : body.Follows R₁ log₁ R₂ Sim k := fun w t s below hs => by
      simpa using body.exec_matches h k hs [] below
    refine (Matches.silent .enterLoop ?_).mono (Nat.le_succ k)
    exact forever_matches h hbody le_rfl (by simp) hs
  | whileLoop c body =>
    have hbody : body.Follows R₁ log₁ R₂ Sim k := fun w t s below hs => by
      simpa using body.exec_matches h k hs [] below
    refine (Matches.silent .enterWhile ?_).mono (Nat.le_succ k)
    refine (repeatWhile_matches h hbody c le_rfl (by simp) hs).bind ?_
    intro w' t' s' hm' hs'
    have hdone : Sim w' (log₁ (.finished c) t') s' := h.note (.finished c) (by simp) hs'
    exact .ok (.refl _ s') (List.append_nil _).symm hm' hdone
  | ifThen c yes =>
    have hyes : yes.Follows R₁ log₁ R₂ Sim k := fun w t s below hs => by
      simpa using yes.exec_matches h k hs [] below
    refine c.decide_matches h hs (fun e s' he => .ifThen he) ?_
    intro holds t' s' hc hs'
    cases holds with
    | true =>
      refine (Matches.silent (.thenYes hc) ?_).mono (Nat.le_succ k)
      exact (hyes w t' s' _ hs').leave
    | false => exact .ok (.silent (.thenNo hc)) (List.append_nil _).symm rfl hs'
  | ifElse c yes no =>
    have hyes : yes.Follows R₁ log₁ R₂ Sim k := fun w t s below hs => by
      simpa using yes.exec_matches h k hs [] below
    have hno : no.Follows R₁ log₁ R₂ Sim k := fun w t s below hs => by
      simpa using no.exec_matches h k hs [] below
    refine c.decide_matches h hs (fun e s' he => .ifElse he) ?_
    intro holds t' s' hc hs'
    cases holds with
    | true =>
      refine (Matches.silent (.elseYes hc) ?_).mono (Nat.le_succ k)
      exact (hyes w t' s' _ hs').leave
    | false =>
      refine (Matches.silent (.elseNo hc) ?_).mono (Nat.le_succ k)
      exact (hno w t' s' _ hs').leave

/-- **The transitions of a stepper follow every run of a block.** -/
theorem Block.exec_matches (h : Tracks R₁ log₁ R₂ Sim) (k : Nat) (b : Block)
    {w : Course} {t : τ} {s : σ} (hs : Sim w t s) (todo : List Statement) (below : List Frame) :
    Matches R₂ Sim k ⟨.seq (b.toList ++ todo) :: below, w.actions⟩ s w.outcomes
      (.seq todo :: below) w.marks (b.exec R₁ log₁ k t) := by
  cases b with
  | single st => exact st.exec_matches h k hs todo below
  | cons st rest =>
    refine (st.exec_matches h k hs (rest.toList ++ todo) below).bind ?_
    intro w' t' s' hm' hs'
    rw [← hm']
    exact rest.exec_matches h k hs' todo below

end

end RobotControl
