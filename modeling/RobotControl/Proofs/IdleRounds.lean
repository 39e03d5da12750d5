import Mathlib.Tactic
import RobotControl.Proofs.Equivalence

/-!
# Idle rounds

A run keeps no count of its actions, but its journal has a note for every action and for the
beginning and the end of every round.  Read with one question in mind, namely which rounds went by
without an action, the journal gives the outcomes that a stepper reports.

* `Note.outcomes`: the outcomes that a journal amounts to;
* `Robot.noted`: a robot beside a journal;
* `Program.notes`: the journal of a run that is given a number of rounds;
* `Program.stepping_reports`: the main result.
-/

namespace RobotControl

open Stepper (Runs Final steps)

/-! ### The outcomes of a journal -/

/-- The outcomes that notes amount to.  For each round under way, the innermost first, `busy` says
whether there was an action in it.  An action is an outcome, and so is the end of a round without
one. -/
def Note.outcomesFrom : List Bool → List Note → List Step
  | _, [] => []
  | busy, .acted a :: ns => .acted a :: outcomesFrom (busy.map fun _ => true) ns
  | busy, .roundBegins :: ns => outcomesFrom (false :: busy) ns
  | busy, .roundEnds :: ns =>
    (if busy.head? = some false then [.idle] else []) ++ outcomesFrom busy.tail ns
  | busy, _ :: ns => outcomesFrom busy ns

/-- The outcomes that a journal amounts to. -/
def Note.outcomes (ns : List Note) : List Step := outcomesFrom [] ns

namespace Course

/-- Which of the rounds under way have had an action. -/
def busy (w : Course) : List Bool := w.marks.map fun n => decide (n < w.actions)

/-- No round began after more actions than there are. -/
def Sound (w : Course) : Prop := ∀ n ∈ w.marks, n ≤ w.actions

/-- The course of the notes after `w`. -/
def follow (w : Course) (ns : List Note) : Course := ns.foldl note w

theorem Sound.note {w : Course} (h : w.Sound) (x : Note) : (w.note x).Sound := by
  cases x with
  | acted a =>
    intro n hn
    rw [actions_acted]
    exact Nat.le_succ_of_le (h n hn)
  | roundBegins =>
    intro n hn
    rcases List.mem_cons.1 hn with rfl | hn
    · exact le_rfl
    · exact h n hn
  | roundEnds =>
    intro n hn
    rw [actions_roundEnds]
    exact h n (List.mem_of_mem_tail hn)
  | _ => exact h

theorem Sound.busy_acted {w : Course} (h : w.Sound) (a : Action) :
    (w.note (.acted a)).busy = w.busy.map fun _ => true := by
  unfold busy
  rw [actions_acted, List.map_map]
  refine List.map_congr_left fun n hn => ?_
  exact decide_eq_true (Nat.lt_succ_of_le (h n hn))

theorem busy_roundBegins (w : Course) : (w.note .roundBegins).busy = false :: w.busy := by
  show decide (w.actions < w.actions) :: w.busy = false :: w.busy
  rw [decide_eq_false (lt_irrefl _)]

theorem busy_roundEnds (w : Course) : (w.note .roundEnds).busy = w.busy.tail := by
  unfold busy
  rw [actions_roundEnds, ← List.map_tail]
  rfl

/-- The innermost round has had no action exactly when its mark is the number of actions. -/
theorem Sound.head?_marks {w : Course} (h : w.Sound) :
    w.marks.head? = some w.actions ↔ w.busy.head? = some false := by
  unfold busy
  cases hm : w.marks with
  | nil => simp
  | cons n marks =>
    have hn : n ≤ w.actions := h n (hm ▸ List.mem_cons_self)
    simp only [List.head?_cons, List.map_cons, Option.some.injEq, decide_eq_false_iff_not]
    omega

/-- Counting actions finds the idle rounds. -/
theorem Sound.outcomes_follow {w : Course} (h : w.Sound) (ns : List Note) :
    (w.follow ns).outcomes = w.outcomes ++ Note.outcomesFrom w.busy ns := by
  induction ns generalizing w with
  | nil => exact (List.append_nil _).symm
  | cons x ns ih =>
    have hnext := ih (h.note x)
    cases x with
    | acted a =>
      rw [h.busy_acted] at hnext
      refine hnext.trans ?_
      rw [Course.note, Note.outcomesFrom, List.append_assoc, List.singleton_append]
    | roundBegins =>
      rw [busy_roundBegins] at hnext
      exact hnext
    | roundEnds =>
      rw [busy_roundEnds] at hnext
      refine hnext.trans ?_
      rw [Note.outcomesFrom, ← List.append_assoc]
      congr 1
      simp only [Course.note, h.head?_marks]
      split_ifs <;> simp
    | _ => exact hnext

theorem outcomes_follow_nil (ns : List Note) : (follow {} ns).outcomes = Note.outcomes ns :=
  Sound.outcomes_follow (w := {}) (by simp [Sound]) ns

end Course

/-! ### Runs with a journal -/

variable {σ : Type} {R : Robot σ} {p : Program} {s s' : σ}

/-- A robot beside a journal, without remarks of its own. -/
def Robot.noted (R : Robot σ) : Robot (σ × Journal) := R.journaled fun _ _ => none

/-- The notes of a run from `s` that is given a number of rounds. -/
def Program.notes (R : Robot σ) (p : Program) (s : σ) (rounds : Nat) : List Note :=
  (stateAfter (p.exec R.noted .journal rounds (s, #[]))).2.toList

/-- A robot keeps up with the same robot beside a journal, and the journal tells its course. -/
theorem Tracks.noted (R : Robot σ) : Tracks R.noted .journal R fun w t s =>
    t.1 = s ∧ Course.follow {} t.2.toList = w where
  senses := by
    rintro w x ⟨t, ns⟩ s ⟨rfl, rfl⟩
    exact .ok ⟨rfl, rfl⟩
  dispatch := by
    rintro w ⟨t, ns⟩ s a c ⟨rfl, rfl⟩
    unfold Robot.dispatch Robot.noted Robot.journaled
    dsimp only
    cases R.act c t with
    | ok u t' => exact .ok ⟨rfl, by simp [Log.journal, Course.follow]⟩
    | error e t' => exact .error ⟨rfl, by simp [Log.journal, Course.follow, Course.note]⟩
  note := by
    rintro w ⟨t, ns⟩ s n - ⟨rfl, rfl⟩
    exact ⟨rfl, by simp [Log.journal, Course.follow]⟩

/-- Keeping a journal does not change a run. -/
theorem Program.returns_iff_noted {r : Except Fault Unit} :
    p.Returns R .off s r s' ↔ ∃ ns, p.Returns R.noted .journal (s, #[]) r (s', ns) := by
  rw [Program.returns_iff_view (t := (s, #[])) (.noted R) (fun _ _ _ hsim => hsim.1) ⟨rfl, rfl⟩]
  constructor
  · rintro ⟨⟨t, ns⟩, hr, rfl⟩
    exact ⟨ns, hr⟩
  · rintro ⟨ns, hr⟩
    exact ⟨(s', ns), hr, rfl⟩

/-- A run that returns has reported everything but its end. -/
theorem Program.returns_noted_iff_steps {r : Except Fault Unit} {os : List Step} :
    (∃ ns, p.Returns R.noted .journal (s, #[]) r (s', ns) ∧ Note.outcomes ns.toList = os) ↔
      (∃ m', steps R .off (os.length + 1) (.start p) s = (os ++ [.ofResult r], m', s')) ∧
        ∀ o ∈ os, ¬ o.IsTerminal := by
  constructor
  · rintro ⟨ns, hr, rfl⟩
    obtain ⟨j, w, m₁, s₁, s'', run, hf, rfl, rfl⟩ := hr.final (.noted R) ⟨rfl, rfl⟩
    rw [Course.outcomes_follow_nil] at run
    exact ⟨⟨_, Stepper.steps_of_final run hf⟩, run.not_terminal⟩
  · rintro ⟨⟨m', hsteps⟩, hos⟩
    have hterminal : (Step.ofResult r).IsTerminal := by cases r <;> trivial
    obtain ⟨k, m₁, s₁, run, hf⟩ := Stepper.final_of_steps hsteps hterminal hos
    obtain ⟨r', ⟨t', ns⟩, w, ho, rfl, hr, rfl, rfl⟩ :=
      Program.returns_of_final (t := (s, #[])) (.noted R) ⟨rfl, rfl⟩ run hf
    rw [Step.ofResult_injective ho]
    exact ⟨ns, hr, (Course.outcomes_follow_nil _).symm⟩

/-- The transitions that follow a run have brought about the outcomes of its journal.  A run that is
cut off is followed by at least as many transitions as it was given rounds. -/
theorem Program.exists_runs_notes (R : Robot σ) (p : Program) (s : σ) (rounds : Nat) :
    ∃ j m₁ s₁, Runs R .off j (.start p) s (Note.outcomes (p.notes R s rounds)) m₁ s₁ ∧
      (p.Diverges R .off s → rounds ≤ j) := by
  have hmatch := p.exec_matches (.noted R) rounds (t := (s, #[])) ⟨rfl, rfl⟩
  unfold Program.notes
  generalize hr : p.exec R.noted .journal rounds (s, #[]) = res at hmatch
  have hends {r t} (h : p.Returns R.noted .journal (s, #[]) r t) : ¬ p.Diverges R .off s :=
    fun hdiv => hdiv r t.1 (Program.returns_iff_noted.2 ⟨t.2, h⟩)
  cases hmatch with
  | ok run ho _ sim =>
    rw [← Course.outcomes_follow_nil, stateAfter, sim.2, ho]
    exact ⟨_, _, _, run, fun hdiv => absurd hdiv (hends (r := .ok ()) ⟨rounds, hr⟩)⟩
  | fault run _ ho sim =>
    rw [← Course.outcomes_follow_nil, stateAfter, sim.2, ho]
    exact ⟨_, _, _, run, fun hdiv => absurd hdiv (hends (r := .error _) ⟨rounds, hr⟩)⟩
  | unfinished hj run ho sim =>
    rw [← Course.outcomes_follow_nil, stateAfter, sim.2, ho]
    exact ⟨_, _, _, run, fun _ => hj⟩

/-- Steps through a run that never returns are overtaken by a run that is given enough rounds. -/
theorem Program.Diverges.exists_prefix (h : p.Diverges R .off s) (n : Nat) :
    ∃ rounds, (steps R .off n (.start p) s).1 <+: Note.outcomes (p.notes R s rounds) := by
  rcases Stepper.runs_or_endsWith R .off n (.start p) s with ⟨k, run⟩ | ⟨o, hend⟩
  · obtain ⟨j, m₁, s₁, run', hj⟩ := p.exists_runs_notes R s k
    obtain ⟨d, rfl⟩ := Nat.exists_eq_add_of_le (hj h)
    obtain ⟨os, hos, -⟩ := run.split run'
    exact ⟨k, os, hos.symm⟩
  · exact absurd hend (Program.diverges_iff.1 h o _)

/-- **A stepper reports exactly the actions and the idle rounds of a run.**  On every robot, from
every state:

* keeping a journal does not change a run;
* a run returns, with certain outcomes in its journal, exactly when successive steps have these
  outcomes and then the terminal one that stands for the result;
* the outcomes of a run that is cut off are those of as many steps;
* if the run never returns, then the outcomes of any number of steps are the beginning of those of a
  run that is given enough rounds. -/
theorem Program.stepping_reports (R : Robot σ) (p : Program) (s : σ) :
    (∀ r s', p.Returns R .off s r s' ↔
      ∃ ns, p.Returns R.noted .journal (s, #[]) r (s', ns)) ∧
    (∀ r s' os,
      (∃ ns, p.Returns R.noted .journal (s, #[]) r (s', ns) ∧ Note.outcomes ns.toList = os) ↔
        (∃ m', steps R .off (os.length + 1) (.start p) s = (os ++ [.ofResult r], m', s')) ∧
          ∀ o ∈ os, ¬ o.IsTerminal) ∧
    (∀ rounds, (steps R .off (Note.outcomes (p.notes R s rounds)).length (.start p) s).1 =
      Note.outcomes (p.notes R s rounds)) ∧
    (p.Diverges R .off s → ∀ n, ∃ rounds,
      (steps R .off n (.start p) s).1 <+: Note.outcomes (p.notes R s rounds)) := by
  refine ⟨fun r s' => ?_, fun r s' os => ?_, fun rounds => ?_, fun hdiv n => ?_⟩
  · exact Program.returns_iff_noted
  · exact Program.returns_noted_iff_steps
  · obtain ⟨j, m₁, s₁, run, -⟩ := p.exists_runs_notes R s rounds
    exact Stepper.outcomes_of_runs run
  · exact hdiv.exists_prefix n

end RobotControl
