import Mathlib.Tactic
import RobotControl.Proofs.SensorUse
import RobotControl.Robot.Playback

/-!
# Accounting for steps

A stepper counts its actions.  Beside a record of everything that is asked of the robot, each
outcome of a step stands for something: an action for one call that succeeded, a halt for one call
that was refused, and every other outcome for readings alone.  After a terminal outcome nothing more
is asked.

* `OnlyReads`: sensors were read, and no call was made;
* `Action.Denotes`: the call of an action, by its word and by the value of its operand;
* `Action.CallsOnce`: one call was made, for the sake of an action;
* `Step.Settles`: what a step with a given outcome asks of the robot;
* `Stepper.session`: successive steps on a robot to which anything may happen in between;
* `Stepper.session_accounted`: the main result.
-/

namespace RobotControl

open Stepper (Transition Breaks Runs Final)

/-! ### What a step can ask -/

/-- Whether an event is a reading. -/
def Event.isRead : Event → Bool
  | .read _ _ => true
  | .called _ _ => false

/-- Whether an event is a call that succeeded. -/
def Event.isAccepted : Event → Bool
  | .called _ none => true
  | _ => false

variable {σ : Type}

/-- Between two states of a recorded robot, sensors were read and no call was made. -/
def OnlyReads (t u : σ × Array Event) : Prop :=
  ∃ rs : List Event, u.2.toList = t.2.toList ++ rs ∧ ∀ e ∈ rs, e.isRead

/-- Makes a call.  The answer is a halt or nothing. -/
def Robot.answer (R : Robot σ) (c : Call) (s : σ) : Option Halt × σ :=
  match R.act c s with
  | .ok _ s' => (none, s')
  | .error h s' => (some h, s')

/-- The call that an action stands for in the state `s`: it has the word of the action, and as its
operand the value of the action's operand, if there is one.  Evaluating this leads to `s'`. -/
def Action.Denotes (R : Robot σ) (a : Action) (c : Call) (s s' : σ) : Prop :=
  c.word = a.word ∧
    match a.operand? with
    | none => c.operand? = none ∧ s' = s
    | some e => ∃ v, e.eval R s = .ok v s' ∧ c.operand? = some v

/-- Between two states of a recorded robot one call was made, namely `c`, and this was its answer.
Only sensors were read before it, at last those in the operand of the action `a`, which gave `c`. -/
def Action.CallsOnce (R : Robot σ) (a : Action) (c : Call) (answer : Option Halt)
    (t u : σ × Array Event) : Prop :=
  ∃ t₁ t₂, OnlyReads t t₁ ∧ a.Denotes R.recorded c t₁ t₂ ∧ OnlyReads t₁ t₂ ∧
    R.answer c t₂.1 = (answer, u.1) ∧ u.2 = t₂.2.push (.called c answer)

/-- What a step with a given outcome asks of the robot, between the states before and after it. -/
def Step.Settles (R : Robot σ) (t u : σ × Array Event) : Step → Prop
  | .acted a => ∃ c, Action.CallsOnce R a c none t u
  | .failed (.halted h) => ∃ a c, Action.CallsOnce R a c (some h) t u
  | .idle | .finished | .failed _ => OnlyReads t u

variable {R : Robot σ} {t u v : σ × Array Event}

namespace OnlyReads

theorem refl (t : σ × Array Event) : OnlyReads t t := ⟨[], by simp, by simp⟩

theorem trans (h : OnlyReads t u) (h' : OnlyReads u v) : OnlyReads t v := by
  obtain ⟨rs, hu, hrs⟩ := h
  obtain ⟨rs', hv, hrs'⟩ := h'
  refine ⟨rs ++ rs', by rw [hv, hu, List.append_assoc], fun e he => ?_⟩
  rcases List.mem_append.1 he with he | he
  · exact hrs e he
  · exact hrs' e he

theorem countP_isAccepted (h : OnlyReads t u) :
    u.2.toList.countP Event.isAccepted = t.2.toList.countP Event.isAccepted := by
  obtain ⟨rs, hu, hrs⟩ := h
  have hnone : rs.countP Event.isAccepted = 0 := by
    rw [List.countP_eq_zero]
    intro e he
    cases e with
    | read x v => exact Bool.false_ne_true
    | called c answer => exact absurd (hrs _ he) Bool.false_ne_true
  rw [hu, List.countP_append, hnone, Nat.add_zero]

/-- A sensor of a recorded robot can be read without a call. -/
theorem sensesAlike (R : Robot σ) (t : σ × Array Event) :
    R.recorded.SensesAlike R.recorded fun u v => u = v ∧ OnlyReads t v := by
  rintro x u _ ⟨rfl, h⟩
  refine .ok ⟨rfl, h.trans ⟨[.read x (R.sense x u.1).1], ?_, by simp [Event.isRead]⟩⟩
  exact Array.toList_push

theorem eval {c : Cond} {r : EStateM.Result Fault (σ × Array Event) Bool}
    (hr : c.eval R.recorded t = r) : OnlyReads t (stateAfter r) := by
  subst hr
  exact (c.eval_agree (sensesAlike R t) ⟨rfl, refl t⟩).stateAfter

theorem traverse {a : Action} {r : EStateM.Result Fault (σ × Array Event) Call}
    (hr : Command.traverse (Expr.eval R.recorded) a t = r) : OnlyReads t (stateAfter r) := by
  subst hr
  exact (Command.traverse_agree (sensesAlike R t) a ⟨rfl, refl t⟩).stateAfter

end OnlyReads

theorem Action.CallsOnce.countP_isAccepted {a : Action} {c : Call} {answer : Option Halt}
    (h : Action.CallsOnce R a c answer t u) :
    u.2.toList.countP Event.isAccepted =
      t.2.toList.countP Event.isAccepted + [Event.called c answer].countP Event.isAccepted := by
  obtain ⟨t₁, t₂, hreads, -, hreads', -, hu⟩ := h
  rw [hu, Array.toList_push, List.countP_append, hreads'.countP_isAccepted,
    hreads.countP_isAccepted]

/-- Readings in front of a step change nothing about what it settles. -/
theorem Step.Settles.after {o : Step} (h : OnlyReads t u) (ho : o.Settles R u v) :
    o.Settles R t v := by
  have hcalls {a : Action} {c : Call} {answer : Option Halt}
      (hc : Action.CallsOnce R a c answer u v) : Action.CallsOnce R a c answer t v := by
    obtain ⟨t₁, t₂, hreads, hrest⟩ := hc
    exact ⟨t₁, t₂, h.trans hreads, hrest⟩
  cases o with
  | acted a =>
    obtain ⟨c, hc⟩ := ho
    exact ⟨c, hcalls hc⟩
  | idle | finished => exact h.trans ho
  | failed f =>
    cases f with
    | halted e =>
      obtain ⟨a, c, hc⟩ := ho
      exact ⟨a, c, hcalls hc⟩
    | divisionByZero n | overflow op l r => exact h.trans ho

/-- The calls that succeed are the actions. -/
theorem Step.Settles.countP_isAccepted {o : Step} (h : o.Settles R t u) :
    u.2.toList.countP Event.isAccepted =
      t.2.toList.countP Event.isAccepted + [o].countP Step.isActed := by
  cases o with
  | acted a =>
    obtain ⟨c, hc⟩ := h
    exact hc.countP_isAccepted
  | idle | finished => exact OnlyReads.countP_isAccepted h
  | failed f =>
    cases f with
    | halted e =>
      obtain ⟨a, c, hc⟩ := h
      exact hc.countP_isAccepted
    | divisionByZero n | overflow op l r => exact OnlyReads.countP_isAccepted h

/-! ### The call of an action -/

/-- Word and operand make up a command. -/
theorem Command.eq_of_word {α : Type} {c d : Command α} (hword : c.word = d.word)
    (hoperand : c.operand? = d.operand?) : c = d := by
  have h : some c = some d := by
    rw [← c.ofWord?_word, hword, hoperand, d.ofWord?_word]
  exact Option.some.inj h

/-- A command keeps its word, and only its operand is computed. -/
theorem Command.traverse_cases {α β : Type} (f : α → EStateM Fault σ β) (a : Command α) :
    (a.operand? = none ∧ ∃ c : Command β, traverse f a = pure c ∧ c.word = a.word ∧
      c.operand? = none) ∨
    ∃ x, a.operand? = some x ∧ ∃ g : β → Command β, traverse f a = (do return g (← f x)) ∧
      ∀ v, (g v).word = a.word ∧ (g v).operand? = some v := by
  cases a with
  | move x =>
    cases x with
    | none => exact .inl ⟨rfl, .move none, rfl, rfl, rfl⟩
    | some x => exact .inr ⟨x, rfl, fun v => .move (some v), rfl, fun v => ⟨rfl, rfl⟩⟩
  | wait x =>
    cases x with
    | none => exact .inl ⟨rfl, .wait none, rfl, rfl, rfl⟩
    | some x => exact .inr ⟨x, rfl, fun v => .wait (some v), rfl, fun v => ⟨rfl, rfl⟩⟩
  | shield raised =>
    refine .inl ⟨rfl, .shield raised, rfl, ?_, rfl⟩
    cases raised <;> rfl
  | _ => exact .inl ⟨rfl, _, rfl, rfl, rfl⟩

/-- What is carried out for an action is the call that it denotes. -/
theorem Command.traverse_eq_ok_iff {a : Action} {c : Call} {s s' : σ} :
    Command.traverse (Expr.eval R) a s = .ok c s' ↔ a.Denotes R c s s' := by
  unfold Action.Denotes
  obtain ⟨ha, d, hd, hword, hoperand⟩ | ⟨e, ha, g, hg, hgv⟩ :=
    Command.traverse_cases (Expr.eval R) a
  · rw [hd, ha]
    constructor
    · rintro ⟨⟩
      exact ⟨hword, hoperand, rfl⟩
    · rintro ⟨hc, hc', rfl⟩
      rw [Command.eq_of_word (hc.trans hword.symm) (hc'.trans hoperand.symm)]
      rfl
  · rw [hg, ha, bind_eq_ok_iff]
    constructor
    · rintro ⟨v, t, hv, ⟨⟩⟩
      exact ⟨(hgv v).1, v, hv, (hgv v).2⟩
    · rintro ⟨hc, v, hv, hc'⟩
      rw [Command.eq_of_word (hc.trans (hgv v).1.symm) (hc'.trans (hgv v).2.symm)]
      exact ⟨v, s', hv, rfl⟩

/-! ### Faults of arithmetic -/

/-- A fault that is no halt of the robot. -/
def Fault.IsArithmetic : Fault → Prop
  | .divisionByZero _ | .overflow _ _ _ => True
  | .halted _ => False

section Arithmetic

variable {s s' : σ} {f : Fault}

theorem ArithOp.isArithmetic_of_apply {op : ArithOp} {l r : Int64} (h : op.apply l r = .error f) :
    f.IsArithmetic := by
  unfold ArithOp.apply at h
  split at h
  · cases h
    trivial
  · split at h <;> cases h
    trivial

theorem Expr.isArithmetic_of_eval {e : Expr} (h : e.eval R s = .error f s') : f.IsArithmetic := by
  induction e generalizing s with
  | num v | sensor x => cases h
  | binary op l r ihl ihr =>
    obtain h | ⟨a, s₁, -, h⟩ := bind_eq_error_iff.1 h
    · exact ihl h
    obtain h | ⟨b, s₂, -, h⟩ := bind_eq_error_iff.1 h
    · exact ihr h
    cases hop : op.apply a b with
    | ok v =>
      rw [hop] at h
      cases h
    | error f' =>
      rw [hop] at h
      cases h
      exact ArithOp.isArithmetic_of_apply hop

theorem Cond.isArithmetic_of_eval {c : Cond} (h : c.eval R s = .error f s') : f.IsArithmetic := by
  induction c generalizing s with
  | compare op l r =>
    obtain h | ⟨a, s₁, -, h⟩ := bind_eq_error_iff.1 h
    · exact Expr.isArithmetic_of_eval h
    obtain h | ⟨b, s₂, -, h⟩ := bind_eq_error_iff.1 h
    · exact Expr.isArithmetic_of_eval h
    · cases h
  | conj l r ihl ihr =>
    obtain h | ⟨holds, s₁, -, h⟩ := bind_eq_error_iff.1 h
    · exact ihl h
    · cases holds with
      | true => exact ihr h
      | false => cases h
  | disj l r ihl ihr =>
    obtain h | ⟨holds, s₁, -, h⟩ := bind_eq_error_iff.1 h
    · exact ihl h
    · cases holds with
      | true => cases h
      | false => exact ihr h
  | neg c ih =>
    obtain h | ⟨holds, s₁, -, h⟩ := bind_eq_error_iff.1 h
    · exact ih h
    · cases h

theorem Command.isArithmetic_of_traverse {a : Action}
    (h : Command.traverse (Expr.eval R) a s = .error f s') : f.IsArithmetic := by
  obtain ⟨-, d, hd, -⟩ | ⟨e, -, g, hg, -⟩ := Command.traverse_cases (Expr.eval R) a
  · rw [hd] at h
    cases h
  · rw [hg] at h
    obtain h | ⟨v, s₁, -, h⟩ := bind_eq_error_iff.1 h
    · exact Expr.isArithmetic_of_eval h
    · cases h

end Arithmetic

theorem Fault.IsArithmetic.settles {f : Fault} (hf : f.IsArithmetic) (h : OnlyReads t u) :
    (Step.failed f).Settles R t u := by
  cases f with
  | halted e => exact hf.elim
  | divisionByZero n | overflow op l r => exact h

/-! ### Transitions -/

theorem Robot.answer_of_recorded_ok {c : Call} (h : R.recorded.act c t = .ok () u) :
    R.answer c t.1 = (none, u.1) ∧ u.2 = t.2.push (.called c none) := by
  obtain ⟨s, es⟩ := t
  simp only [Robot.recorded] at h
  unfold Robot.answer
  split at h <;> cases h
  next hact => exact ⟨by rw [hact], rfl⟩

theorem Robot.answer_of_recorded_error {c : Call} {e : Halt} (h : R.recorded.act c t = .error e u) :
    R.answer c t.1 = (some e, u.1) ∧ u.2 = t.2.push (.called c (some e)) := by
  obtain ⟨s, es⟩ := t
  simp only [Robot.recorded] at h
  unfold Robot.answer
  split at h <;> cases h
  next hact => exact ⟨by rw [hact], rfl⟩

namespace Stepper

variable {m m' m₁ : Stepper} {k : Nat} {o : Step}

theorem Transition.onlyReads (h : Transition R.recorded .off m t none m' u) : OnlyReads t u := by
  cases h with
  | thenYes hc | thenNo hc | elseYes hc | elseNo hc | whileRound _ hc | whileExit _ hc =>
    exact OnlyReads.eval hc
  | _ => exact .refl _

theorem Transition.settles (h : Transition R.recorded .off m t (some o) m' u) :
    o.Settles R t u := by
  cases h with
  | act ha =>
    obtain ⟨c, v, hc, hact⟩ := Action.perform_eq_ok_iff.1 ha
    have hreads := OnlyReads.traverse hc
    exact ⟨c, t, v, .refl t, Command.traverse_eq_ok_iff.1 hc, hreads,
      Robot.answer_of_recorded_ok hact⟩
  | stop | loopIdle | whileIdle => exact OnlyReads.refl _

theorem Breaks.settles {f : Fault} (h : Breaks R.recorded .off m t f u) :
    (Step.failed f).Settles R t u := by
  cases h with
  | act ha =>
    obtain hc | ⟨c, v, e, hc, hact, rfl⟩ := Action.perform_eq_error_iff.1 ha
    · exact (Command.isArithmetic_of_traverse hc).settles (OnlyReads.traverse hc)
    · have hreads := OnlyReads.traverse hc
      exact ⟨_, c, t, v, .refl t, Command.traverse_eq_ok_iff.1 hc, hreads,
        Robot.answer_of_recorded_error hact⟩
  | ifThen hc | ifElse hc | whileLoop _ hc =>
    exact (Cond.isArithmetic_of_eval hc).settles (OnlyReads.eval hc)

theorem Final.settles (h : Final R.recorded .off m t o u) : o.Settles R t u := by
  rcases h with ⟨-, rfl, rfl⟩ | ⟨f, rfl, hf⟩
  · exact OnlyReads.refl _
  · exact hf.settles

/-- Transitions without an outcome read sensors and make no call. -/
theorem Runs.onlyReads (h : Runs R.recorded .off k m t [] m' u) : OnlyReads t u := by
  generalize hos : ([] : List Step) = os at h
  induction h with
  | refl => exact .refl _
  | @tick _ o _ _ _ _ _ _ _ ht _ _ ih =>
    cases o with
    | some o => cases hos
    | none => exact ht.onlyReads.trans (ih hos)

/-! ### Steps -/

/-- What a step asks of the robot is what its outcome stands for. -/
theorem settles_of_step (h : m.step R.recorded .off t = ((o, m'), u)) : o.Settles R t u := by
  obtain ⟨k, m₁, t₁, run, ⟨o₁, m₂, t₂, -, ht⟩ | ⟨o₁, t₂, hf⟩⟩ :=
    exists_runs_of_step R.recorded .off m t
  · rw [step_of_runs run, step_of_outcome ht] at h
    cases h
    exact ht.settles.after run.onlyReads
  · rw [step_of_runs run, hf.step_eq] at h
    cases h
    exact hf.settles.after run.onlyReads

section AnyLog

variable {S : Robot σ} {log : Log σ} {s s' : σ}

/-- The actions are counted step by step. -/
theorem actions_of_step (h : m.step S log s = ((o, m'), s')) :
    m'.actions = m.actions + [o].countP Step.isActed := by
  by_cases ho : o.IsTerminal
  · obtain ⟨k, m₁, s₁, run, hf⟩ := final_of_step h ho
    rw [step_of_runs run, hf.step_eq] at h
    cases h
    cases o with
    | finished | failed f => exact run.actions_eq_add
    | acted a | idle => exact ho.elim
  · obtain ⟨k, run⟩ := runs_of_step h ho
    exact run.actions_eq_add

/-- Something is left to be done after every outcome that is not terminal. -/
theorem isFinished_of_step (h : m.step S log s = ((o, m'), s')) :
    m'.isFinished = true ↔ o.IsTerminal := by
  unfold isFinished
  rw [List.isEmpty_iff]
  constructor
  · intro hm'
    by_contra ho
    obtain ⟨k, m₁, s₁, run, ⟨o₁, m₂, s₂, -, ht⟩ | ⟨o₁, s₂, hf⟩⟩ := exists_runs_of_step S log m s
    · rw [step_of_runs run, step_of_outcome ht] at h
      cases h
      cases ht with
      | stop => exact ho trivial
      | act | loopIdle | whileIdle => cases hm'
    · rw [step_of_runs run, hf.step_eq] at h
      cases h
      exact ho hf.isTerminal
  · exact frames_eq_nil_of_step h

end AnyLog

/-- Keeping a record does not change a step. -/
theorem step_of_recorded (h : m.step R.recorded .off t = ((o, m'), u)) :
    m.step R .off t.1 = ((o, m'), u.1) := by
  have hact (c : Call) (t : σ × Array Event) (s : σ) (hs : t.1 = s) :
      Agree (fun t s => t.1 = s) (fun t s => t.1 = s) (R.recorded.act c t) (R.act c s) := by
    subst hs
    simp only [Robot.recorded]
    cases R.act c t.1 with
    | ok w s' => exact .ok rfl
    | error e s' => exact .error rfl
  obtain ⟨o₁, m₁, t₁, s₁, h₁, h₂, -, hs₁⟩ :=
    step_agree (((Tracks.recorded R).senses {}).on m.sensors) hact (List.Subset.refl _) rfl
  rw [h] at h₁
  cases h₁
  rw [h₂, hs₁]

/-! ### Sessions -/

/-- Successive steps on a robot to which anything may happen in between: `found` has the states in
which the steps find it.  What they ask of it is added to the record `es`. -/
def session (R : Robot σ) : List σ → Stepper → Array Event → List Step × Stepper × Array Event
  | [], m, es => ([], m, es)
  | s :: found, m, es =>
    let ((o, m'), (_, es')) := m.step R.recorded .off (s, es)
    let (os, last) := session R found m' es'
    (o :: os, last)

variable {s s' : σ} {found : List σ} {es es' : Array Event} {os : List Step}

theorem session_cons (h : m.step R.recorded .off (s, es) = ((o, m'), (s', es'))) :
    session R (s :: found) m es =
      (o :: (session R found m' es').1, (session R found m' es').2) := by
  rw [session, h]

theorem session_counts (h : session R found m es = (os, m', es')) :
    m'.actions = m.actions + os.countP Step.isActed ∧
      es'.toList.countP Event.isAccepted =
        es.toList.countP Event.isAccepted + os.countP Step.isActed := by
  induction found generalizing m es os with
  | nil =>
    cases h
    exact ⟨rfl, rfl⟩
  | cons s found ih =>
    obtain ⟨⟨⟨o, m₁⟩, s₁, es₁⟩, hstep⟩ : ∃ r, m.step R.recorded .off (s, es) = r := ⟨_, rfl⟩
    obtain ⟨⟨os₁, m₂, es₂⟩, hrest⟩ : ∃ r, session R found m₁ es₁ = r := ⟨_, rfl⟩
    rw [session_cons hstep, hrest] at h
    cases h
    obtain ⟨hactions, hcalls⟩ := ih hrest
    have hone := actions_of_step hstep
    have hsettled := (settles_of_step hstep).countP_isAccepted
    have hsplit : ([o] ++ os₁).countP Step.isActed =
        [o].countP Step.isActed + os₁.countP Step.isActed := List.countP_append
    rw [List.singleton_append] at hsplit
    dsimp only at hsettled ⊢
    constructor <;> omega

/-- A stepper with nothing left to do asks nothing, whatever it finds. -/
theorem session_of_finished (R : Robot σ) (found : List σ) (n : Nat) (es : Array Event) :
    session R found ⟨[], n⟩ es = (List.replicate found.length .finished, ⟨[], n⟩, es) := by
  induction found with
  | nil => rfl
  | cons s found ih =>
    rw [session_cons (step_of_outcome .stop), ih, List.length_cons, List.replicate_succ]

/-- **Steps are accounted for.**  After any steps of a program, each of which may find the robot in
any state, the count of actions is the number of steps that acted, and also the number of calls that
succeeded.  Of each next step:

* keeping a record does not change it;
* if it acted, it has made one call, the one that its action denotes with the operand evaluated in
  this step, and the call succeeded; if the robot halted, it has made one call, which failed;
  otherwise it has made none;
* it leaves nothing to be done exactly if it finished or failed;
* then all later steps finish at once, ask nothing and leave the count as it is. -/
theorem session_accounted (R : Robot σ) (p : Program) (found : List σ)
    (h : session R found (.start p) #[] = (os, m, es)) :
    m.actions = os.countP Step.isActed ∧
    m.actions = es.toList.countP Event.isAccepted ∧
    ∀ s o m' s' es', m.step R.recorded .off (s, es) = ((o, m'), (s', es')) →
      m.step R .off s = ((o, m'), s') ∧
      o.Settles R (s, es) (s', es') ∧
      (m'.isFinished = true ↔ o.IsTerminal) ∧
      (o.IsTerminal → ∀ later, session R later m' es' =
        (List.replicate later.length .finished, m', es')) := by
  obtain ⟨hactions, hcalls⟩ := session_counts h
  have hstart : (start p).actions = 0 := rfl
  have hempty : (#[] : Array Event).toList.countP Event.isAccepted = 0 := rfl
  refine ⟨by omega, by omega, fun s o m' s' es' hstep => ⟨?_, ?_, ?_, fun ho later => ?_⟩⟩
  · exact step_of_recorded hstep
  · exact settles_of_step hstep
  · exact isFinished_of_step hstep
  · obtain ⟨frames, n⟩ := m'
    obtain rfl : frames = [] := frames_eq_nil_of_step hstep ho
    exact session_of_finished R later n es'

/-- Goes after an opponent on the left while there is fuel, as far as the fuel reaches. -/
def pursuit : Program :=
  ⟨.single (.whileLoop (.compare .gt (.sensor .fuelLeft) (.num 0))
    (.single (.ifThen (.compare .lt (.sensor .opponentLR) (.num 0))
      (.single (.action (.move (some (.sensor .fuelLeft))))))))⟩

/-- A robot that is found first without an opponent, then with one, and then with one but stuck. -/
theorem session_accounted_pursuit :
    let chase : Action := .move (some (.sensor .fuelLeft))
    let found : List Playback := [{ reels := [(.fuelLeft, [3])] },
      { reels := [(.fuelLeft, [3, 2]), (.opponentLR, [-1])] }]
    let stuck : Playback :=
      { reels := [(.fuelLeft, [5]), (.opponentLR, [-1])], haltAt := some 1, reason := "stuck" }
    let m : Stepper := (session Playback.robot found (.start pursuit) #[]).2.1
    let es : Array Event := #[.read .fuelLeft 3, .read .opponentLR 0, .read .fuelLeft 3,
      .read .opponentLR (-1), .read .fuelLeft 2, .called (.move (some 2)) none]
    let es' : Array Event := es ++ #[.read .fuelLeft 5, .read .opponentLR (-1), .read .fuelLeft 5,
      .called (.move (some 5)) (some ⟨"stuck"⟩)]
    session Playback.robot found (.start pursuit) #[] = ([.idle, .acted chase], m, es) ∧
    m.actions = 1 ∧ es.toList.countP Event.isAccepted = 1 ∧
    m.step Playback.robot.recorded .off (stuck, es) =
      ((.failed (.halted ⟨"stuck"⟩), ⟨[], 1⟩), ({ stuck with calls := 1 }, es')) ∧
    (∃ a c, Action.CallsOnce Playback.robot a c (some ⟨"stuck"⟩) (stuck, es)
      ({ stuck with calls := 1 }, es')) ∧
    ∀ later, session Playback.robot later ⟨[], 1⟩ es' =
      (List.replicate later.length .finished, ⟨[], 1⟩, es') := by
  intro chase found stuck m es es'
  have h : session Playback.robot found (.start pursuit) #[] = ([.idle, .acted chase], m, es) := by
    decide +kernel
  have hstep : m.step Playback.robot.recorded .off (stuck, es) =
      ((.failed (.halted ⟨"stuck"⟩), ⟨[], 1⟩), ({ stuck with calls := 1 }, es')) := by
    show @Eq ((Step × Stepper) × Playback × Array Event) _ _
    decide +kernel
  obtain ⟨hactions, hcalls, hnext⟩ := session_accounted Playback.robot pursuit found h
  obtain ⟨-, hsettled, -, hlater⟩ := hnext _ _ _ _ _ hstep
  exact ⟨h, hactions, hcalls.symm.trans hactions, hstep, hsettled, hlater trivial⟩

end Stepper

end RobotControl
