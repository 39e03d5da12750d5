import Mathlib.Tactic
import RobotControl.Proofs.Tracking

/-!
# Running and stepping are the same

A program can be run in one go, or step by step.  On every robot, from every state, the two come to
the same end and ask the same of the robot on the way.

* `Program.Returns`: a run comes to an end, given enough rounds; `Program.Diverges`: it never does;
* `Program.Asks`, `Stepper.Asks`: the beginnings of what is asked of a robot, with its answers;
* `Program.stepping_agrees`: the main result.

Every run is followed by transitions of the stepper (`Program.exec_matches`).  The converse needs no
second simulation: transitions are deterministic, and a run that is cut off after `k` rounds is
followed by at least `k` of them, so that it cannot be cut off when the stepper ends sooner.
-/

namespace RobotControl

open Stepper (Runs Final EndsWith)

variable {τ σ : Type}

/-- The terminal outcome that stands for the result of a run. -/
def Step.ofResult : Except Fault Unit → Step
  | .ok _ => .finished
  | .error f => .failed f

theorem Step.ofResult_injective : Function.Injective Step.ofResult := by
  rintro (f | u) (f' | u') h <;> cases h <;> rfl

theorem Step.exists_ofResult {o : Step} (h : o.IsTerminal) : ∃ r, o = .ofResult r := by
  cases o with
  | finished => exact ⟨.ok (), rfl⟩
  | failed f => exact ⟨.error f, rfl⟩
  | acted a | idle => exact h.elim

namespace Program

/-- A run from `s` that is given enough rounds ends with the result `r` in the state `s'`. -/
def Returns (R : Robot σ) (log : Log σ) (p : Program) (s : σ) (r : Except Fault Unit) (s' : σ) :
    Prop :=
  ∃ rounds, p.exec R log rounds s =
    match r with
    | .ok u => .ok u s'
    | .error f => .error (.fault f) s'

/-- No number of rounds is enough for a run from `s`. -/
def Diverges (R : Robot σ) (log : Log σ) (p : Program) (s : σ) : Prop :=
  ∀ r s', ¬ p.Returns R log s r s'

/-- A run from `s` begins by asking `es` of the robot. -/
def Asks (R : Robot σ) (p : Program) (s : σ) (es : List Event) : Prop :=
  ∃ rounds, es <+: (stateAfter (p.exec R.recorded .off rounds (s, #[]))).2.toList

end Program

/-- Stepping from `s` begins by asking `es` of the robot. -/
def Stepper.Asks (R : Robot σ) (m : Stepper) (s : σ) (es : List Event) : Prop :=
  ∃ n, es <+: (Stepper.steps R.recorded .off n m (s, #[])).2.2.2.toList

/-! ### From runs to steps and back -/

section TwoRobots

variable {R₁ : Robot τ} {log₁ : Log τ} {R₂ : Robot σ} {Sim : Course → τ → σ → Prop}
  {p : Program} {t : τ} {s : σ}

/-- The transitions of a stepper follow every run of a program. -/
theorem Program.exec_matches (h : Tracks R₁ log₁ R₂ Sim) (k : Nat) (p : Program)
    (hs : Sim {} t s) : Matches R₂ Sim k (.start p) s [] [] [] (p.exec R₁ log₁ k t) := by
  have hbody := p.body.exec_matches h k hs [] []
  rw [List.append_nil] at hbody
  exact hbody.leave

/-- A run that returns is followed by transitions to a final place. -/
theorem Program.Returns.final (h : Tracks R₁ log₁ R₂ Sim) (hs : Sim {} t s)
    {r : Except Fault Unit} {t' : τ} (hr : p.Returns R₁ log₁ t r t') :
    ∃ j w m₁ s₁ s', Runs R₂ .off j (.start p) s w.outcomes m₁ s₁ ∧
      Final R₂ .off m₁ s₁ (.ofResult r) s' ∧ Sim w t' s' := by
  obtain ⟨k, hk⟩ := hr
  have hmatch := p.exec_matches h k hs
  rw [hk] at hmatch
  cases r with
  | ok u =>
    cases hmatch with
    | ok run ho _ sim =>
      rw [List.nil_append] at ho
      exact ⟨_, _, _, _, _, ho ▸ run, .of_nil, sim⟩
  | error f =>
    cases hmatch with
    | fault run hf ho sim =>
      rw [List.nil_append] at ho
      exact ⟨_, _, _, _, _, ho ▸ run, .of_breaks hf, sim⟩

/-- If transitions lead to a final place, then a run that is given a round more than there were
transitions comes to the same end. -/
theorem Program.returns_of_final (h : Tracks R₁ log₁ R₂ Sim) (hs : Sim {} t s) {j : Nat}
    {os : List Step} {m₁ : Stepper} {s₁ s' : σ} {o : Step}
    (run : Runs R₂ .off j (.start p) s os m₁ s₁) (hf : Final R₂ .off m₁ s₁ o s') :
    ∃ r t' w, o = .ofResult r ∧ w.outcomes = os ∧ p.Returns R₁ log₁ t r t' ∧ Sim w t' s' := by
  have hreturns : ∃ r t', p.Returns R₁ log₁ t r t' := by
    have hmatch := p.exec_matches h (j + 1) hs
    generalize hr : p.exec R₁ log₁ (j + 1) t = r at hmatch
    cases hmatch with
    | ok => exact ⟨.ok (), _, _, hr⟩
    | fault => exact ⟨.error _, _, _, hr⟩
    | unfinished hj run' =>
      -- the run was cut off, but the stepper has come to its end by then
      exact absurd (hf.le run run') (by omega)
  obtain ⟨r, t', hr⟩ := hreturns
  obtain ⟨j', w, m₂, s₂, s'', run', hf', sim⟩ := hr.final h hs
  obtain ⟨rfl, rfl, rfl⟩ := hf'.unique run' hf run
  exact ⟨r, t', w, rfl, rfl, hr, sim⟩

end TwoRobots

/-! ### One robot, and one that is recorded -/

variable {R : Robot σ} {p : Program} {s s' : σ}

/-- A robot keeps up with itself. -/
theorem Tracks.same (R : Robot σ) : Tracks R .off R fun _ t s => t = s where
  senses := by
    rintro w x t s rfl
    exact .ok rfl
  dispatch := by
    rintro w t s a c rfl
    unfold Robot.dispatch
    cases R.act c t with
    | ok u t' => exact .ok rfl
    | error e t' => exact .error rfl
  note := by
    rintro w t s n - rfl
    rfl

/-- A robot keeps up with the same robot under record. -/
theorem Tracks.recorded (R : Robot σ) : Tracks R.recorded .off R fun _ t s => t.1 = s where
  senses := by
    rintro w x ⟨t, es⟩ s rfl
    exact .ok rfl
  dispatch := by
    rintro w ⟨t, es⟩ s a c rfl
    unfold Robot.dispatch Robot.recorded
    dsimp only
    cases R.act c t with
    | ok u t' => exact .ok rfl
    | error e t' => exact .error rfl
  note := by
    rintro w t s n - rfl
    rfl

theorem Program.returns_iff_endsWith {r : Except Fault Unit} :
    p.Returns R .off s r s' ↔ EndsWith R .off (.start p) s (.ofResult r) s' := by
  rw [Stepper.endsWith_iff]
  constructor
  · intro h
    obtain ⟨j, w, m₁, s₁, s'', run, hf, rfl⟩ := h.final (.same R) rfl
    exact ⟨j, w.outcomes, m₁, s₁, run, hf⟩
  · rintro ⟨j, os, m₁, s₁, run, hf⟩
    obtain ⟨r', t', w, ho, -, h, rfl⟩ := Program.returns_of_final (.same R) rfl run hf
    rw [Step.ofResult_injective ho]
    exact h

/-- A robot that only keeps more in its state does not change a run. -/
theorem Program.returns_iff_view {R₁ : Robot τ} {log₁ : Log τ} {Sim : Course → τ → σ → Prop} {t : τ}
    (h : Tracks R₁ log₁ R Sim) {view : τ → σ} (hview : ∀ w t s, Sim w t s → view t = s)
    (hs : Sim {} t s) {r : Except Fault Unit} :
    p.Returns R .off s r s' ↔ ∃ t', p.Returns R₁ log₁ t r t' ∧ view t' = s' := by
  rw [Program.returns_iff_endsWith]
  constructor
  · intro hend
    obtain ⟨j, os, m₁, s₁, run, hf⟩ := Stepper.endsWith_iff.1 hend
    obtain ⟨r', t', w, ho, -, hr, hsim⟩ := Program.returns_of_final h hs run hf
    rw [Step.ofResult_injective ho]
    exact ⟨t', hr, hview w t' s' hsim⟩
  · rintro ⟨t', hr, rfl⟩
    obtain ⟨j, w, m₁, s₁, s'', run, hf, hsim⟩ := hr.final h hs
    rw [hview w t' s'' hsim]
    exact Stepper.endsWith_iff.2 ⟨j, w.outcomes, m₁, s₁, run, hf⟩

/-- Recording a run does not change it. -/
theorem Program.returns_iff_recorded {r : Except Fault Unit} :
    p.Returns R .off s r s' ↔ ∃ es, p.Returns R.recorded .off (s, #[]) r (s', es) := by
  rw [Program.returns_iff_view (t := (s, #[])) (.recorded R) (fun _ _ _ hsim => hsim) rfl]
  constructor
  · rintro ⟨⟨t, es⟩, hr, rfl⟩
    exact ⟨es, hr⟩
  · rintro ⟨es, hr⟩
    exact ⟨(s', es), hr, rfl⟩

theorem Program.diverges_iff :
    p.Diverges R .off s ↔ ∀ o s', ¬ EndsWith R .off (.start p) s o s' := by
  constructor
  · intro h o s' hend
    obtain ⟨r, rfl⟩ := Step.exists_ofResult hend.1
    exact h r s' (Program.returns_iff_endsWith.2 hend)
  · intro h r s' hr
    exact h _ s' (Program.returns_iff_endsWith.1 hr)

/-! ### What is asked of the robot -/

/-- A record only grows. -/
theorem Robot.recorded_grows (R : Robot σ) :
    R.recorded.Grows fun a b => a.2.toList <+: b.2.toList where
  refl := fun a => List.prefix_refl _
  trans := List.IsPrefix.trans
  read := by
    rintro x ⟨t, es⟩
    exact ⟨[_], (Array.toList_push).symm⟩
  act := by
    rintro c ⟨t, es⟩
    unfold Robot.recorded
    dsimp only
    cases R.act c t with
    | ok u t' => exact ⟨[_], (Array.toList_push).symm⟩
    | error e t' => exact ⟨[_], (Array.toList_push).symm⟩

/-- The state after a step grows from every place on the way to it. -/
theorem Stepper.grows_step {le : σ → σ → Prop} (h : R.Grows le) (m : Stepper) (s : σ) :
    le s (m.step R .off s).2 := by
  obtain ⟨k, m₁, s₁, run, ⟨o, m₂, s₂, -, ht⟩ | ⟨o, s₂, hf⟩⟩ := exists_runs_of_step R .off m s
  · rw [step_of_runs run, step_of_outcome ht]
    exact h.trans (run.grows h) (ht.grows h)
  · rw [step_of_runs run, hf.step_eq]
    exact h.trans (run.grows h) (hf.grows h)

theorem Program.stepper_asks_of_asks {es : List Event} (h : p.Asks R s es) :
    (Stepper.start p).Asks R s es := by
  obtain ⟨k, hes⟩ := h
  have hmatch := p.exec_matches (.same R.recorded) k (t := (s, #[])) rfl
  generalize p.exec R.recorded .off k (s, #[]) = r at hmatch hes
  -- wherever the run stops, one more step leads at least as far
  suffices hreach : ∃ n, (stateAfter r).2.toList <+:
      (Stepper.steps R.recorded .off n (.start p) (s, #[])).2.2.2.toList by
    obtain ⟨n, hn⟩ := hreach
    exact ⟨n, hes.trans hn⟩
  have hfrom : ∀ {j os m₁ s₁}, Runs R.recorded .off j (.start p) (s, #[]) os m₁ s₁ →
      ∃ n, (m₁.step R.recorded .off s₁).2 =
        (Stepper.steps R.recorded .off n (.start p) (s, #[])).2.2 := by
    intro j os m₁ s₁ run
    obtain ⟨⟨⟨o, m₂⟩, s₂⟩, hstep⟩ : ∃ r, m₁.step R.recorded .off s₁ = r := ⟨_, rfl⟩
    exact ⟨os.length + 1, by rw [Stepper.steps_of_runs run 0, Stepper.steps_one hstep, hstep]⟩
  cases hmatch with
  | ok run _ _ sim =>
    obtain ⟨n, hn⟩ := hfrom run
    exact ⟨n, hn ▸ sim ▸ Stepper.grows_step R.recorded_grows _ _⟩
  | unfinished _ run _ sim =>
    obtain ⟨n, hn⟩ := hfrom run
    exact ⟨n, hn ▸ sim ▸ Stepper.grows_step R.recorded_grows _ _⟩
  | fault run hf _ sim =>
    obtain ⟨n, hn⟩ := hfrom run
    rw [Stepper.step_of_fault hf] at hn
    exact ⟨n, hn ▸ sim ▸ List.prefix_refl _⟩

/-- Steps are overtaken by a run with as many rounds as there were transitions. -/
theorem Program.asks_of_stepper_asks {es : List Event} (h : (Stepper.start p).Asks R s es) :
    p.Asks R s es := by
  obtain ⟨n, hes⟩ := h
  suffices hreach : ∃ k, (Stepper.steps R.recorded .off n (.start p) (s, #[])).2.2.2.toList <+:
      (stateAfter (p.exec R.recorded .off k (s, #[]))).2.toList by
    obtain ⟨k, hk⟩ := hreach
    exact ⟨k, hes.trans hk⟩
  rcases Stepper.runs_or_endsWith R.recorded .off n (.start p) (s, #[]) with ⟨k, run⟩ | ⟨o, hend⟩
  · generalize (Stepper.steps R.recorded .off n (.start p) (s, #[])).2.2 = s' at run
    refine ⟨k, ?_⟩
    have hmatch := p.exec_matches (.same R.recorded) k (t := (s, #[])) rfl
    generalize p.exec R.recorded .off k (s, #[]) = r at hmatch
    have hovertakes : ∀ {j os m₁ s₁}, k ≤ j →
        Runs R.recorded .off j (.start p) (s, #[]) os m₁ s₁ → s'.2.toList <+: s₁.2.toList := by
      intro j os m₁ s₁ hkj run'
      obtain ⟨d, rfl⟩ := Nat.exists_eq_add_of_le hkj
      obtain ⟨_, -, hrest⟩ := run.split run'
      have hle := hrest.grows R.recorded_grows
      exact hle
    cases hmatch with
    | ok run' _ _ sim =>
      subst sim
      exact hovertakes (Final.of_nil.le run' run) run'
    | fault run' hb _ sim =>
      subst sim
      have hf := Final.of_breaks hb
      have hle := hf.grows R.recorded_grows
      exact (hovertakes (hf.le run' run) run').trans hle
    | unfinished hkj run' _ sim =>
      subst sim
      exact hovertakes hkj run'
  · obtain ⟨r, rfl⟩ := Step.exists_ofResult hend.1
    obtain ⟨k, hk⟩ := Program.returns_iff_endsWith.2 hend
    refine ⟨k, ?_⟩
    rw [hk]
    cases r <;> exact List.prefix_refl _

/-! ### The equivalence -/

/-- **Running a program and stepping through it are the same.**  On every robot, from every state:

* a run ends with a result in a state exactly when stepping comes to the terminal outcome of this
  result in the same state;
* then both have read the same sensors and made the same calls in the same order, with the same
  answers; a record of this does not change the run;
* a run goes on for ever exactly when stepping never comes to a terminal outcome;
* whether it ends or not, what a run begins by asking of the robot is what stepping begins by
  asking. -/
theorem Program.stepping_agrees (R : Robot σ) (p : Program) (s : σ) :
    (∀ r s', p.Returns R .off s r s' ↔ EndsWith R .off (.start p) s (.ofResult r) s') ∧
    (∀ r s' es, p.Returns R.recorded .off (s, #[]) r (s', es) ↔
      EndsWith R.recorded .off (.start p) (s, #[]) (.ofResult r) (s', es)) ∧
    (∀ r s', p.Returns R .off s r s' ↔ ∃ es, p.Returns R.recorded .off (s, #[]) r (s', es)) ∧
    (p.Diverges R .off s ↔ ∀ o s', ¬ EndsWith R .off (.start p) s o s') ∧
    (∀ es, p.Asks R s es ↔ (Stepper.start p).Asks R s es) := by
  refine ⟨fun r s' => ?_, fun r s' es => ?_, fun r s' => ?_, ?_, fun es => ⟨?_, ?_⟩⟩
  · exact Program.returns_iff_endsWith
  · exact Program.returns_iff_endsWith
  · exact Program.returns_iff_recorded
  · exact Program.diverges_iff
  · exact Program.stepper_asks_of_asks
  · exact Program.asks_of_stepper_asks

end RobotControl
