import Mathlib.Tactic
import RobotControl.Proofs.CallLog
import RobotControl.Proofs.Conclusion

/-!
# What a run depends on

A run reads no sensor that its program does not mention.  Two robots whose other sensors differ in
any way, and which answer calls alike, run the program alike, in one go and step by step.

* `Statement.sensors`, `Block.sensors`, `Program.sensors`, `Stepper.sensors`: the sensors that are
  mentioned in what is to be done;
* `Stepper.tick_agree`: a transition on two robots.  It adds nothing to the sensors that are
  mentioned, so that the same holds of steps and of whole runs;
* `Scripted.AlikeOn`: scripted robots in surroundings that differ.
-/

namespace RobotControl

/-! ### The sensors that are mentioned -/

mutual

/-- The sensors that a statement mentions. -/
def Statement.sensors : Statement → List Sensor
  | .action a => Action.sensors a
  | .loop body => body.sensors
  | .ifThen test yes => test.sensors ++ yes.sensors
  | .ifElse test yes no => test.sensors ++ (yes.sensors ++ no.sensors)
  | .whileLoop test body => test.sensors ++ body.sensors

/-- The sensors that the statements of a block mention. -/
def Block.sensors : Block → List Sensor
  | .single s => s.sensors
  | .cons s rest => s.sensors ++ rest.sensors

end

/-- The sensors that a program mentions. -/
def Program.sensors (p : Program) : List Sensor := p.body.sensors

/-- The sensors that are mentioned in what is still to be done at one level. -/
def Frame.sensors : Frame → List Sensor
  | .seq todo => todo.flatMap Statement.sensors
  | .loop body _ => body.sensors
  | .whileLoop test body _ => test.sensors ++ body.sensors

/-- The sensors that are mentioned in what is still to be done. -/
def Stepper.sensors (m : Stepper) : List Sensor := m.frames.flatMap Frame.sensors

@[simp] theorem Block.flatMap_sensors_toList (b : Block) :
    b.toList.flatMap Statement.sensors = b.sensors := by
  cases b with
  | single s => simp [Block.toList, Block.sensors]
  | cons s rest => simp [Block.toList, Block.sensors, rest.flatMap_sensors_toList]

theorem Stepper.sensors_start_subset (p : Program) : (Stepper.start p).sensors ⊆ p.sensors := by
  simp [Stepper.start, Stepper.sensors, Frame.sensors, Program.statements, Program.sensors]

namespace Stepper

variable {τ σ : Type} {R₁ : Robot τ} {R₂ : Robot σ} {Rel : τ → σ → Prop} {xs : List Sensor}
  {m m' : Stepper} {t t' : τ} {s s' : σ}

/-- No transition brings in a sensor that was not mentioned before it. -/
theorem Transition.sensors_subset {log : Log σ} {o : Option Step}
    (h : Transition R₂ log m s o m' s') : m'.sensors ⊆ m.sensors := by
  intro x
  cases h <;>
    simp only [sensors, List.flatMap_cons, Frame.sensors, Statement.sensors,
      Block.flatMap_sensors_toList, List.mem_append] <;>
    tauto

/-! ### Two robots -/

section TwoRobots

variable (hR : R₁.SensesAlikeOn R₂ Rel xs)
  (hact : ∀ c t s, Rel t s → Agree Rel Rel (R₁.act c t) (R₂.act c s))

include hact in
theorem dispatch_agree (a : Action) (c : Call) (h : Rel t s) :
    Agree Rel Rel (R₁.dispatch .off a c t) (R₂.dispatch .off a c s) := by
  have hcall := hact c t s h
  unfold Robot.dispatch
  generalize R₁.act c t = r₁, R₂.act c s = r₂ at hcall
  cases hcall with
  | ok h => exact .ok h
  | error h => exact .error h

include hR hact

/-- **A transition depends only on the sensors that are mentioned.** -/
theorem tick_agree (hm : m.sensors ⊆ xs) (h : Rel t s) :
    Agree Rel Rel (m.tick R₁ .off t) (m.tick R₂ .off s) := by
  have hR := hR.mono hm
  obtain ⟨_ | ⟨frame, below⟩, n⟩ := m
  · exact .ok h
  -- the sensors at the front come first among those that are mentioned
  replace hR : R₁.SensesAlikeOn R₂ Rel frame.sensors := by
    rw [sensors, List.flatMap_cons] at hR
    exact hR.left
  cases frame with
  | seq todo =>
    cases todo with
    | nil => exact .ok h
    | cons st todo =>
      replace hR : R₁.SensesAlikeOn R₂ Rel st.sensors := by
        rw [Frame.sensors, List.flatMap_cons] at hR
        exact hR.left
      cases st with
      | action a =>
        refine (Action.perform_agreeOn hR h fun c _ _ => dispatch_agree hact a c).bind ?_
        exact fun _ _ _ h₁ => .ok h₁
      | loop body | whileLoop c body => exact .ok h
      | ifThen c yes | ifElse c yes no =>
        refine (Cond.eval_agreeOn hR.left h).bind fun holds t₁ s₁ h₁ => ?_
        cases holds <;> exact .ok h₁
  | loop body mark =>
    simp only [tick]
    split_ifs <;> exact .ok h
  | whileLoop c body mark =>
    simp only [tick]
    split_ifs
    · exact .ok h
    · refine (Cond.eval_agreeOn hR.left h).bind fun holds t₁ s₁ h₁ => ?_
      cases holds <;> exact .ok h₁

/-- So does a step. -/
theorem step_agree (hm : m.sensors ⊆ xs) (h : Rel t s) :
    ∃ o m' t' s', m.step R₁ .off t = ((o, m'), t') ∧ m.step R₂ .off s = ((o, m'), s') ∧
      m'.sensors ⊆ xs ∧ Rel t' s' := by
  induction hw : m.weight using Nat.strong_induction_on generalizing m t s with
  | _ w ih =>
    subst hw
    have htick := tick_agree hR hact hm h
    generalize h₁ : m.tick R₁ .off t = r₁, h₂ : m.tick R₂ .off s = r₂ at htick
    cases htick with
    | error hrel =>
      exact ⟨_, _, _, _, step_of_fault (breaks_of_tick h₁), step_of_fault (breaks_of_tick h₂),
        List.nil_subset xs, hrel⟩
    | @ok r t₁ s₁ hrel =>
      obtain ⟨o, m₁⟩ := r
      have hsub := List.Subset.trans (transition_of_tick h₂).sensors_subset hm
      cases o with
      | some o =>
        exact ⟨o, m₁, t₁, s₁, step_of_outcome (transition_of_tick h₁),
          step_of_outcome (transition_of_tick h₂), hsub, hrel⟩
      | none =>
        rw [step_of_silent (transition_of_tick h₁), step_of_silent (transition_of_tick h₂)]
        exact ih m₁.weight (weight_of_tick h₂) hsub hrel rfl

/-- And so do any number of steps. -/
theorem steps_agree (hm : m.sensors ⊆ xs) (h : Rel t s) (n : Nat) :
    ∃ os m' t' s', steps R₁ .off n m t = (os, m', t') ∧ steps R₂ .off n m s = (os, m', s') ∧
      Rel t' s' := by
  induction n generalizing m t s with
  | zero => exact ⟨[], m, t, s, rfl, rfl, h⟩
  | succ n ih =>
    obtain ⟨o, m₁, t₁, s₁, h₁, h₂, hsub, hrel⟩ := step_agree hR hact hm h
    obtain ⟨os, m', t', s', hs₁, hs₂, hrel'⟩ := ih hsub hrel
    exact ⟨o :: os, m', t', s', by rw [steps_succ h₁, hs₁], by rw [steps_succ h₂, hs₂], hrel'⟩

theorem EndsWith.agree {o : Step} (hend : EndsWith R₁ .off m t o t') (hm : m.sensors ⊆ xs)
    (h : Rel t s) : ∃ s', EndsWith R₂ .off m s o s' ∧ Rel t' s' := by
  obtain ⟨ho, os, m', hsteps, hos⟩ := hend
  obtain ⟨os', m'', t'', s', h₁, h₂, hrel⟩ := steps_agree hR hact hm h (os.length + 1)
  rw [hsteps] at h₁
  cases h₁
  exact ⟨s', ⟨ho, os, m', h₂, hos⟩, hrel⟩

end TwoRobots

end Stepper

/-! ### Scripted robots -/

namespace Scripted

variable {r₁ r₂ : Scripted} {xs : List Sensor}

/-- The same fuel, shield, budget and record, and the same readings of the sensors in `xs`. -/
structure AlikeOn (xs : List Sensor) (r₁ r₂ : Scripted) : Prop where
  fuel : r₁.fuel = r₂.fuel
  shield : r₁.shield = r₂.shield
  budget : r₁.setup.budget = r₂.setup.budget
  calls : r₁.calls = r₂.calls
  reading : ∀ x ∈ xs, r₁.reading x = r₂.reading x

namespace AlikeOn

theorem symm (h : AlikeOn xs r₁ r₂) : AlikeOn xs r₂ r₁ :=
  ⟨h.fuel.symm, h.shield.symm, h.budget.symm, h.calls.symm, fun x hx => (h.reading x hx).symm⟩

/-- They refuse the same calls. -/
theorem refusal?_eq (h : AlikeOn xs r₁ r₂) (c : Call) : r₁.refusal? c = r₂.refusal? c := by
  cases c <;> simp only [Scripted.refusal?, Scripted.spent?, h.fuel, h.budget, h.calls]

/-- A call that they accept keeps them alike: only the sensor for fuel shows a difference, and it
shows the same on both. -/
theorem after (h : AlikeOn xs r₁ r₂) (c : Call) : AlikeOn xs (r₁.after c) (r₂.after c) := by
  have hfuel : (r₁.after c).fuel = (r₂.after c).fuel := by
    cases c with
    | move d => exact congrArg (fuelAfter · d) h.fuel
    | _ => exact h.fuel
  refine ⟨hfuel, ?_, h.budget, congrArg (·.push c) h.calls, fun x hx => ?_⟩
  · cases c with
    | shield raised => rfl
    | _ => exact h.shield
  · by_cases hx' : x = .fuelLeft
    · subst hx'
      exact hfuel
    · calc (r₁.after c).reading x
        _ = r₁.reading x := reading_congr hx' rfl
        _ = r₂.reading x := h.reading x hx
        _ = (r₂.after c).reading x := reading_congr hx' rfl

theorem sensesAlikeOn : robot.SensesAlikeOn robot (AlikeOn xs) xs := by
  intro x hx r₁ r₂ h
  show Agree _ _ (.ok (r₁.reading x) r₁) (.ok (r₂.reading x) r₂)
  rw [h.reading x hx]
  exact .ok h

theorem act (c : Call) (r₁ r₂ : Scripted) (h : AlikeOn xs r₁ r₂) :
    Agree (AlikeOn xs) (AlikeOn xs) (robot.act c r₁) (robot.act c r₂) := by
  have hsame := h.refusal?_eq c
  cases hc : r₂.refusal? c with
  | none =>
    rw [act_of_accepted (hsame.trans hc), act_of_accepted hc]
    exact .ok (h.after c)
  | some e =>
    rw [act_of_refusal (hsame.trans hc), act_of_refusal hc]
    exact .error h

theorem returns {p : Program} {res : Except Fault Unit} {r₁' : Scripted}
    (h : AlikeOn p.sensors r₁ r₂) (hr : p.Returns robot .off r₁ res r₁') :
    ∃ r₂', p.Returns robot .off r₂ res r₂' ∧ AlikeOn p.sensors r₁' r₂' := by
  obtain ⟨r₂', hend, hrel⟩ := (Program.returns_iff_endsWith.1 hr).agree sensesAlikeOn act
    (Stepper.sensors_start_subset p) h
  exact ⟨r₂', Program.returns_iff_endsWith.2 hend, hrel⟩

end AlikeOn

/-- **A run depends only on the sensors that its program mentions.**  On two scripted robots with
the same fuel, shield, budget and record, whose readings agree on these sensors, in whatever
surroundings:

* a run comes to an end on the one exactly when it does on the other, with the same result;
* the calls, the fuel and the shield are then the same;
* after any number of steps, the outcomes and what is left to do are the same, and so are the calls,
  the fuel and the shield. -/
theorem run_depends_on_mentioned_sensors (p : Program) (r₁ r₂ : Scripted)
    (hfuel : r₁.fuel = r₂.fuel) (hshield : r₁.shield = r₂.shield)
    (hbudget : r₁.setup.budget = r₂.setup.budget) (hcalls : r₁.calls = r₂.calls)
    (hreading : ∀ x ∈ p.sensors, r₁.reading x = r₂.reading x) :
    (∀ res, (∃ r₁', p.Returns robot .off r₁ res r₁') ↔ ∃ r₂', p.Returns robot .off r₂ res r₂') ∧
    (∀ res₁ res₂ r₁' r₂', p.Returns robot .off r₁ res₁ r₁' → p.Returns robot .off r₂ res₂ r₂' →
      res₁ = res₂ ∧ r₁'.calls = r₂'.calls ∧ r₁'.fuel = r₂'.fuel ∧ r₁'.shield = r₂'.shield) ∧
    ∀ n,
      let (os₁, m₁, r₁') := Stepper.steps robot .off n (.start p) r₁
      let (os₂, m₂, r₂') := Stepper.steps robot .off n (.start p) r₂
      os₁ = os₂ ∧ m₁ = m₂ ∧
        r₁'.calls = r₂'.calls ∧ r₁'.fuel = r₂'.fuel ∧ r₁'.shield = r₂'.shield := by
  have h : AlikeOn p.sensors r₁ r₂ := ⟨hfuel, hshield, hbudget, hcalls, hreading⟩
  refine ⟨fun res => ⟨?_, ?_⟩, ?_, fun n => ?_⟩
  · rintro ⟨r₁', hr⟩
    obtain ⟨r₂', hr', -⟩ := h.returns hr
    exact ⟨r₂', hr'⟩
  · rintro ⟨r₂', hr⟩
    obtain ⟨r₁', hr', -⟩ := h.symm.returns hr
    exact ⟨r₁', hr'⟩
  · intro res₁ res₂ r₁' r₂' hr₁ hr₂
    obtain ⟨r, hr, hrel⟩ := h.returns hr₁
    obtain ⟨rfl, rfl⟩ := hr.unique hr₂
    exact ⟨rfl, hrel.calls, hrel.fuel, hrel.shield⟩
  · obtain ⟨os, m, r₁', r₂', h₁, h₂, hrel⟩ :=
      Stepper.steps_agree AlikeOn.sensesAlikeOn AlikeOn.act (Stepper.sensors_start_subset p) h n
    rw [h₁, h₂]
    exact ⟨rfl, rfl, hrel.calls, hrel.fuel, hrel.shield⟩

/-- Moves on while there is fuel, if there is exactly one barrel. -/
def chase : Program :=
  ⟨.single (.whileLoop (.compare .gt (.sensor .fuelLeft) (.num 0))
    (.single (.ifElse (.compare .eq (.sensor .numBarrels) (.num 1))
      (.single (.action (.move (some (.num 2))))) (.single (.action .turnLeft)))))⟩

/-- A robot with one barrel on its right. -/
def nearBarrel : Scripted :=
  { setup := { fuel := 5, opponent := ⟨1, 2⟩, barrels := [⟨3, 0⟩], wall := 7 } }

/-- Another one, whose opponent, barrel and wall are elsewhere. -/
def farBarrel : Scripted :=
  { setup := { fuel := 5, opponent := ⟨-4, 9⟩, barrels := [⟨-8, 6⟩], wall := 0 } }

/-- Only the number of barrels counts, and not where they are. -/
theorem chase_depends_on_mentioned_sensors :
    (∀ x ∈ chase.sensors, nearBarrel.reading x = farBarrel.reading x) ∧
      (∀ x, x ∉ chase.sensors → nearBarrel.reading x ≠ farBarrel.reading x) ∧
      chase.Returns robot .off nearBarrel (.ok ())
        { nearBarrel with fuel := 0, calls := #[.move (some 2), .move (some 2), .move (some 2)] } ∧
      (∃ r, chase.Returns robot .off farBarrel (.ok ()) r) ∧
      (∀ r, chase.Returns robot .off farBarrel (.ok ()) r →
        r.calls = #[.move (some 2), .move (some 2), .move (some 2)] ∧ r.fuel = 0 ∧
          r.shield = false) ∧
      ∀ n, (Stepper.steps robot .off n (.start chase) nearBarrel).1 =
        (Stepper.steps robot .off n (.start chase) farBarrel).1 := by
  have hreading : ∀ x ∈ chase.sensors, nearBarrel.reading x = farBarrel.reading x := by decide
  have hnear : chase.Returns robot .off nearBarrel (.ok ())
      { nearBarrel with fuel := 0, calls := #[.move (some 2), .move (some 2), .move (some 2)] } :=
    ⟨4, by rfl⟩
  obtain ⟨hends, hsame, hsteps⟩ :=
    run_depends_on_mentioned_sensors chase nearBarrel farBarrel rfl rfl rfl rfl hreading
  refine ⟨hreading, ?_, hnear, (hends _).1 ⟨_, hnear⟩, fun r hr => ?_, fun n => (hsteps n).1⟩
  · intro x
    cases x <;> decide
  · obtain ⟨-, hcalls, hfuel, hshield⟩ := hsame _ _ _ r hnear hr
    exact ⟨hcalls.symm, hfuel.symm, hshield.symm⟩

end Scripted

end RobotControl
