import Mathlib.Tactic
import RobotControl.Proofs.Idling

/-!
# What the record of calls tells

A scripted robot writes down the calls that it accepts.  Whatever is asked of it, its setup and this
record determine everything else about it.

* `Robot.actAll`: calls made one after the other, with their answers;
* `Robot.Accepts`: calls of which none is refused.  On a scripted robot, refused calls may as well
  not have been made, and steps make one of these calls for each action;
* `Scripted.Reflects`: fuel, shield and number of calls are as the record says.  Every accepted call
  preserves this.
-/

namespace RobotControl

variable {σ : Type}

/-! ### Sequences of calls -/

/-- Makes calls one after the other, whatever the answers.  An answer is a halt or nothing. -/
def Robot.actAll (R : Robot σ) : List Call → σ → List (Option Halt) × σ
  | [], s => ([], s)
  | c :: cs, s =>
    match R.act c s with
    | .ok _ s' => (none :: (R.actAll cs s').1, (R.actAll cs s').2)
    | .error h s' => (some h :: (R.actAll cs s').1, (R.actAll cs s').2)

/-- The calls whose answer was no halt. -/
def Call.accepted (cs : List Call) (answers : List (Option Halt)) : List Call :=
  ((cs.zip answers).filter fun e => e.2.isNone).map Prod.fst

/-- The robot accepts the calls `cs` one after the other, which leads from the state `s` to `s'`. -/
inductive Robot.Accepts (R : Robot σ) : σ → List Call → σ → Prop
  | nil {s} : Accepts R s [] s
  | cons {c cs s s₁ s'} (h : R.act c s = .ok () s₁) (rest : Accepts R s₁ cs s') :
    Accepts R s (c :: cs) s'

namespace Robot.Accepts

variable {R : Robot σ} {s s₁ s' : σ} {cs cs' : List Call}

theorem single {c : Call} (h : R.act c s = .ok () s') : R.Accepts s [c] s' := .cons h .nil

theorem append (h : R.Accepts s cs s₁) (h' : R.Accepts s₁ cs' s') : R.Accepts s (cs ++ cs') s' := by
  induction h with
  | nil => exact h'
  | cons hc _ ih => exact .cons hc (ih h')

end Robot.Accepts

section Stepping

open Stepper (Transition Runs)

variable {R : Robot σ} {k : Nat} {m m' : Stepper} {s s' : σ}

/-- Nothing changes a robot with pure sensors but the calls that it accepts, one for each action. -/
theorem Stepper.Transition.accepts (hR : R.PureSensors) {o : Option Step}
    (ht : Transition R .off m s o m' s') :
    ∃ cs, R.Accepts s cs s' ∧ cs.length = o.toList.countP Step.isActed := by
  have hstate := ht.state_eq hR
  cases ht with
  | act ha =>
    obtain ⟨c, hc⟩ := hR.perform ha
    exact ⟨[c], .single hc, rfl⟩
  | _ =>
    rw [hstate (by simp)]
    exact ⟨[], .nil, rfl⟩

theorem Stepper.Runs.accepts (hR : R.PureSensors) {os : List Step}
    (hrun : Runs R .off k m s os m' s') :
    ∃ cs, R.Accepts s cs s' ∧ cs.length = os.countP Step.isActed := by
  induction hrun with
  | refl => exact ⟨[], .nil, rfl⟩
  | tick ht _ _ ih =>
    obtain ⟨cs, hcs, hlength⟩ := ht.accepts hR
    obtain ⟨cs', hcs', hlength'⟩ := ih
    refine ⟨cs ++ cs', hcs.append hcs', ?_⟩
    rw [List.length_append, List.countP_append, hlength, hlength']

end Stepping

/-! ### Calls on a scripted robot -/

namespace Scripted

variable {r r' : Scripted} {c : Call} {cs : List Call}

/-- Whether and why a call is refused.  A move looks for fuel first. -/
def refusal? (r : Scripted) (c : Call) : Option Refusal :=
  match c with
  | .move _ => if r.fuel.toInt ≤ 0 then some .outOfFuel else r.spent?.map .budgetSpent
  | _ => r.spent?.map .budgetSpent

/-- The robot after a call that it accepts. -/
def after (r : Scripted) (c : Call) : Scripted where
  setup := r.setup
  fuel := match c with
    | .move distance => fuelAfter r.fuel distance
    | _ => r.fuel
  shield := match c with
    | .shield raised => raised
    | _ => r.shield
  calls := r.calls.push c

theorem record_of_spent {b : Nat} (h : r.spent? = some b) :
    record c r = .error (.budgetSpent b) r := by
  rw [record, get_bind, h]
  rfl

theorem record_of_not_spent (h : r.spent? = none) :
    record c r = .ok () { r with calls := r.calls.push c } := by
  rw [record, get_bind, h]
  rfl

/-- **A refused call changes nothing**, since the checks of an actuator come before its changes. -/
theorem carryOut_of_refusal {e : Refusal} (h : r.refusal? c = some e) :
    carryOut c r = .error e r := by
  have hspent {c : Call} (h : r.spent?.map .budgetSpent = some e) : record c r = .error e r := by
    obtain ⟨b, hb, rfl⟩ := Option.map_eq_some_iff.1 h
    exact record_of_spent hb
  cases c with
  | move d =>
    rw [carryOut, move, get_bind]
    simp only [refusal?] at h
    split_ifs at h ⊢ with hfuel
    · cases h
      rfl
    · exact bind_of_error (hspent h)
  | shield raised => exact bind_of_error (hspent h)
  | _ => exact hspent h

/-- Every other call changes all that it is meant to change. -/
theorem carryOut_of_accepted (h : r.refusal? c = none) : carryOut c r = .ok () (r.after c) := by
  have hrecord {c : Call} (h : r.spent?.map Refusal.budgetSpent = none) :
      record c r = .ok () { r with calls := r.calls.push c } :=
    record_of_not_spent (Option.map_eq_none_iff.1 h)
  cases c with
  | move d =>
    rw [carryOut, move, get_bind]
    simp only [refusal?] at h
    split_ifs at h ⊢ with hfuel
    exact bind_of_ok (hrecord h)
  | shield raised => exact bind_of_ok (hrecord h)
  | _ => exact hrecord h

theorem act_of_refusal {e : Refusal} (h : r.refusal? c = some e) :
    robot.act c r = .error ⟨e.reason⟩ r := by
  show EStateM.adaptExcept _ _ r = _
  rw [EStateM.adaptExcept, carryOut_of_refusal h]

theorem act_of_accepted (h : r.refusal? c = none) : robot.act c r = .ok () (r.after c) := by
  show EStateM.adaptExcept _ _ r = _
  rw [EStateM.adaptExcept, carryOut_of_accepted h]

theorem act_eq_ok (h : robot.act c r = .ok () r') : r.refusal? c = none ∧ r' = r.after c := by
  cases hc : r.refusal? c with
  | none =>
    rw [act_of_accepted hc] at h
    cases h
    exact ⟨rfl, rfl⟩
  | some e =>
    rw [act_of_refusal hc] at h
    cases h

/-- A call that makes the robot halt leaves it as it is. -/
theorem act_eq_error {e : Halt} (h : robot.act c r = .error e r') : r' = r := by
  cases hc : r.refusal? c with
  | none =>
    rw [act_of_accepted hc] at h
    cases h
  | some e' =>
    rw [act_of_refusal hc] at h
    cases h
    rfl

/-- A call that is accepted was within the budget. -/
theorem size_lt_budget {b : Nat} (h : r.refusal? c = none) (hb : r.setup.budget = some b) :
    r.calls.size < b := by
  have hspent : r.spent?.map Refusal.budgetSpent = none := by
    cases c with
    | move d =>
      simp only [refusal?] at h
      split_ifs at h
      exact h
    | _ => exact h
  simpa [spent?, hb] using hspent

/-- A move that is accepted found fuel. -/
theorem fuel_pos {d : Option Int64} (h : r.refusal? (.move d) = none) : 0 < r.fuel.toInt := by
  by_contra hle
  simp [refusal?, not_lt.1 hle] at h

/-- The calls that are not refused can be made on their own, to the same effect. -/
theorem accepts_actAll (cs : List Call) (r : Scripted) :
    Scripted.robot.Accepts r (Call.accepted cs (Scripted.robot.actAll cs r).1)
      (Scripted.robot.actAll cs r).2 := by
  induction cs generalizing r with
  | nil => exact .nil
  | cons c cs ih =>
    cases hact : Scripted.robot.act c r with
    | ok u r₁ =>
      simp only [Robot.actAll, hact]
      exact .cons hact (ih r₁)
    | error e r₁ =>
      obtain rfl := act_eq_error hact
      simp only [Robot.actAll, hact]
      exact ih r₁

/-- The calls that are accepted are written down. -/
theorem calls_of_accepts (h : Scripted.robot.Accepts r cs r') :
    r'.calls.toList = r.calls.toList ++ cs := by
  induction h with
  | nil => simp
  | cons hc _ ih =>
    obtain ⟨-, rfl⟩ := act_eq_ok hc
    rw [ih]
    simp [after]

end Scripted

/-! ### Fuel and shield -/

/-- How far a call moves the robot, backwards counting as nothing, if it is a move. -/
def Call.distance? : Call → Option Int
  | .move d => some (max 0 ((d.map Int64.toInt).getD 1))
  | _ => none

/-- Whether a call raises the shield, if it is about the shield. -/
def Call.shielding? : Call → Option Bool
  | .shield raised => some raised
  | _ => none

namespace Scripted

variable {u : Setup} {r r' : Scripted} {c : Call} {cs : List Call}

theorem cost_eq (d : Option Int64) : cost d = max 0 ((d.map Int64.toInt).getD 1) := by
  cases d <;> rfl

/-- Within 64 bits, fuel is used up exactly. -/
theorem toInt_fuelAfter {fuel : Int64} (h : 0 ≤ fuel.toInt) (d : Option Int64) :
    (fuelAfter fuel d).toInt = max 0 (fuel.toInt - cost d) := by
  have hcost : 0 ≤ cost d := by
    rw [cost_eq]
    exact le_max_left _ _
  have hlt : fuel.toInt < 2 ^ 63 := fuel.toInt_lt
  have hmin : Int64.minValue.toInt ≤ 0 := by decide
  apply Int64.toInt_ofInt_of_le <;> omega

/-- The robot is as its setup `u` and its record of calls say. -/
structure Reflects (u : Setup) (r : Scripted) : Prop where
  setup : r.setup = u
  within : ∀ b ∈ u.budget, r.calls.size ≤ b
  shield : r.shield = (r.calls.toList.filterMap Call.shielding?).getLast?.getD false
  fuel : r.fuel.toInt =
    if u.fuel.toInt ≤ 0 then u.fuel.toInt
    else max 0 (u.fuel.toInt - (r.calls.toList.filterMap Call.distance?).sum)

theorem reflects_start (u : Setup) : Reflects u { setup := u } where
  setup := rfl
  within := by simp
  shield := rfl
  fuel := by
    show u.fuel.toInt = if u.fuel.toInt ≤ 0 then u.fuel.toInt else max 0 (u.fuel.toInt - 0)
    split_ifs <;> omega

theorem Reflects.after (h : Reflects u r) (hc : r.refusal? c = none) : Reflects u (r.after c) := by
  refine ⟨h.setup, fun b hb => ?_, ?_, ?_⟩
  · have hlt := size_lt_budget hc (h.setup ▸ hb)
    simpa [Scripted.after] using hlt
  · have hshield := h.shield
    cases c with
    | shield raised => simp [Scripted.after, Call.shielding?]
    | _ => simpa [Scripted.after, Call.shielding?] using hshield
  · have hfuel := h.fuel
    cases c with
    | move d =>
      -- there was fuel, so it was there from the start and has not been used up
      have hpos := fuel_pos hc
      have hafter := toInt_fuelAfter hpos.le d
      rw [cost_eq] at hafter
      simp only [Scripted.after, Array.toList_push, List.filterMap_append, List.sum_append,
        List.filterMap_cons, List.filterMap_nil, Call.distance?, List.sum_singleton]
      rw [hafter]
      split_ifs at hfuel ⊢ <;> omega
    | _ => simpa [Scripted.after, Call.distance?, List.filterMap_cons] using hfuel

theorem Reflects.of_accepts (h : Reflects u r) (hcs : Scripted.robot.Accepts r cs r') :
    Reflects u r' := by
  induction hcs with
  | nil => exact h
  | cons hc _ ih =>
    obtain ⟨hrefusal, rfl⟩ := act_eq_ok hc
    exact ih (h.after hrefusal)

/-- Only the sensor for fuel shows what calls have changed. -/
theorem reading_congr {x : Sensor} (hx : x ≠ .fuelLeft) (h : r.setup = r'.setup) :
    r.reading x = r'.reading x := by
  cases x with
  | fuelLeft => exact absurd rfl hx
  | _ => simp only [Scripted.reading, h]

/-- **Setup and record determine a scripted robot.**  After any calls on a robot fresh from its
setup:

* its record has the calls that were accepted, in order, and no more than the budget allows;
* its shield is as the last recorded call about it says, and down when there is none;
* its fuel is what the recorded moves have left, computed exactly; what was no fuel at the start has
  not changed;
* nothing else that its sensors show has changed;
* a call that makes it halt leaves it as it is. -/
theorem determined_by_record {answers : List (Option Halt)}
    (h : Scripted.robot.actAll cs { setup := u } = (answers, r)) :
    (r.calls.toList = Call.accepted cs answers ∧ ∀ b ∈ u.budget, r.calls.size ≤ b) ∧
    r.shield = (r.calls.toList.filterMap Call.shielding?).getLast?.getD false ∧
    r.fuel.toInt =
      (if u.fuel.toInt ≤ 0 then u.fuel.toInt
      else max 0 (u.fuel.toInt - (r.calls.toList.filterMap Call.distance?).sum)) ∧
    (r.setup = u ∧ ∀ x, x ≠ .fuelLeft → r.reading x = reading { setup := u } x) ∧
    ∀ c e r', Scripted.robot.act c r = .error e r' → r' = r := by
  have haccepts := accepts_actAll cs { setup := u }
  rw [h] at haccepts
  have hreflects := (reflects_start u).of_accepts haccepts
  refine ⟨⟨?_, hreflects.within⟩, hreflects.shield, hreflects.fuel, ⟨hreflects.setup, ?_⟩, ?_⟩
  · exact calls_of_accepts haccepts
  · intro x hx
    exact reading_congr hx hreflects.setup
  · intro c e r' hact
    exact act_eq_error hact

/-- A robot that runs out of fuel first, and then out of its budget. -/
theorem determined_by_record_when_spent :
    let u : Setup := { fuel := 4, wall := 9, budget := some 5 }
    let cs : List Call := [.shield true, .move (some 3), .move (some (-9)), .move (some 7),
      .move none, .shield false, .turnLeft]
    let answers : List (Option Halt) := [none, none, none, none, some ⟨"out of fuel"⟩, none,
      some ⟨"action budget of 5 exhausted"⟩]
    let calls : List Call := [.shield true, .move (some 3), .move (some (-9)), .move (some 7),
      .shield false]
    let r : Scripted := { setup := u, fuel := 0, calls := calls.toArray }
    Scripted.robot.actAll cs { setup := u } = (answers, r) ∧
    (r.calls.toList = Call.accepted cs answers ∧ ∀ b ∈ u.budget, r.calls.size ≤ b) ∧
    r.shield = (r.calls.toList.filterMap Call.shielding?).getLast?.getD false ∧
    r.fuel.toInt =
      (if u.fuel.toInt ≤ 0 then u.fuel.toInt
      else max 0 (u.fuel.toInt - (r.calls.toList.filterMap Call.distance?).sum)) ∧
    (r.setup = u ∧ ∀ x, x ≠ .fuelLeft → r.reading x = reading { setup := u } x) ∧
    ∀ c e r', Scripted.robot.act c r = .error e r' → r' = r := by
  intro u cs answers calls r
  have h : Scripted.robot.actAll cs { setup := u } = (answers, r) := by decide +kernel
  exact ⟨h, determined_by_record h⟩

end Scripted

end RobotControl
