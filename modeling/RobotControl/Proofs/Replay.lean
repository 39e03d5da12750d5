import Mathlib.Tactic
import RobotControl.Proofs.CallLog
import RobotControl.Proofs.Depth
import RobotControl.Proofs.Equivalence

/-!
# Replaying a record

The record of a scripted robot is a program: each recorded call, written out with a semicolon after
it, is a statement that issues this call.  The text is read as that program, and on a robot fresh
from the same setup a run of it leads to the same state.

* `Scripted.accepts_steps`: what stepping makes of a scripted robot is the work of accepted calls;
* `Call.script`: the text of recorded calls;
* `Block.ofCalls`: the statements that issue given calls.
-/

namespace RobotControl

open Stepper (Breaks Final)

/-! ### What stepping makes of a scripted robot -/

namespace Scripted

variable {m : Stepper} {r r' : Scripted}

/-- A fault leaves a scripted robot as it is. -/
theorem state_eq_of_breaks {f : Fault} (h : Breaks Scripted.robot .off m r f r') : r' = r := by
  cases h with
  | act ha =>
    rcases pureSensors.perform_error ha with hr | ⟨c, e, hact⟩
    · exact hr
    · exact act_eq_error hact
  | ifThen hc | ifElse hc | whileLoop _ hc => exact pureSensors.eval hc

theorem state_eq_of_final {o : Step} (h : Final Scripted.robot .off m r o r') : r' = r := by
  rcases h with ⟨-, -, hr⟩ | ⟨f, -, hb⟩
  · exact hr
  · exact state_eq_of_breaks hb

/-- What steps make of a scripted robot is the work of the calls that it accepts on the way. -/
theorem accepts_steps (n : Nat) (m : Stepper) (r : Scripted) :
    ∃ cs, Scripted.robot.Accepts r cs (Stepper.steps Scripted.robot .off n m r).2.2 := by
  rcases Stepper.runs_or_endsWith Scripted.robot .off n m r with ⟨k, hrun⟩ | ⟨o, hend⟩
  · obtain ⟨cs, hcs, -⟩ := hrun.accepts pureSensors
    exact ⟨cs, hcs⟩
  · obtain ⟨k, os, m₁, r₁, hrun, hf⟩ := Stepper.endsWith_iff.1 hend
    obtain ⟨cs, hcs, -⟩ := hrun.accepts pureSensors
    rw [state_eq_of_final hf]
    exact ⟨cs, hcs⟩

end Scripted

/-! ### Calls as statements -/

namespace Call

/-- The action that issues a call: its operand is a number. -/
def action (c : Call) : Action := Id.run (Command.traverse (fun v => pure (.num v)) c)

/-- The text of recorded calls, each with a semicolon after it. -/
def script (cs : List Call) : String := String.join (cs.map fun c => c.render ++ ";")

theorem word_action (c : Call) : c.action.word = c.word := by
  rcases c with (_ | d) | _ | _ | _ | (_ | _) | _ | (_ | d) <;> rfl

theorem operand?_action (c : Call) : c.action.operand? = c.operand?.map .num := by
  rcases c with (_ | d) | _ | _ | _ | raised | _ | (_ | d) <;> rfl

theorem traverse_action {σ : Type} (R : Robot σ) (c : Call) (s : σ) :
    Command.traverse (Expr.eval R) c.action s = .ok c s := by
  rcases c with (_ | d) | _ | _ | _ | raised | _ | (_ | d) <;> rfl

/-- Calls and actions are written alike. -/
theorem render_action (c : Call) : Action.render c.action = c.render := by
  unfold Action.render Call.render Command.render
  rw [word_action, operand?_action]
  cases c.operand? <;> rfl

/-- At most one parenthesis is open in the text of a call. -/
theorem depth_action_le (c : Call) : Action.depth c.action ≤ 1 := by
  unfold Action.depth
  rw [operand?_action]
  cases c.operand? with
  | none => exact Nat.zero_le 1
  | some v => exact le_rfl

theorem perform_action {σ : Type} {R : Robot σ} {c : Call} {s s' : σ} (h : R.act c s = .ok () s') :
    Action.perform R .off c.action s = .ok () s' :=
  Action.perform_eq_ok_iff.2 ⟨c, s, c.traverse_action R s, h⟩

end Call

/-- The statements that issue the given calls. -/
def Block.ofCalls (c : Call) (cs : List Call) : Block :=
  .ofCons (.action c.action) (cs.map fun c => .action c.action)

namespace Block

theorem depth_ofCalls_le (c : Call) (cs : List Call) : (ofCalls c cs).depth ≤ 1 := by
  induction cs generalizing c with
  | nil => exact c.depth_action_le
  | cons c' cs ih => exact max_le c.depth_action_le (ih c')

/-- The text of recorded calls has the tokens of the statements that issue them. -/
theorem readsAs_script (c : Call) (cs : List Call) :
    ReadsAs (Call.script (c :: cs)) (ofCalls c cs).tokens := by
  have hcall (c : Call) : ReadsAs (c.render ++ ";") (Statement.action c.action).tokens := by
    have hend : ReadsAs (";" ++ "") [.semicolon] := .of_last (by decide) (by decide)
    rw [Statement.tokens, c.render_action]
    simpa using ReadsAs.text_append (s := c.render) hend (by decide)
  induction cs generalizing c with
  | nil =>
    have hscript : Call.script [c] = c.render ++ ";" := by simp [Call.script]
    rw [hscript]
    exact hcall c
  | cons c' cs ih =>
    rw [Call.script, List.map_cons, String.join_cons]
    exact (hcall c).append (ih c')

/-- Statements that issue calls which the robot accepts run to their end. -/
theorem exec_ofCalls {σ : Type} {R : Robot σ} {c : Call} {cs : List Call} {s s' : σ}
    (h : R.Accepts s (c :: cs) s') (rounds : Nat) :
    (ofCalls c cs).exec R .off rounds s = .ok () s' := by
  have hone {c : Call} {s s' : σ} (h : R.act c s = .ok () s') :
      (Statement.action c.action).exec R .off rounds s = .ok () s' := by
    simp [Statement.exec, EStateM.adaptExcept, Call.perform_action h]
  induction cs generalizing c s with
  | nil =>
    cases h with
    | cons hc hrest =>
      cases hrest
      exact hone hc
  | cons c' cs ih =>
    cases h with
    | cons hc hrest => exact bind_eq_ok_iff.2 ⟨(), _, hone hc, ih hrest⟩

end Block

/-- The text of recorded calls is read as the program that issues them. -/
theorem Program.parse_script (c : Call) (cs : List Call) :
    Program.parse (Call.script (c :: cs)) = .ok ⟨.ofCalls c cs⟩ := by
  have htokens : textTokens (Call.script (c :: cs)) = (Block.ofCalls c cs).tokens :=
    (Block.readsAs_script c cs).textTokens_eq
  rw [Program.parse_eq_ok_iff, ← nesting_textTokens, htokens,
    (Block.ofCalls c cs).nested_tokens.nesting_eq]
  refine ⟨.program (Block.ofCalls c cs).derives_tokens, ?_⟩
  exact (Block.depth_ofCalls_le c cs).trans (by decide)

/-- **A record can be replayed.**  After any number of steps through a program on a scripted robot
fresh from its setup, the text of the recorded calls, if there are any, is read as a program, and a
run of it on a robot fresh from the same setup returns and leaves that robot in the same state. -/
theorem Scripted.record_replays (p : Program) (u : Setup) (n : Nat) {r : Scripted}
    (h : (Stepper.steps Scripted.robot .off n (.start p) { setup := u }).2.2 = r)
    (hr : r.calls ≠ #[]) :
    ∃ p', Program.parse (String.join (r.calls.toList.map fun c => c.render ++ ";")) = .ok p' ∧
      p'.Returns Scripted.robot .off { setup := u } (.ok ()) r := by
  obtain ⟨cs, hcs⟩ := accepts_steps n (.start p) { setup := u }
  rw [h] at hcs
  have hcalls : r.calls.toList = cs := calls_of_accepts hcs
  cases cs with
  | nil => exact absurd (Array.toList_eq_nil_iff.1 hcalls) hr
  | cons c cs =>
    refine ⟨⟨.ofCalls c cs⟩, ?_, 0, Block.exec_ofCalls hcs 0⟩
    rw [hcalls]
    exact Program.parse_script c cs

/-- A run that ends when the fuel is used up, with negative operands on the way. -/
theorem Scripted.record_replays_out_of_fuel :
    let back : Action := .move (some (.binary .sub (.sensor .fuelLeft) (.num 7)))
    let rest : Action := .wait (some (.num Int64.minValue))
    let on : Action := .move (some (.num 4))
    let p : Program := ⟨.single (.loop (.cons (.action back) (.cons (.action rest)
      (.single (.action on)))))⟩
    let u : Setup := { fuel := 5 }
    let r : Scripted := { setup := u, fuel := 0, calls := #[.move (some (-2)),
      .wait (some Int64.minValue), .move (some 4), .move (some (-6)), .wait (some Int64.minValue),
      .move (some 4)] }
    Stepper.steps Scripted.robot .off 8 (.start p) { setup := u } =
        ([.acted back, .acted rest, .acted on, .acted back, .acted rest, .acted on,
          .failed (.halted ⟨"out of fuel"⟩), .finished], ⟨[], 6⟩, r) ∧
      ∃ p', Program.parse ("move(-2);wait(-9223372036854775808);move(4);" ++
          "move(-6);wait(-9223372036854775808);move(4);") = .ok p' ∧
        p'.Returns Scripted.robot .off { setup := u } (.ok ()) r := by
  intro back rest on p u r
  have h : Stepper.steps Scripted.robot .off 8 (.start p) { setup := u } =
      ([.acted back, .acted rest, .acted on, .acted back, .acted rest, .acted on,
        .failed (.halted ⟨"out of fuel"⟩), .finished], ⟨[], 6⟩, r) := by decide +kernel
  have htext : String.join (r.calls.toList.map fun c => Call.render c ++ ";") =
      "move(-2);wait(-9223372036854775808);move(4);" ++
        "move(-6);wait(-9223372036854775808);move(4);" := by decide +kernel
  refine ⟨h, ?_⟩
  rw [← htext]
  exact Scripted.record_replays p u 8 (congrArg (fun x => x.2.2) h) (by decide)

end RobotControl
