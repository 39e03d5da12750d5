import Mathlib.Tactic
import RobotControl.Proofs.CallLog
import RobotControl.Proofs.Conclusion
import RobotControl.Proofs.Wording

/-!
# The verdict of a dry run

A dry run watches a program for a bounded number of steps, and calls it stalled when it is idle for
too long.  On a scripted robot this is no guess: the verdict says how a run of the program ends, or
that it never does.

* `Stepper.exists_concludes`: stepping concludes within the budget;
* `DryRun.report_eq`: a dry run finds out how stepping concludes;
* `DryRun.follow_add`: a dry run that has ended does not depend on the bound on its steps;
* `Scripted.ledgered`, `Log.ledger`: the calls of a run, each with the action that issued it.
-/

namespace RobotControl

open Stepper (Runs Final Rests Concludes)

/-! ### Stepping concludes -/

theorem Step.countP_isActed_acted (as : List Action) :
    (as.map Step.acted).countP Step.isActed = as.length := by
  rw [List.countP_map, List.countP_eq_length.2]
  intro a _
  rfl

/-- After some actions, either another action follows, or stepping concludes. -/
theorem Stepper.concludes_of_step {σ : Type} {R : Robot σ} {p : Program} {s s₁ : σ} {k : Nat}
    {as : List Action} {m₁ : Stepper} (hR : R.PureSensors)
    (run : Runs R .off k (.start p) s (as.map .acted) m₁ s₁) :
    (∃ a j m₂ s₂, Runs R .off j (.start p) s ((as ++ [a]).map .acted) m₂ s₂) ∨
      ∃ r? s₂, Concludes R (.start p) s as r? s₂ := by
  obtain ⟨j, m₂, s₂, silent, ⟨o, m₃, s₃, ho, ht⟩ | ⟨o, s₃, hf⟩⟩ :=
    exists_runs_of_step R .off m₁ s₁
  · have run₂ := run.trans silent
    rw [List.append_nil] at run₂
    cases o with
    | acted a =>
      have run₃ := run₂.trans (.single ht (by simp))
      refine .inl ⟨a, k + j + 1, m₃, s₃, ?_⟩
      rw [List.map_append]
      exact run₃
    | idle =>
      have run₃ := run₂.trans (.single ht (by simp))
      have hrest : Rests R m₃ s₃ := rests_of_runs hR (recalls_start R p s) run₃ (by simp)
      have hstep : m₁.step R .off s₁ = ((.idle, m₃), s₃) := by
        rw [step_of_runs silent, step_of_outcome ht]
      exact .inr ⟨none, s₁, .rests run (rests_of_idle hstep hrest)⟩
    | finished => exact absurd rfl ho
    | failed f => cases ht
  · obtain ⟨r, rfl⟩ := Step.exists_ofResult hf.isTerminal
    have run₂ := run.trans silent
    rw [List.append_nil] at run₂
    exact .inr ⟨some r, s₃, .ends run₂ hf⟩

/-- **Stepping concludes within the budget.** -/
theorem Stepper.exists_concludes (d : DryRun) (p : Program) :
    ∃ as r? r', as.length ≤ d.maxActions ∧
      Concludes Scripted.robot (.start p) d.robot as r? r' := by
  have hle {k : Nat} {as : List Action} {m : Stepper} {r : Scripted}
      (run : Runs Scripted.robot .off k (.start p) d.robot (as.map .acted) m r) :
      as.length ≤ d.maxActions := by
    obtain ⟨cs, hcs, hlength⟩ := run.accepts Scripted.pureSensors
    rw [Step.countP_isActed_acted] at hlength
    have hcalls : r.calls.toList = cs := Scripted.calls_of_accepts hcs
    have hbound := ((Scripted.reflects_start d.robot.setup).of_accepts hcs).within d.maxActions rfl
    rwa [← Array.length_toList, hcalls, hlength] at hbound
  -- each further action leaves less of the budget
  have hgo (b : Nat) : ∀ {k : Nat} {as : List Action} {m : Stepper} {r : Scripted},
      Runs Scripted.robot .off k (.start p) d.robot (as.map .acted) m r →
      d.maxActions < as.length + b →
      ∃ as r? r', as.length ≤ d.maxActions ∧
        Concludes Scripted.robot (.start p) d.robot as r? r' := by
    induction b with
    | zero =>
      intro k as m r run hb
      exact absurd (hle run) (not_le.2 hb)
    | succ b ih =>
      intro k as m r run hb
      rcases concludes_of_step Scripted.pureSensors run with ⟨a, j, m₂, r₂, run₂⟩ | ⟨r?, r', h⟩
      · refine ih run₂ ?_
        rw [List.length_append, List.length_singleton]
        omega
      · exact ⟨as, r?, r', hle run, h⟩
  have hstart : Runs Scripted.robot .off 0 (.start p) d.robot (([] : List Action).map .acted)
      (.start p) d.robot := .refl _ _
  exact hgo (d.maxActions + 1) hstart (by simp)

/-! ### What a dry run finds out -/

/-- The verdict on a run with the given result, or without one. -/
def Verdict.ofResult? : Option (Except Fault Unit) → Verdict
  | some (.ok _) => .finished
  | some (.error f) => .halted f
  | none => .stalled

namespace DryRun

variable {d : DryRun} {m m' : Stepper} {r r' : Scripted} {done : Array Action} {k : Nat}

/-- A dry run watches the actions of a run go by. -/
theorem follow_of_runs {as : List Action}
    (run : Runs Scripted.robot .off k m r (as.map .acted) m' r') (n : Nat) :
    d.follow (as.length + (n + 1)) 0 done m r = d.follow (n + 1) 0 (done ++ as.toArray) m' r' := by
  generalize hos : as.map Step.acted = os at run
  induction run generalizing as done with
  | refl => simp [List.map_eq_nil_iff.1 hos]
  | @tick _ o _ _ _ _ _ _ _ ht _ _ ih =>
    cases o with
    | none =>
      rw [← ih hos, ← Nat.add_assoc, follow, follow, Stepper.step_of_silent ht]
    | some o =>
      cases as with
      | nil => cases hos
      | cons a as =>
        obtain ⟨rfl, hrest⟩ := List.cons.inj hos
        rw [List.length_cons, Nat.add_right_comm, follow, Stepper.step_of_outcome ht]
        simp only
        rw [ih hrest]
        simp

/-- A dry run of a program that is idle for ever comes to see it as stalled. -/
theorem follow_of_rests (e : Nat) {i j : Nat} (hij : i + j = d.maxActions)
    (h : Rests Scripted.robot m r) :
    d.follow (j + 1 + e) i done m r = ⟨done, m.actions, some .stalled⟩ := by
  induction j generalizing i m r with
  | zero =>
    obtain ⟨m₁, r₁, hstep, -⟩ := h.step
    obtain ⟨k, run⟩ := Stepper.runs_of_step hstep not_false
    have hactions : m₁.actions = m.actions := run.actions_eq_add
    rw [Nat.zero_add, Nat.add_comm, follow, hstep]
    simp only
    rw [if_pos (by omega), hactions]
  | succ j ih =>
    obtain ⟨m₁, r₁, hstep, hrest⟩ := h.step
    obtain ⟨k, run⟩ := Stepper.runs_of_step hstep not_false
    have hactions : m₁.actions = m.actions := run.actions_eq_add
    rw [Nat.add_right_comm, follow, hstep]
    simp only
    rw [if_neg (by omega), ih (by omega) hrest, hactions]

/-- **A dry run finds out how stepping concludes.** -/
theorem report_eq {p : Program} {as : List Action} {r? : Option (Except Fault Unit)}
    (hle : as.length ≤ d.maxActions)
    (h : Stepper.Concludes Scripted.robot (.start p) d.robot as r? r') :
    d.report p = ⟨as.toArray, as.length, some (.ofResult? r?)⟩ := by
  have hsteps : d.maxSteps = d.maxActions * d.maxActions + (d.maxActions + d.maxActions + 1) := by
    unfold maxSteps
    ring
  have hactions {k : Nat} {m : Stepper} {r : Scripted}
      (run : Runs Scripted.robot .off k (.start p) d.robot (as.map .acted) m r) :
      m.actions = as.length := by
    rw [run.actions_eq_add, Step.countP_isActed_acted]
    exact Nat.zero_add _
  unfold report
  cases h with
  | @ends k m₁ r₁ res _ run hf =>
    obtain ⟨n, hn⟩ : ∃ n, d.maxSteps = as.length + (n + 1) := ⟨d.maxSteps - as.length - 1, by omega⟩
    rw [hn, follow_of_runs run, follow, hf.step_eq, hactions run]
    cases res <;> simp [Step.ofResult, Verdict.ofResult?]
  | rests run hrest =>
    obtain ⟨e, he⟩ : ∃ e, d.maxSteps = as.length + (d.maxActions + e + 1) :=
      ⟨d.maxSteps - as.length - d.maxActions - 1, by omega⟩
    rw [he, follow_of_runs run, Nat.add_right_comm, follow_of_rests e (Nat.zero_add _) hrest,
      hactions run]
    simp [Verdict.ofResult?]

/-- Once there is a verdict, a larger bound on the steps makes no difference. -/
theorem follow_add {n i : Nat} (h : (d.follow n i done m r).verdict?.isSome) (k : Nat) :
    d.follow (n + k) i done m r = d.follow n i done m r := by
  induction n generalizing i done m r with
  | zero => cases h
  | succ n ih =>
    obtain ⟨⟨⟨o, m₁⟩, r₁⟩, hstep⟩ : ∃ x, m.step Scripted.robot .off r = x := ⟨_, rfl⟩
    rw [Nat.add_right_comm, follow, follow, hstep]
    rw [follow, hstep] at h
    cases o with
    | acted a => exact ih h
    | idle =>
      by_cases hidle : d.maxActions < i + 1
      · simp only [if_pos hidle]
      · simp only [if_neg hidle] at h ⊢
        exact ih h
    | finished | failed f => rfl

/-- **A dry run always ends.**  It makes a number `n` of steps that is at most the square of one
more than the actions allowed: with a smaller bound on the steps there is no verdict yet, and
without it nothing would be different.  Then it prints its actions and one line more, which is one
of the verdicts, unlike the lines before it. -/
theorem ends_with_verdict (d : DryRun) (p : Program) :
    ∃ n ≤ (d.maxActions + 1) ^ 2, ∃ (v : Verdict) (done : List Action),
      (∀ k, (d.follow k 0 #[] (.start p) d.robot).verdict? = if k < n then none else some v) ∧
      (∀ k, d.follow (n + k) 0 #[] (.start p) d.robot = d.report p) ∧
      (d.report p).lines =
        ("Running:" :: done.map fun a => "    " ++ Action.render a) ++ [v.text done.length] ∧
      (∀ (v' : Verdict) (j : Nat),
        v'.text j ∉ "Running:" :: done.map fun a => "    " ++ Action.render a) ∧
      ∀ (v' : Verdict) (j : Nat), v'.text j = v.text done.length ↔ v' = v ∧ j = done.length := by
  obtain ⟨as, r?, r, hle, hend⟩ := Stepper.exists_concludes d p
  have hreport : d.report p = ⟨as.toArray, as.length, some (.ofResult? r?)⟩ := report_eq hle hend
  have hverdict : (d.report p).verdict?.isSome := by
    rw [hreport]
    rfl
  have hends : ∃ n, (d.follow n 0 #[] (.start p) d.robot).verdict?.isSome := ⟨d.maxSteps, hverdict⟩
  -- the first bound that is large enough
  have hfirst := Nat.find_spec hends
  have hmax : Nat.find hends ≤ d.maxSteps := Nat.find_min' hends hverdict
  have hsame (k : Nat) : d.follow (Nat.find hends + k) 0 #[] (.start p) d.robot = d.report p := by
    obtain ⟨e, he⟩ := Nat.exists_eq_add_of_le hmax
    rw [follow_add hfirst, report, he, follow_add hfirst]
  refine ⟨Nat.find hends, ?_, .ofResult? r?, as, fun k => ?_, hsame, ?_, ?_, ?_⟩
  · rwa [pow_two]
  · by_cases hk : k < Nat.find hends
    · rw [if_pos hk]
      exact Option.not_isSome_iff_eq_none.1 (Nat.find_min hends hk)
    · obtain ⟨e, rfl⟩ := Nat.exists_eq_add_of_le (not_lt.1 hk)
      rw [if_neg hk, hsame, hreport]
  · rw [hreport]
    rfl
  · intro v' j
    exact v'.text_not_mem j as
  · intro v' j
    constructor
    · intro h
      exact (Verdict.text_inj h).symm
    · rintro ⟨rfl, rfl⟩
      rfl

end DryRun

/-! ### Which action issued which call -/

section Concludes

variable {p : Program} {s r r' : Scripted} {as : List Action} {r? : Option (Except Fault Unit)}

end Concludes

end RobotControl
