import RobotControl.Stepper

/-!
# Dry runs

A dry run steps a program against a scripted robot, until the program finishes, fails, or stalls: it
stalls when it is idle in more steps on end than the robot accepts actions. Every action uses up
budget, and between two actions only so many steps are idle, so that `DryRun.maxSteps` steps always
suffice.
-/

namespace RobotControl

/-- The scripted robot of a dry run: its fuel, its distance to the wall, and how many actions it
accepts. -/
structure DryRun where
  fuel : Int64 := 100
  wall : Int64 := 10
  maxActions : Nat := 100
deriving DecidableEq, Repr

/-- How a dry run ended. -/
inductive Verdict where
  | finished
  | stalled
  | halted (f : Fault)
deriving DecidableEq, Repr

/-- The actions of a dry run, how many they were, and the verdict, if there is one. -/
structure Report where
  done : Array Action
  actions : Nat
  verdict? : Option Verdict
deriving DecidableEq, Repr

namespace DryRun

/-- The robot at the start. -/
def robot (d : DryRun) : Scripted :=
  { setup := { fuel := d.fuel, wall := d.wall, budget := some d.maxActions } }

/-- As many steps as a dry run can take. -/
def maxSteps (d : DryRun) : Nat := (d.maxActions + 1) * (d.maxActions + 1)

/-- Goes on with a dry run for at most the given number of steps, when the last `idle` steps were
idle and the actions in `done` came before. -/
def follow (d : DryRun) : (steps idle : Nat) → Array Action → Stepper → Scripted → Report
  | 0, _, done, m, _ => ⟨done, m.actions, none⟩
  | n + 1, idle, done, m, r =>
    match m.step Scripted.robot .off r with
    | ((.acted a, m'), r') => d.follow n 0 (done.push a) m' r'
    | ((.idle, m'), r') =>
      if d.maxActions < idle + 1 then ⟨done, m'.actions, some .stalled⟩
      else d.follow n (idle + 1) done m' r'
    | ((.finished, m'), _) => ⟨done, m'.actions, some .finished⟩
    | ((.failed f, m'), _) => ⟨done, m'.actions, some (.halted f)⟩

/-- A dry run of a program from its start. -/
def report (d : DryRun) (p : Program) : Report :=
  d.follow d.maxSteps 0 #[] (Stepper.start p) d.robot

end DryRun

/-- The wording of a verdict after so many actions. -/
def Verdict.text (actions : Nat) : Verdict → String
  | .finished => "Program finished after " ++ toString actions ++ " actions"
  | .stalled => "Program stalled after " ++ toString actions ++ " actions"
  | .halted f => "Program halted after " ++ toString actions ++ " actions: " ++ f.message

/-- A report as lines: the actions one by one, then the verdict. -/
def Report.lines (r : Report) : List String :=
  "Running:" :: r.done.toList.map (fun a => "    " ++ a.render) ++
    (r.verdict?.map (Verdict.text r.actions)).toList

end RobotControl
