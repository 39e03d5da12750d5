import RobotControl.CommandLine.Options
import RobotControl.Load
import RobotControl.Program.Printer

/-!
# What the command line answers

Every input is read as a program, printed, and on request dry-run. An input that is no program is
reported, and the others still get their turn; a file that is there but cannot be read ends the
whole run.
-/

namespace RobotControl

/-- The texts that a run of the command line writes, and its exit code. -/
structure Transcript where
  stdout : String := ""
  stderr : String := ""
  code : UInt32 := 0
deriving DecidableEq, Repr

/-- Lines of text, each with its line end. -/
def unlines (ls : List String) : String := String.join (ls.map (· ++ "\n"))

namespace Transcript

/-- The line after each input. -/
def rule : String := "================="

/-- The report on an error that ended the run, and on what was behind it. The further lines of a
text stand under its first line. -/
def chain (what : String) (causes : List String) : String :=
  let numbered := causes.zipIdx.map fun (cause, i) =>
    "    " ++ toString i ++ ": " ++ "\n       ".intercalate (cause.splitOn "\n")
  unlines (("Error: " ++ what) :: "" :: "Caused by:" :: numbered)

/-- What is shown of a program. -/
def program (o : Options) (p : Program) : String :=
  unlines ["Parsing completed", "================", "Program:"] ++ p.render ++
    (if o.run then unlines (o.dryRun.report p).lines else "")

/-- Goes through the inputs and their contents, after `out` was written and perhaps some input has
failed. -/
def inputs (o : Options) (out : String) (failed : Bool) :
    List (String × Except ReadError String) → Transcript
  | [] => { stdout := out ++ unlines ["Done"], code := if failed then 1 else 0 }
  | (input, contents) :: rest =>
    let out := out ++ unlines ["Parsing '" ++ (if o.file then input else "<inline>") ++ "'"]
    match Program.load input contents with
    | .ok p => inputs o (out ++ program o p ++ unlines [rule]) failed rest
    | .error (.parse e) =>
      inputs o (out ++ unlines ["Parser error:", e.message, rule]) true rest
    | .error (.unreadable _ .notFound) =>
      inputs o (out ++ unlines ["Can't find file '" ++ input ++ "'", rule]) true rest
    | .error (.unreadable path cause) =>
      let causes := [(LoadError.unreadable path cause).message, cause.detail]
      { stdout := out, stderr := chain ("Loading " ++ input) causes, code := 1 }

/-- The name and version of the program. -/
def version : String := "robolang 0.1.0"

/-- How to call the program. -/
def usage : String := "Usage: robolang [OPTIONS] <CONTENTS>..."

/-- The description of the options. -/
def help : List String :=
  ["Reads robot-control programs and prints them back, optionally dry-running them", "", usage, "",
    "Arguments:",
    "  <CONTENTS>...  Program sources, or file paths with --file", "",
    "Options:",
    "  -f, --file               Every input is the path of a program file",
    "  -r, --run                Dry-run each program against a scripted robot",
    "      --max-actions <N>    Number of actions the robot accepts [default: 100]",
    "      --fuel <N>           Fuel of the robot at the start [default: 100]",
    "      --wall <N>           Distance of the robot to the wall [default: 10]",
    "  -h, --help               Print help",
    "  -V, --version            Print version"]

/-- The answer to a command line that is not carried out. -/
def exit : Exit → Transcript
  | .version => { stdout := unlines [version] }
  | .help => { stdout := unlines help }
  | .usage e => { stderr := unlines ["error: " ++ e.message, "", usage], code := 2 }

/-- The answer to a command line, where `readFile` reads a file. -/
def answer {m : Type → Type} [Monad m] (readFile : String → m (Except ReadError String))
    (args : List String) : m Transcript := do
  match Options.read args with
  | .error e => return exit e
  | .ok o =>
    let contents ← o.inputs.mapM fun input => do
      if o.file then return (input, ← readFile input) else return (input, .ok input)
    return inputs o "" false contents

/-- The answer to a command line in a directory with these files. -/
def answerIn (files : FileTree) (args : List String) : Transcript :=
  Id.run (answer (fun path => pure (files.read path)) args)

theorem answerIn_of_read {files : FileTree} {args : List String} {o : Options}
    (h : Options.read args = .ok o) :
    answerIn files args = inputs o "" false
      (o.inputs.map fun input => (input, if o.file then files.read input else .ok input)) := by
  unfold answerIn answer
  rw [h]
  show inputs o "" false (Id.run (o.inputs.mapM _)) = _
  rw [List.idRun_mapM]
  refine congrArg (inputs o "" false) (List.map_congr_left fun input _ => ?_)
  split <;> rfl

/-- No file counts but those that the command line names as inputs. -/
theorem answerIn_congr {files files' : FileTree} {args : List String}
    (h : ∀ o, Options.read args = .ok o → o.file = true →
      ∀ input ∈ o.inputs, files.read input = files'.read input) :
    answerIn files args = answerIn files' args := by
  cases hread : Options.read args with
  | error e =>
    unfold answerIn answer
    rw [hread]
  | ok o =>
    rw [answerIn_of_read hread, answerIn_of_read hread]
    refine congrArg (inputs o "" false) (List.map_congr_left fun input hinput => ?_)
    split
    next hfile => rw [h o hread hfile input hinput]
    next => rfl

end Transcript

end RobotControl
