import RobotControl.Exec
import RobotControl.FileTree
import RobotControl.Program.Parser

/-!
# From source texts to programs and runs

* `Program.load`: the program in a file, whatever gave the contents of the file;
* `Program.parseFile`: the program in a file of a tree;
* `runSource`: reads a source text and runs it.
-/

namespace RobotControl

/-- Why there is no program in a file. -/
inductive LoadError where
  | unreadable (path : String) (cause : ReadError)
  | parse (e : ParseError)
deriving DecidableEq, Repr

/-- The wording of a load error. -/
def LoadError.message : LoadError → String
  | .unreadable path _ => "Failed to read robot program '" ++ path ++ "'"
  | .parse e => e.message

/-- The program in the file at `path`, given what reading the file gave. -/
def Program.load (path : String) (contents : Except ReadError String) :
    Except LoadError Program :=
  match contents with
  | .error cause => .error (.unreadable path cause)
  | .ok source => (Program.parse source).mapError .parse

/-- The program in the file that `path` leads to. -/
def Program.parseFile (files : FileTree) (path : String) : Except LoadError Program :=
  Program.load path (files.read path)

/-- A program that is loaded is spelled by the text of a file in the tree. -/
theorem Program.exists_file_of_parseFile {files : FileTree} {path : String} {p : Program}
    (h : Program.parseFile files path = .ok p) :
    ∃ q bytes source, files.entry? q = some (.file bytes) ∧ decodeText bytes = .ok source ∧
      Program.parse source = .ok p := by
  unfold Program.parseFile Program.load at h
  split at h
  next => cases h
  next source hread =>
    obtain ⟨q, bytes, hentry, hdecode⟩ := FileTree.exists_file_of_read hread
    refine ⟨q, bytes, source, hentry, hdecode, ?_⟩
    cases hparse : Program.parse source with
    | ok p' =>
      rw [hparse] at h
      cases h
      rfl
    | error e =>
      rw [hparse] at h
      cases h

/-- Why a source text was not run to its end. -/
inductive RunError where
  | parse (e : ParseError)
  | stopped (s : Stop)
deriving DecidableEq, Repr

/-- The wording of a run error. -/
def RunError.message : RunError → String
  | .parse e => e.message
  | .stopped (.fault f) => f.message
  | .stopped .unfinished => "Run did not finish"

/-- Reads a source text and runs the program. No loop goes on for more than the given rounds. -/
def runSource {σ : Type} (R : Robot σ) (log : Log σ) (rounds : Nat) (source : String) :
    EStateM RunError σ Unit :=
  match Program.parse source with
  | .ok p => (p.exec R log rounds).adaptExcept .stopped
  | .error e => throw (.parse e)

/-- The notes made while a source text is read. -/
def Program.parseNotes (source : String) : List Note :=
  (Parser.entered Parser.program (tokenize source)).map .reading

end RobotControl
