import RobotControl.DryRun
import RobotControl.Literal

/-!
# Command-line options

Arguments are read from left to right. Flags and options may stand before, between and after the
inputs, each at most once; after `--` everything is an input. Reading ends at the first mistake, and
at a request for the version or for help.

* `Options`: what a valid command line says;
* `Options.read`: the options of a list of arguments.
-/

namespace RobotControl

/-- What a command line says. An option that is not given is absent. -/
structure Options where
  file : Bool := false
  run : Bool := false
  maxActions : Option Nat := none
  fuel : Option Int64 := none
  wall : Option Int64 := none
  inputs : List String := []
deriving DecidableEq, Repr

/-- What is wrong with a command line. -/
inductive UsageError where
  | unknown (arg : String)
  | repeated (name : String)
  | unexpectedValue (name : String)
  | missingValue (name : String)
  | invalidValue (name value : String)
  | noInput
deriving DecidableEq, Repr

/-- The wording of a usage error. -/
def UsageError.message : UsageError → String
  | .unknown arg => "unexpected argument '" ++ arg ++ "' found"
  | .repeated name => "the argument '" ++ name ++ "' cannot be used multiple times"
  | .unexpectedValue name => "unexpected value for '" ++ name ++ "' found; no more were expected"
  | .missingValue name => "a value is required for '" ++ name ++ "' but none was supplied"
  | .invalidValue name value => "invalid value '" ++ value ++ "' for '" ++ name ++ "'"
  | .noInput => "the following required arguments were not provided: <CONTENTS>..."

/-- Why reading the arguments ended early. -/
inductive Exit where
  | usage (e : UsageError)
  | version
  | help
deriving DecidableEq, Repr

namespace Options

/-- The unsigned 64-bit number that `w` spells: digits, with an optional plus sign. -/
def natural? (w : String) : Option Nat :=
  let ds := match w.toList with
    | '+' :: ds => ds
    | ds => ds
  let n := Nat.ofDigitChars 10 ds 0
  if Literal.isDigits ds ∧ n < UInt64.size then some n else none

/-- The 64-bit integer that `w` spells: digits, with an optional plus or minus sign. -/
def integer? (w : String) : Option Int64 :=
  match w.toList with
  | '+' :: ds => if Literal.isDigits ds then fit? (Nat.ofDigitChars 10 ds 0) else none
  | _ => Literal.read? w

/-- Sets a field that is still absent. -/
def setOnce {α : Type} (name value : String) (old new : Option α) (set : α → Options) :
    Except Exit Options :=
  match old, new with
  | some _, _ => .error (.usage (.repeated name))
  | none, none => .error (.usage (.invalidValue name value))
  | none, some a => .ok (set a)

/-- Whether a name stands for an option that takes a value. -/
def takesValue (name : String) : Bool := name ∈ ["max-actions", "fuel", "wall"]

/-- Gives an option its value. -/
def set (o : Options) (name value : String) : Except Exit Options :=
  match name with
  | "max-actions" =>
    setOnce name value o.maxActions (natural? value) fun n => { o with maxActions := some n }
  | "fuel" => setOnce name value o.fuel (integer? value) fun v => { o with fuel := some v }
  | "wall" => setOnce name value o.wall (integer? value) fun v => { o with wall := some v }
  | _ => .error (.usage (.unknown name))

/-- Raises a flag. -/
def flag (o : Options) (name : String) : Except Exit Options :=
  match name with
  | "file" => if o.file then .error (.usage (.repeated name)) else .ok { o with file := true }
  | "run" => if o.run then .error (.usage (.repeated name)) else .ok { o with run := true }
  | "version" => .error .version
  | "help" => .error .help
  | _ => .error (.usage (.unknown name))

/-- The long name of a one-letter flag. -/
def longName (c : Char) : String :=
  match c with
  | 'f' => "file"
  | 'r' => "run"
  | 'V' => "version"
  | 'h' => "help"
  | _ => "-" ++ c.toString

/-- Raises one-letter flags one after the other. -/
def flags (o : Options) (letters : List Char) : Except Exit Options :=
  letters.foldlM (fun o c => o.flag (longName c)) o

/-- A long option that brings its value along after an equals sign. -/
def assign (o : Options) (name value : String) : Except Exit Options :=
  if takesValue name then o.set name value
  else if name ∈ ["file", "run", "version", "help"] then .error (.usage (.unexpectedValue name))
  else .error (.usage (.unknown name))

/-- Adds an input. -/
def addInput (o : Options) (input : String) : Options := { o with inputs := o.inputs ++ [input] }

/-- The options at the end of the arguments: there has to be an input. -/
def finish (o : Options) : Except Exit Options :=
  if o.inputs = [] then .error (.usage .noInput) else .ok o

/-- Reads the arguments that are left. The value of an option follows as the next argument, unless
it comes after an equals sign. -/
def readFrom (o : Options) : List String → Except Exit Options
  | [] => o.finish
  | arg :: rest =>
    match arg.toList with
    | ['-', '-'] => (rest.foldl addInput o).finish
    | '-' :: '-' :: cs =>
      let name := String.ofList (cs.takeWhile (· ≠ '='))
      match cs.dropWhile (· ≠ '=') with
      | _ :: value => do (← o.assign name (String.ofList value)).readFrom rest
      | [] =>
        if takesValue name then
          match rest with
          | [] => .error (.usage (.missingValue name))
          | value :: rest =>
            if value.startsWith "-" then .error (.usage (.missingValue name))
            else do (← o.set name value).readFrom rest
        else do (← o.flag name).readFrom rest
    | '-' :: c :: cs => do (← o.flags (c :: cs)).readFrom rest
    | _ => (o.addInput arg).readFrom rest

/-- The options of a list of arguments. -/
def read (args : List String) : Except Exit Options := readFrom {} args

/-- The dry run that the options describe. -/
def dryRun (o : Options) : DryRun where
  fuel := o.fuel.getD ({} : DryRun).fuel
  wall := o.wall.getD ({} : DryRun).wall
  maxActions := o.maxActions.getD ({} : DryRun).maxActions

end Options

end RobotControl
