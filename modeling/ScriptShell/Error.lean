import ScriptShell.Position
import ScriptShell.SyntaxError

/-!
# ScriptShell.Error

What goes wrong with a program text, as it is reported. A failure of evaluation carries the chain
of calls that were active, the outermost first, unless it did not arise in a program.

* `Error`: the kinds of failure.
* `Error.message`: a failure in one line.
* `report`: a failure as it is shown to the user, with the calls that led to it.
* `SyntaxError.inFile`: a text that is not accepted, as a failure.
-/

namespace ScriptShell

/-- An active call: the function, and the place it has come to. -/
structure Frame where
  location : Location
  function : String
  deriving DecidableEq, Repr

/-- A failure. -/
inductive Error where
  /-- A text is not accepted. -/
  | parse (location : Location) (text : String)
  /-- Evaluation failed. -/
  | eval (text : String) (stack : Option (List Frame))
  /-- A module asks for itself, maybe through others. -/
  | cycle (module : String)
  /-- The text of a module cannot be read. -/
  | load (module : String) (reason : String)
  /-- Evaluation was stopped from outside. -/
  | cancelled
  deriving DecidableEq, Repr

namespace Error

/-- A failure in one line. -/
def message : Error → String
  | .parse location text => location.text ++ ": " ++ text
  | .eval text _ => text
  | .cycle module => "cycle in load graph - " ++ module
  | .load module reason => "cannot load " ++ module ++ " - " ++ reason
  | .cancelled => "evaluation cancelled"

/-- The active calls that a failure carries. -/
def frames : Error → List Frame
  | .eval _ (some stack) => stack
  | _ => []

end Error

/-- A line of a traceback. -/
def Frame.line (f : Frame) : String :=
  "  " ++ f.location.text ++ ": in " ++ f.function ++ "\n"

/-- What is shown of a failure: its message, below the active calls if it carries any. Where there
is no failure nothing is shown. -/
def report : Option Error → Option String
  | none => none
  | some e =>
    match e.frames with
    | [] => some e.message
    | fs =>
      some ("Traceback (most recent call last):\n" ++ String.join (fs.map Frame.line) ++
        "Error: " ++ e.message)

/-- What is written of a failure: a report is a line of its own. -/
def reportLine (e : Option Error) : String :=
  match report e with
  | none => ""
  | some text => text ++ "\n"

/-- The failure of a text of the given name that is not accepted. -/
def SyntaxError.inFile (file : String) (e : SyntaxError) : Error :=
  .parse ⟨file, e.pos⟩ e.fault.message

end ScriptShell
