import ScriptShell.CommandLine

/-!
# ScriptShell.Main

The program: it reads the standard input and the files of the modules that are asked for, and writes
what the evaluation makes of them. An evaluation takes the texts of its modules from those that have
been read so far. If it asked for others they are read, and the evaluation is made again from the
state it began in; an evaluation ends at the first module it cannot have, so this loses nothing.
-/

namespace ScriptShell

/-- The modules that have been read, or could not be. -/
abbrev Answers := Table (Except ReadFault String)

/-- Why the operating system could not read a file; its code may come with a minus sign. -/
def faultOf : IO.Error → ReadFault
  | .noFileOrDirectory .. => .noSuchFile
  | .inappropriateType _ code details | .invalidArgument _ code details
  | .permissionDenied _ code details =>
    let code := if code < 0x80000000 then code else 0 - code
    if code = 20 then .notDirectory
    else if code = 21 then .isDirectory
    else if code = 36 then .nameTooLong
    else .other (details ++ " (os error " ++ toString code ++ ")")
  | e => .other (toString e)

/-- Read the file of a module. -/
def readModule (module : String) : IO (Except ReadFault String) := do
  try
    let path := if module.toList.head? = some '/' then module else "./" ++ module
    let bytes ← IO.FS.readBinFile path
    match String.fromUTF8? bytes with
    | some text => pure (.ok text)
    | none => pure (.error .notText)
  catch e => pure (.error (faultOf e))

/-- Evaluate, and read modules, until every module that is asked for has been read. The evaluation
answers with the modules it asked for. -/
partial def withModules {α : Type} (known : Answers) (x : Library → α × List String) :
    IO (α × Answers) := do
  let (a, asked) := x (.ofAnswers known)
  match asked.filter (fun m => !known.contains m) with
  | [] => pure (a, known)
  | ms =>
    let mut known := known
    for m in ms do
      known := known.insert m (← readModule m)
    withModules known x

/-- Write what was written to the outputs of a session, and empty them. -/
def flushOutputs (s : Session) : IO Session := do
  (← IO.getStdout).putStr s.out.text
  (← IO.getStdout).flush
  (← IO.getStderr).putStr s.err.text
  pure { s with out := .empty false, err := .empty false }

/-- Write an outcome and hand back its exit code. -/
def writeOutcome (o : Outcome) : IO UInt32 := do
  (← IO.getStdout).putStr o.out
  (← IO.getStdout).flush
  (← IO.getStderr).putStr o.err
  pure o.code.toUInt32

/-- Read the standard input to its end. -/
partial def readInput (stream : IO.FS.Stream) (read : ByteArray) : IO ByteArray := do
  let chunk ← stream.read 65536
  if chunk.isEmpty then pure read else readInput stream (read ++ chunk)

/-- Take turns until the session is over. -/
partial def interact (o : Options) (known : Answers) (s : Session) (i : Input) : IO UInt32 := do
  let take : Library → Option Session.Turn × List String := fun library =>
    let turn := { s with library := library }.turn ampleFuel i
    match turn with
    | some (.again s _) | some (.over _ s _) => (turn, s.world.cache.names)
    | none => (none, [])
  let (turn, known) ← withModules known take
  match turn with
  | some (.again s i) => interact o known (← flushOutputs s) i
  | some (.over r s _) => writeOutcome (CommandLine.afterSession o r s)
  | none => pure 1

/-- Do what the options ask for. -/
def perform (o : Options) : IO UInt32 := do
  match o.file, o.command with
  | some file, _ =>
    let (outcome, _) ← withModules .empty fun library =>
      match execFile ⟨library, true, none⟩ ampleFuel file file .empty with
      | .ok g w => (some (CommandLine.afterFile o (.ok g)), file :: w.cache.names)
      | .error (.failed e) w =>
        (some (CommandLine.afterFile o (.error e)), file :: w.cache.names)
      | .error .outOfFuel _ => (none, [])
    match outcome with
    | some outcome => writeOutcome outcome
    | none => pure 1
  | none, some text =>
    let (outcome, _) ← withModules .empty fun library =>
      match (Session.start o.config library).evalText ampleFuel text with
      | some (r, s) => (some (CommandLine.afterCommand o r s), s.world.cache.names)
      | none => (none, [])
    match outcome with
    | some outcome => writeOutcome outcome
    | none => pure 1
  | none, none =>
    let stdin ← readInput (← IO.getStdin) .empty
    interact o .empty (Session.start o.config .empty) (CommandLine.inputOf stdin.toList)

end ScriptShell

/-- The program. -/
def main (args : List String) : IO UInt32 :=
  match ScriptShell.Request.ofArgs args with
  | .act o => ScriptShell.perform o
  | .help => ScriptShell.writeOutcome ⟨0, ScriptShell.CommandLine.helpText, ""⟩
  | .version => ScriptShell.writeOutcome ⟨0, ScriptShell.CommandLine.versionText, ""⟩
  | .misuse => ScriptShell.writeOutcome ⟨2, "", ScriptShell.CommandLine.usageText⟩
