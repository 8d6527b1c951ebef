import ScriptShell.Session

/-!
# ScriptShell.CommandLine

The command line. With a file the program executes it; with a command it evaluates that; with
neither it drives a session over the standard input. Then it shows the bindings that were left, if
it is asked to and nothing failed.

* `Options`: what the arguments ask for. `Request.ofArgs` reads them.
* `Outcome`: the exit code and what is written.
* `CommandLine.run`: what the program does.
-/

namespace ScriptShell

/-- The options that take a value. -/
inductive ValueOption where
  | command | prompt | continuation
  deriving DecidableEq, Repr

/-- What the arguments ask for. -/
structure Options where
  file : Option String
  command : Option String
  showEnv : Bool
  prompt : Option String
  continuation : Option String
  deriving DecidableEq, Repr

namespace Options

/-- No arguments. -/
def none : Options := ⟨.none, .none, false, .none, .none⟩

/-- Give an option its value; it must not have one. -/
def set? (o : Options) (name : ValueOption) (value : String) : Option Options :=
  match name with
  | .command => if o.command.isSome then .none else some { o with command := some value }
  | .prompt => if o.prompt.isSome then .none else some { o with prompt := some value }
  | .continuation =>
    if o.continuation.isSome then .none else some { o with continuation := some value }

/-- Name the file; it must not be named yet. -/
def setFile? (o : Options) (file : String) : Option Options :=
  if o.file.isSome then .none else some { o with file := some file }

/-- Ask for the bindings; they must not be asked for yet. -/
def setShowEnv? (o : Options) : Option Options :=
  if o.showEnv then .none else some { o with showEnv := true }

/-- How a session presents itself under the options. -/
def config (o : Options) : Config :=
  { Config.usual with
    prompt := o.prompt.getD Config.usual.prompt
    continuation := o.continuation.getD Config.usual.continuation }

end Options

/-- What the program is asked to do. -/
inductive Request where
  | help
  | version
  /-- The arguments are not understood. -/
  | misuse
  | act (o : Options)
  deriving DecidableEq, Repr

/-- What one argument says by itself. -/
inductive Argument where
  | positional (value : String)
  /-- What follows is positional. -/
  | endOfOptions
  | showEnv
  | help
  | version
  /-- An option, with its value if that is in the same argument. -/
  | valued (name : ValueOption) (value : Option String)
  | unknown
  deriving DecidableEq, Repr

namespace Argument

/-- An option in long form: its name, and its value if there is an equals sign. -/
def ofLong (name : String) (value : Option String) : Argument :=
  if name = "command" then .valued .command value
  else if name = "prompt" then .valued .prompt value
  else if name = "continuation" then .valued .continuation value
  else if value.isSome then .unknown
  else if name = "showenv" then .showEnv
  else if name = "help" then .help
  else if name = "version" then .version
  else .unknown

/-- An option in short form: its letter, and what follows in the argument. -/
def ofShort (letter : Char) (rest : List Char) : Argument :=
  if letter = 'c' then
    match rest with
    | [] => .valued .command none
    | '=' :: value => .valued .command (some (String.ofList value))
    | value => .valued .command (some (String.ofList value))
  else if letter = 'h' then .help
  else if letter = 'V' then .version
  else .unknown

/-- What an argument says before the end of the options. A single dash is positional. -/
def ofString (arg : String) : Argument :=
  match arg.toList with
  | ['-', '-'] => .endOfOptions
  | '-' :: '-' :: long =>
    let name := String.ofList (long.takeWhile (· ≠ '='))
    match long.dropWhile (· ≠ '=') with
    | [] => ofLong name none
    | _ :: value => ofLong name (some (String.ofList value))
  | '-' :: letter :: rest => ofShort letter rest
  | _ => .positional arg

end Argument

namespace Request

/-- Read arguments behind the end of the options. -/
def ofPositionals (o : Options) : List String → Request
  | [] => .act o
  | arg :: args =>
    match o.setFile? arg with
    | some o => ofPositionals o args
    | none => .misuse

/-- Read arguments. The value of an option may be the next argument unless that looks like an
option; asking for help or for the version is answered at once. -/
def ofArgsWith (o : Options) : List String → Request
  | [] => .act o
  | arg :: args =>
    match Argument.ofString arg with
    | .positional value =>
      match o.setFile? value with
      | some o => ofArgsWith o args
      | none => .misuse
    | .endOfOptions => ofPositionals o args
    | .showEnv =>
      match o.setShowEnv? with
      | some o => ofArgsWith o args
      | none => .misuse
    | .help => .help
    | .version => .version
    | .valued name (some value) =>
      match o.set? name value with
      | some o => ofArgsWith o args
      | none => .misuse
    | .valued name none =>
      match args with
      | [] => .misuse
      | next :: args =>
        match Argument.ofString next, o.set? name next with
        | .positional _, some o => ofArgsWith o args
        | _, _ => .misuse
    | .unknown => .misuse

/-- Read the arguments of the program. -/
def ofArgs (args : List String) : Request :=
  ofArgsWith .none args

end Request

/-- The exit code and what is written. -/
structure Outcome where
  code : Nat
  out : String
  err : String
  deriving DecidableEq, Repr

namespace CommandLine

/-- What `--version` shows. -/
def versionText : String := "sprigctl 0.1.0\n"

/-- How the arguments are to be given. -/
def usageText : String := "Usage: sprigctl [OPTIONS] [FILE]\n"

/-- What `--help` shows. -/
def helpText : String :=
  usageText ++
  "\nArguments:\n" ++
  "  [FILE]  Execute FILE instead of starting the REPL\n" ++
  "\nOptions:\n" ++
  "  -c, --command <COMMAND>      If present, COMMAND is evaluated and program exits\n" ++
  "      --showenv                Print the final global environment to stderr\n" ++
  "      --prompt <PROMPT>        Primary prompt\n" ++
  "      --continuation <PROMPT>  Prompt while a block is being typed\n" ++
  "  -h, --help                   Print help\n" ++
  "  -V, --version                Print version\n"

/-- The bindings whose names do not begin with an underscore, one in a line. -/
def showBindings (g : Globals Value) : String :=
  let shown := g.toList.filter (fun b => b.1.toList.head? ≠ some '_')
  String.join (shown.map (fun b => b.1 ++ " = " ++ b.2.repr ++ "\n"))

/-- What is written of the bindings under the options. -/
def bindingsText (o : Options) (g : Globals Value) : String :=
  if o.showEnv then showBindings g else ""

/-- A reading failure that ends the program, with its cause. -/
def readFailureText (e : ReadError) : String :=
  match e with
  | .io reason => "Error: " ++ e.message ++ "\n\nCaused by:\n    " ++ reason ++ "\n"
  | e => "Error: " ++ e.message ++ "\n"

/-- A module is executed. -/
def afterFile (o : Options) (r : Except Error (Globals Value)) : Outcome :=
  match r with
  | .ok g => ⟨0, "", bindingsText o g⟩
  | .error e => ⟨1, "", reportLine (some e)⟩

/-- A command is evaluated. -/
def afterCommand (o : Options) (r : Except Error Unit) (s : Session) : Outcome :=
  match r with
  | .ok () => ⟨0, s.out.text, s.err.text ++ bindingsText o s.globals⟩
  | .error e => ⟨1, s.out.text, s.err.text ++ reportLine (some e)⟩

/-- A session is over. -/
def afterSession (o : Options) (r : Except ReadError Unit) (s : Session) : Outcome :=
  match r with
  | .ok () => ⟨0, s.out.text, s.err.text ++ bindingsText o s.globals⟩
  | .error e => ⟨1, s.out.text, s.err.text ++ readFailureText e⟩

/-- Execute a file. -/
def runFile (fuel : Nat) (library : Library) (o : Options) (file : String) : Option Outcome :=
  match ScriptShell.runFile ⟨library, true, none⟩ fuel file .empty with
  | .ok g _ => some (afterFile o (.ok g))
  | .error (.failed e) _ => some (afterFile o (.error e))
  | .error .outOfFuel _ => none

/-- The lines of the standard input, as a session reads them. -/
def inputOf (stdin : List UInt8) : Input :=
  .ofItems ((readLines stdin).map (fun answer => ⟨answer, false⟩))

/-- Do what the options ask for. -/
def act (fuel : Nat) (library : Library) (stdin : List UInt8) (o : Options) : Option Outcome :=
  let session := Session.start o.config library
  match o.file, o.command with
  | some file, _ => runFile fuel library o file
  | none, some text =>
    (session.evalText fuel text).map (fun (r, s) => afterCommand o r s)
  | none, none =>
    (session.run fuel (inputOf stdin)).map (fun (r, s, _) => afterSession o r s)

/-- What the program does with its arguments, the modules it can read and its standard input. The
answer is `none` if the allowance of steps is used up. -/
def run (fuel : Nat) (library : Library) (stdin : List UInt8) (args : List String) :
    Option Outcome :=
  match Request.ofArgs args with
  | .help => some ⟨0, helpText, ""⟩
  | .version => some ⟨0, versionText, ""⟩
  | .misuse => some ⟨2, "", usageText⟩
  | .act o => act fuel library stdin o

end CommandLine
end ScriptShell
