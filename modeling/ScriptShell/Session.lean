import ScriptShell.Eval
import ScriptShell.Interrupt
import ScriptShell.Lines
import ScriptShell.Text.Blank

/-!
# ScriptShell.Session

Interactive sessions. A session reads lines until they are a complete unit, evaluates the unit on
the names bound so far, and prints the value, unless it is `None`, or the failure. Only the end of
the input or a reading failure ends it. What can no longer be written is dropped.

An interrupt that waits when a unit is read is reported, like one at the prompt. For one that waits
when an evaluation begins, the watcher of the evaluation listens beside it. It may receive the
interrupt between any two polls, or behind the last one, when the value is not affected any more,
or learn first that the evaluation is complete (`Receipt`). Each evaluation of a session has its own
receipt, and any may come (`Session.schedule`). An interrupt that is sent while an evaluation is
active comes to the same as one that is sent just before it or just behind it.

Every function that evaluates takes an allowance of steps and answers `none` if it is used up.

* `Receipt`: when an interrupt that waits for an evaluation is received.
* `Session`: the state between two units.
* `Input`: the lines to come, and the prompts that were shown.
* `Session.evaluate`: evaluate a unit.
* `Session.rep`: read, evaluate and print one unit.
* `Session.run`: units up to the end of the input.
* `Session.evalText`: a text as one unit.
-/

namespace ScriptShell

/-- How a session presents itself. -/
structure Config where
  /-- Shown before the first line of a unit. -/
  prompt : String
  /-- Shown before the further lines of a block. -/
  continuation : String
  /-- The name of the typed text in places. -/
  filename : String
  deriving DecidableEq, Repr

/-- The usual presentation. -/
def Config.usual : Config := ⟨">>> ", "... ", "<stdin>"⟩

/-- An output: what was written to it, unless it is closed. -/
structure Output where
  closed : Bool
  text : String
  deriving DecidableEq, Repr

namespace Output

/-- An output to which nothing was written yet. -/
def empty (closed : Bool) : Output := ⟨closed, ""⟩

/-- Write a text. -/
def write (o : Output) (text : String) : Output :=
  if o.closed then o else { o with text := o.text ++ text }

end Output

/-- The answer to one request for a line. An interrupt may be sent just before it comes. -/
structure Delivery where
  answer : Except ReadError String
  interrupt : Bool

/-- The answers to come, after which the input ends, and the prompts shown so far, the latest
first. -/
structure Input where
  items : List Delivery
  shown : List String

namespace Input

/-- Answers to come, before any prompt. -/
def ofItems (items : List Delivery) : Input := ⟨items, []⟩

/-- The prompts shown, in order. -/
def prompts (i : Input) : List String := i.shown.reverse

end Input

/-- When the watcher of an evaluation receives the interrupt that waits for it. -/
inductive Receipt where
  /-- Behind so many polls of the evaluation, or behind its last one if it makes fewer. -/
  | after (polls : Nat)
  /-- Not before it learns that the evaluation is complete. -/
  | never
  deriving DecidableEq, Repr

/-- The first poll that finds the token cancelled. -/
def Receipt.cancelFrom : Receipt → Option Nat
  | .after polls => some (polls + 1)
  | .never => none

/-- A session between two units. -/
structure Session where
  config : Config
  library : Library
  globals : Globals Value
  world : World
  bridge : Bridge
  /-- When an interrupt that waits for the `n`-th evaluation is received. -/
  schedule : Nat → Receipt
  out : Output
  err : Output

namespace Session

/-- Usually an interrupt is received soon, but not at once. -/
def usualSchedule (_ : Nat) : Receipt := .after 10000

/-- A new session. -/
def start (config : Config) (library : Library) : Session :=
  ⟨config, library, .empty, .empty, .start, usualSchedule, .empty false, .empty false⟩

/-- Write to the output for results. -/
def writeOut (s : Session) (text : String) : Session := { s with out := s.out.write text }

/-- Write to the output for failures. -/
def writeErr (s : Session) (text : String) : Session := { s with err := s.err.write text }

/-- What a delivery does to the session besides answering. -/
def deliver (s : Session) (d : Delivery) : Session :=
  if d.interrupt then { s with bridge := s.bridge.interrupt } else s

/-- When the next evaluation receives an interrupt. -/
def receipt (s : Session) : Receipt := s.schedule s.bridge.evaluations.length

/-- The bridge when an evaluation is over that began with `b`. -/
def bridgeAfter (b : Bridge) (receipt : Receipt) : Bridge :=
  let b := b.begin.listen
  match receipt with
  | .after _ => b.receive.finish.2
  | .never => b.finish.2

/-- What the next evaluation runs in. -/
def context (s : Session) : Context :=
  ⟨s.library, true, if s.bridge.pending then s.receipt.cancelFrom else none⟩

/-- The session when an evaluation is over that left these globals and this world. -/
def afterEvaluation (s : Session) (g : Globals Value) (w : World) : Session :=
  { s with globals := g, world := w, bridge := bridgeAfter s.bridge s.receipt }

/-- Evaluate a unit. An expression has a value, statements have none. -/
def evaluate (fuel : Nat) (s : Session) (u : InputUnit) :
    Option (Except Error (Option Value) × Session) :=
  match u with
  | .expr e =>
    match ScriptShell.evaluate s.context fuel s.config.filename s.globals e s.world.begin with
    | .ok v w => some (.ok (some v), s.afterEvaluation s.globals w)
    | .error (.failed f) w => some (.error f, s.afterEvaluation s.globals w)
    | .error .outOfFuel _ => none
  | .stmts p =>
    let r := execute s.context fuel s.config.filename s.globals p s.world.begin
    match r.outcome with
    | .ok () => some (.ok none, s.afterEvaluation r.globals r.world)
    | .error (.failed f) => some (.error f, s.afterEvaluation r.globals r.world)
    | .error .outOfFuel => none

/-- Print a value. -/
def printValue (s : Session) (v : Value) : Session :=
  if v.isNone then s else s.writeOut (v.repr ++ "\n")

/-- Print a failure. -/
def printError (s : Session) (e : Error) : Session :=
  s.writeErr (reportLine (some e))

/-- Evaluate a unit and print its value or its failure. -/
def perform (fuel : Nat) (s : Session) (u : InputUnit) : Option Session :=
  match s.evaluate fuel u with
  | none => none
  | some (.ok (some v), s) => some (s.printValue v)
  | some (.ok none, s) => some s
  | some (.error e, s) => some (s.printError e)

/-- Does a line at the primary prompt say nothing? Blank lines and comments do. -/
def isIdle (line : String) : Bool :=
  match Text.firstInk? line with
  | none => true
  | some c => c = '#'

/-- Read a line behind a prompt. -/
def readLine (s : Session) (prompt : String) (i : Input) :
    Except ReadError String × Session × Input :=
  match i.items with
  | [] => (.error .endOfInput, s, ⟨[], prompt :: i.shown⟩)
  | d :: ds => (d.answer, s.deliver d, ⟨ds, prompt :: i.shown⟩)

/-- Read the further lines of a block, up to a blank one. -/
def readBlock (s : Session) (b : PendingBlock) (shown : List String) :
    List Delivery → Except ReadError PendingBlock × Session × Input
  | [] => (.error .endOfInput, s, ⟨[], s.config.continuation :: shown⟩)
  | d :: ds =>
    match d.answer with
    | .error e => (.error e, s.deliver d, ⟨ds, s.config.continuation :: shown⟩)
    | .ok line =>
      if Text.isBlankLine line then (.ok b, s.deliver d, ⟨ds, s.config.continuation :: shown⟩)
      else readBlock (s.deliver d) (b.push line) (s.config.continuation :: shown) ds

/-- Evaluate a finished block, or print why it is not accepted. -/
def performBlock (fuel : Nat) (s : Session) (b : PendingBlock) : Option Session :=
  match classifyBlock s.config.filename b.text with
  | .ok u => s.perform fuel u
  | .error e => some (s.printError e)

/-- Read, evaluate and print one unit. Only reading can fail. -/
def rep (fuel : Nat) (s : Session) (i : Input) :
    Option (Except ReadError Unit × Session × Input) :=
  match s.bridge.takeStale with
  | (true, b) => some (.error .interrupted, { s with bridge := b }, i)
  | (false, _) =>
    match s.readLine s.config.prompt i with
    | (.error e, s, i) => some (.error e, s, i)
    | (.ok line, s, i) =>
      if isIdle line then some (.ok (), s, i)
      else
        match classifyLine line with
        | some u => (s.perform fuel u).map (fun s => (.ok (), s, i))
        | none =>
          match s.readBlock (.start line) i.shown i.items with
          | (.error e, s, i) => some (.error e, s, i)
          | (.ok b, s, i) => (s.performBlock fuel b).map (fun s => (.ok (), s, i))

/-- What follows the reading of one unit. -/
inductive Turn where
  /-- The next unit is read. -/
  | again (s : Session) (i : Input)
  /-- The session ends: well at the end of the input, else with what made reading fail. -/
  | over (outcome : Except ReadError Unit) (s : Session) (i : Input)

/-- Read, evaluate and print one unit, and report what came instead of a line. -/
def turn (fuel : Nat) (s : Session) (i : Input) : Option Turn :=
  match s.rep fuel i with
  | none => none
  | some (.ok (), s, i) => some (.again s i)
  | some (.error .interrupted, s, i) =>
    some (.again (s.writeOut (ReadError.interrupted.message ++ "\n")) i)
  | some (.error .endOfInput, s, i) => some (.over (.ok ()) (s.writeOut "\n") i)
  | some (.error e, s, i) => some (.over (.error e) s i)

/-- Read, evaluate and print units until the session ends. -/
def run : Nat → Session → Input → Option (Except ReadError Unit × Session × Input)
  | 0, _, _ => none
  | fuel + 1, s, i =>
    match s.turn fuel i with
    | none => none
    | some (.again s i) => run fuel s i
    | some (.over outcome s i) => some (outcome, s, i)

/-- Evaluate a text as one unit and print its value. A failure is not printed but handed back. -/
def evalText (fuel : Nat) (s : Session) (text : String) : Option (Except Error Unit × Session) :=
  match classifyBlock s.config.filename text with
  | .error e => some (.error e, s)
  | .ok u =>
    match s.evaluate fuel u with
    | none => none
    | some (.ok (some v), s) => some (.ok (), s.printValue v)
    | some (.ok none, s) => some (.ok (), s)
    | some (.error e, s) => some (.error e, s)

end Session
end ScriptShell
