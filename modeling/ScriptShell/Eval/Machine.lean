import ScriptShell.Eval.Operators
import ScriptShell.Library
import ScriptShell.Loader

/-!
# ScriptShell.Eval.Machine

What an evaluation runs in.

* `Context`: what stays the same: where modules come from, and when the evaluation is stopped.
* `World`: what every evaluation shares: the loader's modules, the number of the next function, and
  which functions have a home.
* `Scope`: where names are looked up and bound.
* `CallChain`: the active calls.

A function that a module leaves bound when it has finished gets that module's globals as its home:
from then on its body looks names up there. A function has one home at most and keeps it, and when
its engine goes the home is lost and names are looked up where the function is called from.

An evaluation asks now and then whether it has been stopped (`poll`).
-/

namespace ScriptShell

/-- The part of the state that belongs to the language. -/
structure Store where
  /-- The number of the next function. -/
  nextFunction : Nat
  /-- The homes of functions, by number; `none` stands for a home that is lost. -/
  homes : List (Nat × Option (Globals Value))
  /-- How often the evaluation has asked whether it has been stopped. -/
  polls : Nat

namespace Store

/-- No functions yet. -/
def empty : Store := ⟨0, [], 0⟩

/-- The home of a function. -/
def home? (s : Store) (id : Nat) : Option (Globals Value) :=
  (s.homes.lookup id).join

/-- Give a value a home if it is a function of the module that has none yet. -/
def settleValue (module : String) (home : Globals Value) (s : Store) : Value → Store
  | .function f =>
    if f.file = module ∧ (s.homes.lookup f.id).isNone then
      { s with homes := (f.id, some home) :: s.homes }
    else s
  | _ => s

/-- Make the finished globals of a module the home of its functions that are bound in them. -/
def settle (s : Store) (module : String) (home : Globals Value) : Store :=
  (home.toList.map Prod.snd).foldl (settleValue module home) s

/-- Lose all homes. -/
def release (s : Store) : Store :=
  { s with homes := s.homes.map (fun h => (h.1, none)) }

end Store

/-- The state that evaluations share. -/
abbrev World := Hosted Value Store

/-- No modules and no functions. -/
def World.empty : World := ⟨.empty, .empty⟩

instance : Inhabited World := ⟨World.empty⟩

/-- The state before an evaluation, which has not polled yet. -/
def World.begin (w : World) : World :=
  { w with engine := { w.engine with polls := 0 } }

/-- Computations in the shared state. -/
abbrev EvalM := EStateM Halt World

/-- What stays the same during an evaluation. -/
structure Context where
  library : Library
  /-- Can modules be loaded? -/
  canLoad : Bool
  /-- The number of the first poll that finds the evaluation stopped. -/
  cancelFrom : Option Nat

/-- Does the poll of the given number find the evaluation stopped? -/
def Context.cancelledAt (ctx : Context) (n : Nat) : Bool :=
  match ctx.cancelFrom with
  | some k => decide (k ≤ n)
  | none => false

/-- Ask whether the evaluation has been stopped. Polls are numbered from one. -/
def poll (ctx : Context) : EvalM Unit := fun w =>
  let n := w.engine.polls + 1
  let w' := { w with engine := { w.engine with polls := n } }
  if ctx.cancelledAt n then .error (.failed .cancelled) w' else .ok () w'

/-- Number a new function. -/
def newFunction (d : Definition) (file : String) : EvalM Function := fun w =>
  .ok ⟨w.engine.nextFunction, d, file⟩
    { w with engine := { w.engine with nextFunction := w.engine.nextFunction + 1 } }

/-- The active calls: the function that is running and the file it stands in, and those that wait
for a call to return, innermost first, each at that call. -/
structure CallChain where
  file : String
  function : String
  callers : List Frame

namespace CallChain

/-- Statements outside every function, of the given file. -/
def root (file : String) : CallChain := ⟨file, "<toplevel>", []⟩

/-- The number of active calls, the outermost statements included. -/
def depth (c : CallChain) : Nat := c.callers.length + 1

/-- The running function, at a place. -/
def frame (c : CallChain) (p : Pos) : Frame := ⟨⟨c.file, p⟩, c.function⟩

/-- The active calls when the running function is at a place, outermost first. -/
def stackAt (c : CallChain) (p : Pos) : List Frame :=
  (c.frame p :: c.callers).reverse

/-- The active calls inside a call of a function made at a place. -/
def enter (c : CallChain) (p : Pos) (f : Function) : CallChain :=
  ⟨f.file, f.definition.name, c.frame p :: c.callers⟩

end CallChain

/-- Active calls that a call must not exceed. -/
def maxCalls : Nat := 100

/-- Fail at a place of the running function. -/
def failAt {σ α : Type} (chain : CallChain) (p : Pos) (f : EvalFault) : EStateM Halt σ α :=
  throw (.failed (.eval f.message (some (chain.stackAt p))))

/-- A result, or a failure at a place of the running function. -/
def orFailAt {σ α : Type} (chain : CallChain) (p : Pos) :
    Except EvalFault α → EStateM Halt σ α
  | .ok a => pure a
  | .error f => failAt chain p f

/-- Where names are looked up: first among the locals, if a function is running, then among the
globals, then among the builtin functions. -/
structure Scope where
  globals : Globals Value
  locals : Option (Table Value)

namespace Scope

/-- The scope of statements outside every function. -/
def ofGlobals (g : Globals Value) : Scope := ⟨g, none⟩

/-- The local of a name. -/
def local? (s : Scope) (name : String) : Option Value :=
  s.locals.bind (fun t => t.get? name)

/-- The value of a name. -/
def lookup (s : Scope) (name : String) : Option Value :=
  (s.local? name).or ((s.globals.get? name).or ((Builtin.ofName? name).map .builtin))

/-- Bind a name: to a local if a function is running, to a global otherwise. -/
def bind (s : Scope) (name : String) (v : Value) : Except EvalFault Scope :=
  match s.locals with
  | some t => .ok { s with locals := some (t.insert name v) }
  | none =>
    match s.globals.set name v with
    | .ok g => .ok { s with globals := g }
    | .error f => .error f

end Scope

/-- The state of statements: their scope and the shared state. -/
structure Machine where
  scope : Scope
  world : World

/-- Computations of statements. The scope as it was when a statement failed is kept. -/
abbrev ExecM := EStateM Halt Machine

/-- A computation that leaves the scope alone. -/
def onWorld {α : Type} (x : EvalM α) : ExecM α := fun m =>
  match x m.world with
  | .ok a w => .ok a { m with world := w }
  | .error e w => .error e { m with world := w }

/-- A computation that reads the scope and leaves it alone. -/
def inScope {α : Type} (x : Scope → EvalM α) : ExecM α := fun m =>
  onWorld (x m.scope) m

/-- Run statements in a scope of their own, which is given up afterwards. -/
def within {α : Type} (scope : Scope) (x : ExecM α) : EvalM α := fun w =>
  match x ⟨scope, w⟩ with
  | .ok a m => .ok a m.world
  | .error e m => .error e m.world

/-- Bind a name on behalf of a statement at a place. -/
def bindName (chain : CallChain) (p : Pos) (name : String) (v : Value) : ExecM Unit := fun m =>
  match m.scope.bind name v with
  | .ok s => .ok () { m with scope := s }
  | .error f => failAt chain p f m

/-- Bind the names that a load statement at a place takes from a module. -/
def bindImports (chain : CallChain) (p : Pos) (module : String) (exports : Globals Value) :
    List Import → ExecM Unit
  | [] => pure ()
  | i :: is =>
    if i.exported.toList.head? = some '_' then failAt chain p (.notExported i.exported module)
    else
      match exports.get? i.exported with
      | none => failAt chain p (.notFound i.exported module)
      | some v => do
        bindName chain p i.target v
        bindImports chain p module exports is

end ScriptShell
