import ScriptShell.Globals

/-!
# ScriptShell.Loader

Loading modules. A loader keeps the outcome of every module it has executed, so a module is executed
once and asked for any number of times. A module that is asked for while it is being executed asks
for itself, maybe through others: that is a cycle. An execution that was stopped from outside leaves
no outcome, so the module is executed again when it is next asked for.

The loader knows nothing of the language: the engine that executes a module is a parameter, runs in
a state of its own next to the loader's, and may ask the loader for further modules.

* `Entry`: what the loader knows of a module.
* `Hosted`: the state of a loader and of its engine.
* `load`: ask for a module.
-/

namespace ScriptShell

/-- What stops a computation. -/
inductive Halt where
  | failed (e : Error)
  /-- The allowance of steps is used up. -/
  | outOfFuel
  deriving DecidableEq, Repr

/-- What a loader knows of a module that has been asked for. -/
inductive Entry (α : Type) where
  /-- It is being executed. -/
  | pending
  | loaded (g : Globals α)
  | failed (e : Error)

/-- Modules by name. -/
abbrev Cache (α : Type) := Table (Entry α)

/-- The state of a loader and, next to it, that of its engine. -/
structure Hosted (α σ : Type) where
  cache : Cache α
  engine : σ

/-- Computations of an engine, which may ask for modules. -/
abbrev HostM (α σ β : Type) := EStateM Halt (Hosted α σ) β

namespace Hosted

variable {α σ : Type}

/-- Record what is known of a module. -/
def record (s : Hosted α σ) (module : String) (e : Entry α) : Hosted α σ :=
  { s with cache := s.cache.insert module e }

/-- Forget a module. -/
def forget (s : Hosted α σ) (module : String) : Hosted α σ :=
  { s with cache := s.cache.erase module }

end Hosted

/-- Ask for a module, which `execute` executes if it has not been asked for before. -/
def load {α σ : Type} (execute : String → HostM α σ (Globals α)) (module : String) :
    HostM α σ (Globals α) := fun s =>
  match s.cache.get? module with
  | some .pending => .error (.failed (.cycle module)) s
  | some (.loaded g) => .ok g s
  | some (.failed e) => .error (.failed e) s
  | none =>
    match execute module (s.record module .pending) with
    | .ok g s' => .ok g (s'.record module (.loaded g))
    | .error (.failed .cancelled) s' => .error (.failed .cancelled) (s'.forget module)
    | .error (.failed e) s' => .error (.failed e) (s'.record module (.failed e))
    | .error .outOfFuel s' => .error .outOfFuel s'

end ScriptShell
