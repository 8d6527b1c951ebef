import ScriptShell.Eval

/-!
# ScriptShell.Proofs.Eval.Stack

Evaluation with a single stack of active calls that is changed in place, where `eval` passes a chain
on. A frame is pushed when a call begins and popped when it ends, well or not. The place of the
innermost frame is set where a call is made and where the program fails; otherwise it is left as it
is, out of date.

* `Stacked`: a state, with the stack beside it.
* `Stop`: what the program itself raises is told apart from what is handed over to it.
* `Stacked.raise`, `Stacked.calling`: the stack in use.
* `Stacked.eval`, `Stacked.execBlock`: evaluation with the stack.
* `Stacked.evaluate`, `Stacked.execute`, `Stacked.execFile`: what is asked for from outside; each
  begins with a stack of its own.
-/

namespace ScriptShell

/-- A state, and the stack of the active calls, innermost first. The outermost statements stand in
`file`. -/
structure Stacked (σ : Type) where
  file : String
  frames : List Frame
  state : σ

/-- What stops an evaluation. -/
inductive Stop where
  /-- The program fails, while these calls are active. -/
  | raised (fault : EvalFault) (stack : List Frame)
  /-- Something outside the program stops it: a poll, a load, or the allowance. -/
  | passed (h : Halt)

/-- The stop as it is reported. -/
def Stop.halt : Stop → Halt
  | .raised fault stack => .failed (.eval fault.message (some stack))
  | .passed h => h

/-- Computations beside a stack. -/
abbrev StackM (σ : Type) := EStateM Stop (Stacked σ)

/-- The call, come to another place. -/
def Frame.moveTo (p : Pos) (f : Frame) : Frame := ⟨⟨f.location.file, p⟩, f.function⟩

namespace Stacked

variable {σ τ α : Type}

/-- No call is active but the outermost statements. -/
def start (file : String) (s : σ) : Stacked σ := ⟨file, [⟨⟨file, ⟨0, 0⟩⟩, "<toplevel>"⟩], s⟩

/-- Another state beside the same stack. -/
def put (s : Stacked σ) (t : τ) : Stacked τ := ⟨s.file, s.frames, t⟩

/-- The running function comes to a place. -/
def moveTo (s : Stacked σ) (p : Pos) : Stacked σ :=
  { s with frames := s.frames.modifyHead (Frame.moveTo p) }

/-- The running function calls another one at a place. -/
def enter (s : Stacked σ) (p : Pos) (f : Function) : Stacked σ :=
  { s with
    frames := ⟨⟨f.file, f.definition.pos⟩, f.definition.name⟩ :: (s.moveTo p).frames }

/-- The running function ends. -/
def leave (s : Stacked σ) : Stacked σ := { s with frames := s.frames.tail }

/-- The file that the running function stands in. -/
def runningFile (s : Stacked σ) : String :=
  match s.frames with
  | f :: _ => f.location.file
  | [] => s.file

/-- Fail at a place of the running function. -/
def raise (p : Pos) (fault : EvalFault) : StackM σ α := fun s =>
  .error (.raised fault (s.moveTo p).frames.reverse) (s.moveTo p)

/-- A result, or a failure at a place of the running function. -/
def orRaise (p : Pos) : Except EvalFault α → StackM σ α
  | .ok a => pure a
  | .error fault => raise p fault

/-- Ask the shared state. -/
def ask (x : EvalM α) : StackM World α := fun s =>
  match x s.state with
  | .ok a w => .ok a (s.put w)
  | .error h w => .error (.passed h) (s.put w)

/-- Run the body of a function that is called at a place. -/
def calling (p : Pos) (f : Function) (x : StackM σ α) : StackM σ α := fun s =>
  match x (s.enter p f) with
  | .ok a t => .ok a t.leave
  | .error e t => .error e t.leave

/-- A computation that leaves the scope alone. -/
def onWorld (x : StackM World α) : StackM Machine α := fun s =>
  match x (s.put s.state.world) with
  | .ok a t => .ok a (t.put { s.state with world := t.state })
  | .error e t => .error e (t.put { s.state with world := t.state })

/-- A computation that reads the scope and leaves it alone. -/
def inScope (x : Scope → StackM World α) : StackM Machine α := fun s =>
  onWorld (x s.state.scope) s

/-- Run statements in a scope of their own, which is given up afterwards. -/
def within (scope : Scope) (x : StackM Machine α) : StackM World α := fun s =>
  match x (s.put ⟨scope, s.state⟩) with
  | .ok a t => .ok a (t.put t.state.world)
  | .error e t => .error e (t.put t.state.world)

/-- Bind a name on behalf of a statement at a place. -/
def bindName (p : Pos) (name : String) (v : Value) : StackM Machine Unit := fun s =>
  match s.state.scope.bind name v with
  | .ok scope => .ok () (s.put { s.state with scope := scope })
  | .error fault => raise p fault s

/-- Bind the names that a load statement at a place takes from a module. -/
def bindImports (p : Pos) (module : String) (exports : Globals Value) :
    List Import → StackM Machine Unit
  | [] => pure ()
  | i :: is =>
    if i.exported.toList.head? = some '_' then raise p (.notExported i.exported module)
    else
      match exports.get? i.exported with
      | none => raise p (.notFound i.exported module)
      | some v => do
        bindName p i.target v
        bindImports p module exports is

/-- Without the stack. -/
def drop : EStateM.Result Stop (Stacked σ) α → EStateM.Result Stop σ α
  | .ok a s => .ok a s.state
  | .error e s => .error e s.state

end Stacked

/-- How a computation ended, as it is reported. -/
def Stop.report {σ α : Type} : EStateM.Result Stop σ α → EStateM.Result Halt σ α
  | .ok a s => .ok a s
  | .error e s => .error e.halt s

namespace Stacked

mutual

def eval (ctx : Context) : Nat → Scope → Expr → StackM World Value
  | 0, _, _ => throw (.passed .outOfFuel)
  | fuel + 1, scope, e =>
    match e with
    | .none => pure .none
    | .bool b => pure (.bool b)
    | .int i => pure (.int i)
    | .str s => pure (.str s)
    | .name id p =>
      match scope.lookup id with
      | some v => pure v
      | none => raise p (.undefined id)
    | .unary op e p => do
      let v ← eval ctx fuel scope e
      orRaise p (op.apply v)
    | .binary .and l r _ => do
      let v ← eval ctx fuel scope l
      if v.truth then eval ctx fuel scope r else pure v
    | .binary .or l r _ => do
      let v ← eval ctx fuel scope l
      if v.truth then pure v else eval ctx fuel scope r
    | .binary op l r p => do
      let v ← eval ctx fuel scope l
      let v' ← eval ctx fuel scope r
      orRaise p (op.apply v v')
    | .call f args p => do
      let v ← eval ctx fuel scope f
      let vs ← evalArgs ctx fuel scope args
      call ctx fuel scope v vs p

def evalArgs (ctx : Context) : Nat → Scope → List Expr → StackM World (List Value)
  | 0, _, _ => throw (.passed .outOfFuel)
  | _ + 1, _, [] => pure []
  | fuel + 1, scope, e :: es => do
    let v ← eval ctx fuel scope e
    let vs ← evalArgs ctx fuel scope es
    pure (v :: vs)

def call (ctx : Context) : Nat → Scope → Value → List Value → Pos → StackM World Value
  | 0, _, _, _, _ => throw (.passed .outOfFuel)
  | fuel + 1, scope, callee, args, p => do
    ask (poll ctx)
    match callee with
    | .builtin b => orRaise p (b.apply args)
    | .function f =>
      let d := f.definition
      if args.length ≠ d.params.length then
        raise p (.wrongArity d.name d.params.length args.length)
      else do
        let s ← get
        if maxCalls ≤ s.frames.length then raise p .callsTooDeep
        else do
          let globals := (s.state.engine.home? f.id).getD scope.globals
          let inner : Scope := ⟨globals, some (.ofList (d.params.zip args))⟩
          let flow ← calling p f (within inner (execBlock ctx fuel d.body))
          pure flow.value
    | v => raise p (.notCallable v.typeName)

def execStmt (ctx : Context) : Nat → Stmt → StackM Machine Flow
  | 0, _ => throw (.passed .outOfFuel)
  | fuel + 1, s => do
    onWorld (ask (poll ctx))
    match s with
    | .pass => pure .next
    | .expr e _ =>
      let _ ← inScope (fun scope => eval ctx fuel scope e)
      pure .next
    | .assign name e p =>
      let v ← inScope (fun scope => eval ctx fuel scope e)
      bindName p name v
      pure .next
    | .define name params body p =>
      let s ← get
      let f ← onWorld (ask (newFunction ⟨name, params, body, p⟩ s.runningFile))
      bindName p name (.function f)
      pure .next
    | .return_ none _ => pure (.return_ .none)
    | .return_ (some e) _ =>
      let v ← inScope (fun scope => eval ctx fuel scope e)
      pure (.return_ v)
    | .if_ cond thenPart elsePart _ =>
      let v ← inScope (fun scope => eval ctx fuel scope cond)
      execBlock ctx fuel (if v.truth then thenPart else elsePart)
    | .while_ cond body _ => execLoop ctx fuel cond body
    | .load module imports p =>
      let exports ← onWorld (ask (loadModule ctx fuel module))
      bindImports p module exports imports
      pure .next

def execBlock (ctx : Context) : Nat → List Stmt → StackM Machine Flow
  | 0, _ => throw (.passed .outOfFuel)
  | _ + 1, [] => pure .next
  | fuel + 1, s :: ss => do
    match ← execStmt ctx fuel s with
    | .return_ v => pure (.return_ v)
    | .next => execBlock ctx fuel ss

def execLoop (ctx : Context) : Nat → Expr → List Stmt → StackM Machine Flow
  | 0, _, _ => throw (.passed .outOfFuel)
  | fuel + 1, cond, body => do
    let v ← inScope (fun scope => eval ctx fuel scope cond)
    if v.truth then
      match ← execBlock ctx fuel body with
      | .return_ v => pure (.return_ v)
      | .next => do
        onWorld (ask (poll ctx))
        execLoop ctx fuel cond body
    else pure .next

/-- The exports of a module. The execution of a module has a stack of its own, and what it raises is
handed over. -/
def loadModule (ctx : Context) : Nat → String → EvalM (Globals Value)
  | 0, _ => throw .outOfFuel
  | fuel + 1, module =>
    if ctx.canLoad then load (fun m w => Stop.report (execFile ctx fuel m m w)) module
    else throw (.failed (EvalFault.cannotLoad module).toError)

def execFile (ctx : Context) : Nat → String → String → EStateM Stop World (Globals Value)
  | 0, _, _ => throw (.passed .outOfFuel)
  | fuel + 1, file, module =>
    match ctx.library.read module with
    | .error r => throw (.passed (.failed (.load module r.message)))
    | .ok text =>
      match parseProgram module text with
      | .error e => throw (.passed (.failed e))
      | .ok p => fun w =>
        match execBlock ctx fuel p (start file ⟨.ofGlobals .empty, w⟩) with
        | .ok _ s =>
          let g := s.state.scope.globals.freeze
          .ok g { s.state.world with engine := s.state.world.engine.settle module g }
        | .error e s => .error e s.state.world

end

/-- The value of an expression that stands in a file, with the given globals. -/
def evaluate (ctx : Context) (fuel : Nat) (file : String) (g : Globals Value) (e : Expr) :
    EStateM Stop World Value := fun w =>
  drop ((ask (poll ctx) >>= fun _ => eval ctx fuel (.ofGlobals g) e) (start file w))

/-- Execute a program that stands in a file, on the given globals. -/
def execute (ctx : Context) (fuel : Nat) (file : String) (g : Globals Value) (p : Program)
    (w : World) : EStateM.Result Stop Machine Flow :=
  drop (execBlock ctx fuel p (start file ⟨.ofGlobals g, w⟩))

end Stacked

end ScriptShell
