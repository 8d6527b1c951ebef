import ScriptShell.Classify
import ScriptShell.Eval.Machine

/-!
# ScriptShell.Eval

Evaluation. Every function here takes an allowance of steps, which bounds how deep the recursion
goes; when it is used up the outcome is `Halt.outOfFuel`, and a finished outcome is the same for
every larger allowance.

* `eval`, `call`: the value of an expression, and of a call.
* `execStmt`, `execBlock`, `execLoop`: what statements do.
* `loadModule`, `execFile`: other modules, through the loader or not.
* `evaluate`, `execute`, `runFile`: what an evaluation is asked to do from outside.
-/

namespace ScriptShell

/-- How a statement ends: with the next one, or with the return from the running function. -/
inductive Flow where
  | next
  | return_ (v : Value)

/-- The value of a call whose body ended so. -/
def Flow.value : Flow → Value
  | .next => .none
  | .return_ v => v

mutual

/-- The value of an expression. -/
def eval (ctx : Context) : Nat → CallChain → Scope → Expr → EvalM Value
  | 0, _, _, _ => throw .outOfFuel
  | fuel + 1, chain, scope, e =>
    match e with
    | .none => pure .none
    | .bool b => pure (.bool b)
    | .int i => pure (.int i)
    | .str s => pure (.str s)
    | .name id p =>
      match scope.lookup id with
      | some v => pure v
      | none => failAt chain p (.undefined id)
    | .unary op e p => do
      let v ← eval ctx fuel chain scope e
      orFailAt chain p (op.apply v)
    | .binary .and l r _ => do
      let v ← eval ctx fuel chain scope l
      if v.truth then eval ctx fuel chain scope r else pure v
    | .binary .or l r _ => do
      let v ← eval ctx fuel chain scope l
      if v.truth then pure v else eval ctx fuel chain scope r
    | .binary op l r p => do
      let v ← eval ctx fuel chain scope l
      let v' ← eval ctx fuel chain scope r
      orFailAt chain p (op.apply v v')
    | .call f args p => do
      let v ← eval ctx fuel chain scope f
      let vs ← evalArgs ctx fuel chain scope args
      call ctx fuel chain scope v vs p

/-- The values of arguments, from left to right. -/
def evalArgs (ctx : Context) : Nat → CallChain → Scope → List Expr → EvalM (List Value)
  | 0, _, _, _ => throw .outOfFuel
  | _ + 1, _, _, [] => pure []
  | fuel + 1, chain, scope, e :: es => do
    let v ← eval ctx fuel chain scope e
    let vs ← evalArgs ctx fuel chain scope es
    pure (v :: vs)

/-- The value of a call made at a place. The body of a function runs in the function's home, or
else in the globals of the caller. Of two parameters of one name the later counts. -/
def call (ctx : Context) : Nat → CallChain → Scope → Value → List Value → Pos → EvalM Value
  | 0, _, _, _, _, _ => throw .outOfFuel
  | fuel + 1, chain, scope, callee, args, p => do
    poll ctx
    match callee with
    | .builtin b => orFailAt chain p (b.apply args)
    | .function f =>
      let d := f.definition
      if args.length ≠ d.params.length then
        failAt chain p (.wrongArity d.name d.params.length args.length)
      else if maxCalls ≤ chain.depth then failAt chain p .callsTooDeep
      else do
        let w ← get
        let globals := (w.engine.home? f.id).getD scope.globals
        let inner : Scope := ⟨globals, some (.ofList (d.params.zip args))⟩
        let flow ← within inner (execBlock ctx fuel (chain.enter p f) d.body)
        pure flow.value
    | v => failAt chain p (.notCallable v.typeName)

/-- Execute a statement. -/
def execStmt (ctx : Context) : Nat → CallChain → Stmt → ExecM Flow
  | 0, _, _ => throw .outOfFuel
  | fuel + 1, chain, s => do
    onWorld (poll ctx)
    match s with
    | .pass => pure .next
    | .expr e _ =>
      let _ ← inScope (fun scope => eval ctx fuel chain scope e)
      pure .next
    | .assign name e p =>
      let v ← inScope (fun scope => eval ctx fuel chain scope e)
      bindName chain p name v
      pure .next
    | .define name params body p =>
      let f ← onWorld (newFunction ⟨name, params, body, p⟩ chain.file)
      bindName chain p name (.function f)
      pure .next
    | .return_ none _ => pure (.return_ .none)
    | .return_ (some e) _ =>
      let v ← inScope (fun scope => eval ctx fuel chain scope e)
      pure (.return_ v)
    | .if_ cond thenPart elsePart _ =>
      let v ← inScope (fun scope => eval ctx fuel chain scope cond)
      execBlock ctx fuel chain (if v.truth then thenPart else elsePart)
    | .while_ cond body _ => execLoop ctx fuel chain cond body
    | .load module imports p =>
      let exports ← onWorld (loadModule ctx fuel module)
      bindImports chain p module exports imports
      pure .next

/-- Execute statements one after the other, up to a return. -/
def execBlock (ctx : Context) : Nat → CallChain → List Stmt → ExecM Flow
  | 0, _, _ => throw .outOfFuel
  | _ + 1, _, [] => pure .next
  | fuel + 1, chain, s :: ss => do
    match ← execStmt ctx fuel chain s with
    | .return_ v => pure (.return_ v)
    | .next => execBlock ctx fuel chain ss

/-- Execute a block as long as a condition holds, up to a return. -/
def execLoop (ctx : Context) : Nat → CallChain → Expr → List Stmt → ExecM Flow
  | 0, _, _, _ => throw .outOfFuel
  | fuel + 1, chain, cond, body => do
    let v ← inScope (fun scope => eval ctx fuel chain scope cond)
    if v.truth then
      match ← execBlock ctx fuel chain body with
      | .return_ v => pure (.return_ v)
      | .next => do
        onWorld (poll ctx)
        execLoop ctx fuel chain cond body
    else pure .next

/-- The exports of a module that a program asks for. -/
def loadModule (ctx : Context) : Nat → String → EvalM (Globals Value)
  | 0, _ => throw .outOfFuel
  | fuel + 1, module =>
    if ctx.canLoad then load (fun m => execFile ctx fuel m m) module
    else throw (.failed (EvalFault.cannotLoad module).toError)

/-- Execute a module in globals of its own, which are frozen and become the home of its functions
when it has finished. The outermost calls are shown in the file `file`. -/
def execFile (ctx : Context) : Nat → String → String → EvalM (Globals Value)
  | 0, _, _ => throw .outOfFuel
  | fuel + 1, file, module =>
    match ctx.library.read module with
    | .error r => throw (.failed (.load module r.message))
    | .ok text =>
      match parseProgram module text with
      | .error e => throw (.failed e)
      | .ok p => fun w =>
        match execBlock ctx fuel (.root file) p ⟨.ofGlobals .empty, w⟩ with
        | .ok _ m =>
          let g := m.scope.globals.freeze
          .ok g { m.world with engine := m.world.engine.settle module g }
        | .error e m => .error e m.world

end

/-- An allowance of steps that no evaluation uses up in practice. -/
def ampleFuel : Nat := 1000000000000000000

/-- The value of an expression that stands in a file, with the given globals. -/
def evaluate (ctx : Context) (fuel : Nat) (file : String) (g : Globals Value) (e : Expr) :
    EvalM Value := do
  poll ctx
  eval ctx fuel (.root file) (.ofGlobals g) e

/-- How an execution ended, and the globals it left. -/
structure Executed where
  outcome : Except Halt Unit
  globals : Globals Value
  world : World

/-- Execute a program that stands in a file, on the given globals. What it bound before a failure
stays bound. -/
def execute (ctx : Context) (fuel : Nat) (file : String) (g : Globals Value) (p : Program)
    (w : World) : Executed :=
  match execBlock ctx fuel (.root file) p ⟨.ofGlobals g, w⟩ with
  | .ok _ m => ⟨.ok (), m.scope.globals, m.world⟩
  | .error e m => ⟨.error e, m.scope.globals, m.world⟩

/-- Execute a module with a loader of its own. -/
def runFile (ctx : Context) (fuel : Nat) (module : String) : EvalM (Globals Value) := fun w =>
  match execFile ctx fuel module module { w with cache := .empty } with
  | .ok g w' => .ok g { w' with cache := w.cache }
  | .error e w' => .error e { w' with cache := w.cache }

end ScriptShell
