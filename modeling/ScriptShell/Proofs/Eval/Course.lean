import ScriptShell.Eval

/-!
# ScriptShell.Proofs.Eval.Course

The course of an evaluation, apart from the state it runs in: a tree whose nodes are what the
evaluation asks of the shared state, and whose branches are the answers. What an evaluation does
depends on the shared state through these answers alone.

* `Course`: the tree. `Course.run` asks the shared state.
* `Course.eval`, `Course.exec`: the course of an expression, of a statement.
* `eval_eq_run`, `drop_execBlock`: running the course is evaluating.
-/

namespace ScriptShell

/-- The nodes ask whether to stop, for the number of a new function, for the home of a function, and
for a module. A failure of any of these ends the course. -/
inductive Course (β : Type) where
  | value (b : β)
  | fail (e : Error)
  /-- The allowance of steps is used up. -/
  | stuck
  | poll (next : Course β)
  | new (d : Definition) (file : String) (next : Function → Course β)
  | home (f : Function) (next : Option (Globals Value) → Course β)
  | load (fuel : Nat) (module : String) (next : Globals Value → Course β)

namespace Course

variable {β γ : Type}

def bind : Course β → (β → Course γ) → Course γ
  | .value b, f => f b
  | .fail e, _ => .fail e
  | .stuck, _ => .stuck
  | .poll next, f => .poll (next.bind f)
  | .new d file next, f => .new d file fun g => (next g).bind f
  | .home g next, f => .home g fun h => (next h).bind f
  | .load fuel m next, f => .load fuel m fun g => (next g).bind f

instance : Monad Course where
  pure := .value
  bind := bind

theorem bind_value (c : Course β) : c.bind .value = c := by
  induction c with
  | value b => rfl
  | fail e => rfl
  | stuck => rfl
  | poll next ih => rw [bind, ih]
  | new d file next ih => simp only [bind, ih]
  | home g next ih => simp only [bind, ih]
  | load fuel m next ih => simp only [bind, ih]

theorem bind_bind {δ : Type} (c : Course β) (f : β → Course γ) (f' : γ → Course δ) :
    (c.bind f).bind f' = c.bind fun b => (f b).bind f' := by
  induction c with
  | value b => rfl
  | fail e => rfl
  | stuck => rfl
  | poll next ih => simp only [bind, ih]
  | new d file next ih => simp only [bind, ih]
  | home g next ih => simp only [bind, ih]
  | load fuel m next ih => simp only [bind, ih]

instance : LawfulMonad Course :=
  .mk' _ bind_value (fun _ _ => rfl) bind_bind

/-- Ask the shared state. -/
def run (ctx : Context) : Course β → EvalM β
  | .value b => pure b
  | .fail e => throw (.failed e)
  | .stuck => throw .outOfFuel
  | .poll next => do
    ScriptShell.poll ctx
    next.run ctx
  | .new d file next => do
    let f ← newFunction d file
    (next f).run ctx
  | .home f next => do
    let w ← get
    (next (w.engine.home? f.id)).run ctx
  | .load fuel m next => do
    let g ← ScriptShell.load (fun m => execFile ctx fuel m m) m
    (next g).run ctx

def failAt (chain : CallChain) (p : Pos) (f : EvalFault) : Course β :=
  .fail (.eval f.message (some (chain.stackAt p)))

def orFailAt (chain : CallChain) (p : Pos) : Except EvalFault β → Course β
  | .ok b => .value b
  | .error f => failAt chain p f

/-- The course of binding a name, to the scope behind it. -/
def bindName (chain : CallChain) (p : Pos) (name : String) (v : Value) (scope : Scope) :
    Course Scope :=
  orFailAt chain p (scope.bind name v)

def bindImports (chain : CallChain) (p : Pos) (module : String) (exports : Globals Value) :
    List Import → Scope → Course Scope
  | [], scope => pure scope
  | i :: is, scope =>
    if i.exported.toList.head? = some '_' then failAt chain p (.notExported i.exported module)
    else
      match exports.get? i.exported with
      | none => failAt chain p (.notFound i.exported module)
      | some v => do
        let scope ← bindName chain p i.target v scope
        bindImports chain p module exports is scope

/-- The course of asking for a module. -/
def loadModule (canLoad : Bool) : Nat → String → Course (Globals Value)
  | 0, _ => .stuck
  | fuel + 1, module =>
    if canLoad then .load fuel module .value else .fail (EvalFault.cannotLoad module).toError

mutual

def eval (canLoad : Bool) : Nat → CallChain → Scope → Expr → Course Value
  | 0, _, _, _ => .stuck
  | fuel + 1, chain, scope, e =>
    match e with
    | .none => pure .none
    | .bool b => pure (.bool b)
    | .int i => pure (.int i)
    | .str s => pure (.str s)
    | .name id p =>
      match scope.lookup id with
      | some v => pure v
      | none => failAt chain p (.undefined id)
    | .unary op e p => do
      let v ← eval canLoad fuel chain scope e
      orFailAt chain p (op.apply v)
    | .binary .and l r _ => do
      let v ← eval canLoad fuel chain scope l
      if v.truth then eval canLoad fuel chain scope r else pure v
    | .binary .or l r _ => do
      let v ← eval canLoad fuel chain scope l
      if v.truth then pure v else eval canLoad fuel chain scope r
    | .binary op l r p => do
      let v ← eval canLoad fuel chain scope l
      let v' ← eval canLoad fuel chain scope r
      orFailAt chain p (op.apply v v')
    | .call f args p => do
      let v ← eval canLoad fuel chain scope f
      let vs ← evalArgs canLoad fuel chain scope args
      call canLoad fuel chain scope v vs p

def evalArgs (canLoad : Bool) : Nat → CallChain → Scope → List Expr → Course (List Value)
  | 0, _, _, _ => .stuck
  | _ + 1, _, _, [] => pure []
  | fuel + 1, chain, scope, e :: es => do
    let v ← eval canLoad fuel chain scope e
    let vs ← evalArgs canLoad fuel chain scope es
    pure (v :: vs)

def call (canLoad : Bool) : Nat → CallChain → Scope → Value → List Value → Pos → Course Value
  | 0, _, _, _, _, _ => .stuck
  | fuel + 1, chain, scope, callee, args, p =>
    .poll <|
      match callee with
      | .builtin b => orFailAt chain p (b.apply args)
      | .function f =>
        let d := f.definition
        if args.length ≠ d.params.length then
          failAt chain p (.wrongArity d.name d.params.length args.length)
        else if maxCalls ≤ chain.depth then failAt chain p .callsTooDeep
        else .home f fun home => do
          let inner : Scope := ⟨home.getD scope.globals, some (.ofList (d.params.zip args))⟩
          let (flow, _) ← execBlock canLoad fuel (chain.enter p f) d.body inner
          pure flow.value
      | v => failAt chain p (.notCallable v.typeName)

def exec (canLoad : Bool) : Nat → CallChain → Stmt → Scope → Course (Flow × Scope)
  | 0, _, _, _ => .stuck
  | fuel + 1, chain, s, scope =>
    .poll <|
      match s with
      | .pass => pure (.next, scope)
      | .expr e _ => do
        let _ ← eval canLoad fuel chain scope e
        pure (.next, scope)
      | .assign name e p => do
        let v ← eval canLoad fuel chain scope e
        let scope ← bindName chain p name v scope
        pure (.next, scope)
      | .define name params body p =>
        .new ⟨name, params, body, p⟩ chain.file fun f => do
          let scope ← bindName chain p name (.function f) scope
          pure (.next, scope)
      | .return_ none _ => pure (.return_ .none, scope)
      | .return_ (some e) _ => do
        let v ← eval canLoad fuel chain scope e
        pure (.return_ v, scope)
      | .if_ cond thenPart elsePart _ => do
        let v ← eval canLoad fuel chain scope cond
        execBlock canLoad fuel chain (if v.truth then thenPart else elsePart) scope
      | .while_ cond body _ => execLoop canLoad fuel chain cond body scope
      | .load module imports p => do
        let exports ← loadModule canLoad fuel module
        let scope ← bindImports chain p module exports imports scope
        pure (.next, scope)

def execBlock (canLoad : Bool) : Nat → CallChain → List Stmt → Scope → Course (Flow × Scope)
  | 0, _, _, _ => .stuck
  | _ + 1, _, [], scope => pure (.next, scope)
  | fuel + 1, chain, s :: ss, scope => do
    let (flow, scope) ← exec canLoad fuel chain s scope
    match flow with
    | .return_ v => pure (.return_ v, scope)
    | .next => execBlock canLoad fuel chain ss scope

def execLoop (canLoad : Bool) : Nat → CallChain → Expr → List Stmt → Scope →
    Course (Flow × Scope)
  | 0, _, _, _, _ => .stuck
  | fuel + 1, chain, cond, body, scope => do
    let v ← eval canLoad fuel chain scope cond
    if v.truth then
      let (flow, scope) ← execBlock canLoad fuel chain body scope
      match flow with
      | .return_ v => pure (.return_ v, scope)
      | .next => .poll (execLoop canLoad fuel chain cond body scope)
    else pure (.next, scope)

end

section
variable (ctx : Context)

theorem run_bind (c : Course β) (f : β → Course γ) :
    (c >>= f).run ctx = c.run ctx >>= fun b => (f b).run ctx := by
  change (c.bind f).run ctx = _
  induction c with
  | value b => simp only [bind, run, pure_bind]
  | fail e => rfl
  | stuck => rfl
  | poll next ih => simp only [bind, run, ih, bind_assoc]
  | new d file next ih => simp only [bind, run, ih, bind_assoc]
  | home g next ih => simp only [bind, run, ih, bind_assoc]
  | load fuel m next ih => simp only [bind, run, ih, bind_assoc]

theorem run_pure (b : β) : (pure b : Course β).run ctx = pure b := rfl

theorem run_orFailAt (chain : CallChain) (p : Pos) (r : Except EvalFault β) :
    (orFailAt chain p r).run ctx = ScriptShell.orFailAt chain p r := by
  cases r <;> rfl

theorem run_loadModule (fuel : Nat) (m : String) :
    (loadModule ctx.canLoad fuel m).run ctx = ScriptShell.loadModule ctx fuel m := by
  cases fuel with
  | zero => simp only [loadModule, ScriptShell.loadModule, run]
  | succ fuel =>
    rw [loadModule, ScriptShell.loadModule]
    split
    · simp only [run, bind_pure]
    · rfl

end

/-! ## Statements

A statement runs in a scope next to the shared state; a failure leaves the scope as it was then. -/

/-- A computation of statements without the scope that a failure leaves. -/
def drop {α : Type} : EStateM.Result Halt Machine α → EStateM.Result Halt World (α × Scope)
  | .ok a m => .ok (a, m.scope) m.world
  | .error e m => .error e m.world

/-- The computation of statements has the course. -/
def Has (ctx : Context) {α : Type} (x : ExecM α) (c : Scope → Course (α × Scope)) : Prop :=
  ∀ scope w, drop (x ⟨scope, w⟩) = (c scope).run ctx w

namespace Has

variable {ctx : Context} {α α' : Type}

theorem pure (a : α) : Has ctx (pure a) fun scope => pure (a, scope) :=
  fun _ _ => rfl

theorem bind {x : ExecM α} {c : Scope → Course (α × Scope)} {f : α → ExecM α'}
    {k : α × Scope → Course (α' × Scope)} (hx : Has ctx x c)
    (hf : ∀ a, Has ctx (f a) fun scope => k (a, scope)) :
    Has ctx (x >>= f) fun scope => c scope >>= k := by
  intro scope w
  rw [run_bind]
  change drop (EStateM.bind x f _) = EStateM.bind _ _ _
  rw [EStateM.bind, EStateM.bind, ← hx scope w]
  cases x ⟨scope, w⟩ with
  | ok a m => exact hf a m.scope m.world
  | error e m => rfl

theorem inScope_bind {c : Scope → Course α} {f : α → ExecM α'}
    {k : α → Scope → Course (α' × Scope)} (hf : ∀ a, Has ctx (f a) (k a)) :
    Has ctx (ScriptShell.inScope (fun scope => (c scope).run ctx) >>= f) fun scope =>
      c scope >>= fun a => k a scope := by
  intro scope w
  rw [run_bind]
  change drop (EStateM.bind _ _ _) = EStateM.bind _ _ _
  rw [EStateM.bind, EStateM.bind, ScriptShell.inScope, onWorld]
  cases (c scope).run ctx w with
  | ok a w' => exact hf a scope w'
  | error e w' => rfl

theorem onWorld_bind {c : Course α} {f : α → ExecM α'} {k : α → Scope → Course (α' × Scope)}
    (hf : ∀ a, Has ctx (f a) (k a)) :
    Has ctx (onWorld (c.run ctx) >>= f) fun scope => c >>= fun a => k a scope :=
  @inScope_bind ctx α α' (fun _ => c) f k hf

theorem poll_bind {x : ExecM α} {c : Scope → Course (α × Scope)} (hx : Has ctx x c) :
    Has ctx (onWorld (ScriptShell.poll ctx) >>= fun _ => x) fun scope => .poll (c scope) := by
  intro scope w
  change drop (EStateM.bind _ _ _) = EStateM.bind _ _ _
  rw [EStateM.bind, EStateM.bind, onWorld]
  cases ScriptShell.poll ctx w with
  | ok a w' => exact hx scope w'
  | error e w' => rfl

theorem new_bind {d : Definition} {file : String} {g : Function → ExecM α}
    {k : Function → Scope → Course (α × Scope)} (hg : ∀ f, Has ctx (g f) (k f)) :
    Has ctx (onWorld (newFunction d file) >>= g) fun scope => .new d file fun f => k f scope :=
  fun scope _ => hg _ scope _

theorem bindName_bind {chain : CallChain} {p : Pos} {name : String} {v : Value} {x : ExecM α}
    {k : Scope → Course (α × Scope)} (hx : Has ctx x k) :
    Has ctx (ScriptShell.bindName chain p name v >>= fun _ => x) fun scope =>
      bindName chain p name v scope >>= k := by
  intro scope w
  rw [run_bind]
  change drop (EStateM.bind _ _ _) = EStateM.bind _ _ _
  rw [EStateM.bind, EStateM.bind, ScriptShell.bindName, Course.bindName]
  cases scope.bind name v with
  | ok scope' => exact hx scope' w
  | error f => rfl

theorem bindImports_bind {chain : CallChain} {p : Pos} {module : String}
    {exports : Globals Value} {is : List Import} {x : ExecM α}
    {k : Scope → Course (α × Scope)} (hx : Has ctx x k) :
    Has ctx (ScriptShell.bindImports chain p module exports is >>= fun _ => x) fun scope =>
      bindImports chain p module exports is scope >>= k := by
  induction is with
  | nil =>
    simpa only [ScriptShell.bindImports, Course.bindImports, pure_bind] using hx
  | cons i is ih =>
    simp only [ScriptShell.bindImports, Course.bindImports]
    split
    · exact fun _ _ => rfl
    · cases exports.get? i.exported with
      | none => exact fun _ _ => rfl
      | some v =>
        simp only [bind_assoc]
        exact bindName_bind ih

end Has

/-- The evaluations with an allowance are their courses. -/
structure Exact (ctx : Context) (fuel : Nat) : Prop where
  eval : ∀ chain scope e, (eval ctx.canLoad fuel chain scope e).run ctx =
    ScriptShell.eval ctx fuel chain scope e
  evalArgs : ∀ chain scope es, (evalArgs ctx.canLoad fuel chain scope es).run ctx =
    ScriptShell.evalArgs ctx fuel chain scope es
  call : ∀ chain scope f vs p, (call ctx.canLoad fuel chain scope f vs p).run ctx =
    ScriptShell.call ctx fuel chain scope f vs p
  exec : ∀ chain s, Has ctx (ScriptShell.execStmt ctx fuel chain s) (exec ctx.canLoad fuel chain s)
  execBlock : ∀ chain ss,
    Has ctx (ScriptShell.execBlock ctx fuel chain ss) (execBlock ctx.canLoad fuel chain ss)
  execLoop : ∀ chain cond body, Has ctx (ScriptShell.execLoop ctx fuel chain cond body)
    (execLoop ctx.canLoad fuel chain cond body)

namespace Exact

variable {ctx : Context} {fuel : Nat}

theorem zero : Exact ctx 0 where
  eval := by
    intro chain scope e
    simp only [Course.eval, ScriptShell.eval, run]
  evalArgs := by
    intro chain scope es
    simp only [Course.evalArgs, ScriptShell.evalArgs, run]
  call := by
    intro chain scope f vs p
    simp only [Course.call, ScriptShell.call, run]
  exec := by
    intro chain s scope w
    simp only [Course.exec, ScriptShell.execStmt]
    rfl
  execBlock := by
    intro chain ss scope w
    simp only [Course.execBlock, ScriptShell.execBlock]
    rfl
  execLoop := by
    intro chain cond body scope w
    simp only [Course.execLoop, ScriptShell.execLoop]
    rfl

theorem eval_succ (h : Exact ctx fuel) (chain : CallChain) (scope : Scope) (e : Expr) :
    (Course.eval ctx.canLoad (fuel + 1) chain scope e).run ctx =
      ScriptShell.eval ctx (fuel + 1) chain scope e := by
  cases e with
  | name id p =>
    simp only [Course.eval, ScriptShell.eval]
    cases scope.lookup id <;> rfl
  | unary op e p =>
    simp only [Course.eval, ScriptShell.eval, run_bind, h.eval, run_orFailAt]
  | binary op l r p =>
    cases op
    case and =>
      simp only [Course.eval, ScriptShell.eval, run_bind, h.eval]
      congr 1
      funext v
      split
      · exact h.eval chain scope r
      · rfl
    case or =>
      simp only [Course.eval, ScriptShell.eval, run_bind, h.eval]
      congr 1
      funext v
      split
      · rfl
      · exact h.eval chain scope r
    all_goals simp only [Course.eval, ScriptShell.eval, run_bind, h.eval, run_orFailAt]
  | call f args p =>
    simp only [Course.eval, ScriptShell.eval, run_bind, h.eval, h.evalArgs, h.call]
  | _ => simp only [Course.eval, ScriptShell.eval, run_pure]

theorem evalArgs_succ (h : Exact ctx fuel) (chain : CallChain) (scope : Scope) (es : List Expr) :
    (Course.evalArgs ctx.canLoad (fuel + 1) chain scope es).run ctx =
      ScriptShell.evalArgs ctx (fuel + 1) chain scope es := by
  cases es with
  | nil => simp only [Course.evalArgs, ScriptShell.evalArgs, run_pure]
  | cons e es =>
    simp only [Course.evalArgs, ScriptShell.evalArgs, run_bind, h.eval, h.evalArgs, run_pure]

theorem call_succ (h : Exact ctx fuel) (chain : CallChain) (scope : Scope) (callee : Value)
    (vs : List Value) (p : Pos) :
    (Course.call ctx.canLoad (fuel + 1) chain scope callee vs p).run ctx =
      ScriptShell.call ctx (fuel + 1) chain scope callee vs p := by
  simp only [Course.call, ScriptShell.call, run]
  congr 1
  funext _
  cases callee with
  | builtin b => exact run_orFailAt ctx chain p (b.apply vs)
  | function f =>
    simp only []
    split
    · rfl
    · split
      · rfl
      · simp only [run, run_bind, run_pure]
        congr 1
        funext w w'
        change EStateM.bind _ _ _ = EStateM.bind _ _ _
        rw [EStateM.bind, EStateM.bind, ← h.execBlock, within]
        cases ScriptShell.execBlock ctx fuel (chain.enter p f) f.definition.body _ <;> rfl
  | _ => rfl

theorem exec_succ (h : Exact ctx fuel) (chain : CallChain) (s : Stmt) :
    Has ctx (ScriptShell.execStmt ctx (fuel + 1) chain s)
      (Course.exec ctx.canLoad (fuel + 1) chain s) := by
  cases s with
  | pass =>
    simp only [Course.exec, ScriptShell.execStmt]
    exact (Has.pure Flow.next).poll_bind
  | expr e p =>
    simp only [Course.exec, ScriptShell.execStmt, ← h.eval]
    exact (Has.inScope_bind fun _ => .pure Flow.next).poll_bind
  | assign name e p =>
    simp only [Course.exec, ScriptShell.execStmt, ← h.eval]
    exact (Has.inScope_bind fun v => .bindName_bind (.pure Flow.next)).poll_bind
  | define name params body p =>
    simp only [Course.exec, ScriptShell.execStmt]
    exact (Has.new_bind fun f => .bindName_bind (.pure Flow.next)).poll_bind
  | return_ e p =>
    cases e with
    | none =>
      simp only [Course.exec, ScriptShell.execStmt]
      exact (Has.pure (Flow.return_ .none)).poll_bind
    | some e =>
      simp only [Course.exec, ScriptShell.execStmt, ← h.eval]
      exact (Has.inScope_bind fun v => .pure (Flow.return_ v)).poll_bind
  | if_ cond thenPart elsePart p =>
    simp only [Course.exec, ScriptShell.execStmt, ← h.eval]
    exact (Has.inScope_bind fun v : Value =>
      h.execBlock chain (if v.truth then thenPart else elsePart)).poll_bind
  | while_ cond body p =>
    simp only [Course.exec, ScriptShell.execStmt]
    exact (h.execLoop chain cond body).poll_bind
  | load module imports p =>
    simp only [Course.exec, ScriptShell.execStmt, ← run_loadModule]
    exact (Has.onWorld_bind fun exports => .bindImports_bind (.pure Flow.next)).poll_bind

theorem execBlock_succ (h : Exact ctx fuel) (chain : CallChain) (ss : List Stmt) :
    Has ctx (ScriptShell.execBlock ctx (fuel + 1) chain ss)
      (Course.execBlock ctx.canLoad (fuel + 1) chain ss) := by
  cases ss with
  | nil =>
    simp only [Course.execBlock, ScriptShell.execBlock]
    exact Has.pure Flow.next
  | cons s ss =>
    simp only [Course.execBlock, ScriptShell.execBlock]
    refine (h.exec chain s).bind fun flow => ?_
    cases flow with
    | next => exact h.execBlock chain ss
    | return_ v => exact Has.pure (Flow.return_ v)

theorem execLoop_succ (h : Exact ctx fuel) (chain : CallChain) (cond : Expr) (body : List Stmt) :
    Has ctx (ScriptShell.execLoop ctx (fuel + 1) chain cond body)
      (Course.execLoop ctx.canLoad (fuel + 1) chain cond body) := by
  simp only [Course.execLoop, ScriptShell.execLoop, ← h.eval]
  refine Has.inScope_bind fun v => ?_
  by_cases hv : v.truth
  · simp only [hv, if_true]
    refine (h.execBlock chain body).bind fun flow => ?_
    cases flow with
    | next => exact (h.execLoop chain cond body).poll_bind
    | return_ v => exact Has.pure (Flow.return_ v)
  · simp only [hv]
    exact Has.pure Flow.next

theorem succ (h : Exact ctx fuel) : Exact ctx (fuel + 1) where
  eval := h.eval_succ
  evalArgs := h.evalArgs_succ
  call := h.call_succ
  exec := h.exec_succ
  execBlock := h.execBlock_succ
  execLoop := h.execLoop_succ

end Exact

theorem exact (ctx : Context) (fuel : Nat) : Exact ctx fuel := by
  induction fuel with
  | zero => exact .zero
  | succ fuel ih => exact ih.succ

end Course

/-- Running the course of an expression is evaluating it. -/
theorem eval_eq_run (ctx : Context) (fuel : Nat) (chain : CallChain) (scope : Scope) (e : Expr) :
    eval ctx fuel chain scope e = (Course.eval ctx.canLoad fuel chain scope e).run ctx :=
  ((Course.exact ctx fuel).eval chain scope e).symm

theorem drop_execBlock (ctx : Context) (fuel : Nat) (chain : CallChain) (ss : List Stmt)
    (scope : Scope) (w : World) :
    Course.drop (execBlock ctx fuel chain ss ⟨scope, w⟩) =
      (Course.execBlock ctx.canLoad fuel chain ss scope).run ctx w :=
  (Course.exact ctx fuel).execBlock chain ss scope w

end ScriptShell
