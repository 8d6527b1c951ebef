import ScriptShell.Proofs.Eval.Stack

/-!
# ScriptShell.Proofs.Eval.Traceback

What a failure that the program raises says of the active calls. The single stack that is changed in
place and the chain that is passed on lead to the same traceback, and it leads from the outermost
statements, from call to call, to the operation that fails.

* `Operation.Raises`: what can fail, and how. `Expr.Has`, `Program.Has`: where it stands.
* `Traces`: frames that lead from a piece of code to an operation that fails.
* `Handed`: what stops a program from outside.
* `Mirrors`: a computation with the stack does what one with the chain does.
* `mirrored`: so does every evaluation, by induction on the allowance.
* `tracebacks_exact`: the main theorem.
-/

namespace ScriptShell

/-! ## Operations -/

/-- What can fail at a place of a program. -/
inductive Operation where
  | name (id : String)
  | unary (op : UnaryOp)
  | binary (op : BinaryOp)
  | call
  | bind (name : String)
  | load (module : String) (imports : List Import)

/-- The operation can fail like this. -/
inductive Operation.Raises : Operation → EvalFault → Prop where
  | undefined {id : String} : Raises (.name id) (.undefined id)
  | unary {op : UnaryOp} {v : Value} {fault : EvalFault} (h : op.apply v = .error fault) :
      Raises (.unary op) fault
  | binary {op : BinaryOp} {v v' : Value} {fault : EvalFault} (h : op.apply v v' = .error fault) :
      Raises (.binary op) fault
  | builtin {b : Builtin} {args : List Value} {fault : EvalFault}
      (h : b.apply args = .error fault) : Raises .call fault
  | arity {d : Definition} {n : Nat} (h : n ≠ d.params.length) :
      Raises .call (.wrongArity d.name d.params.length n)
  | tooDeep : Raises .call .callsTooDeep
  | notCallable {v : Value} : Raises .call (.notCallable v.typeName)
  | frozen {g : Globals Value} {name : String} {v : Value} {fault : EvalFault}
      (h : g.set name v = .error fault) : Raises (.bind name) fault
  | notExported {module : String} {is : List Import} {i : Import} (h : i ∈ is) :
      Raises (.load module is) (.notExported i.exported module)
  | notFound {module : String} {is : List Import} {i : Import} (h : i ∈ is) :
      Raises (.load module is) (.notFound i.exported module)
  | import_ {module : String} {is : List Import} {i : Import} {fault : EvalFault} (h : i ∈ is)
      (hr : Raises (.bind i.target) fault) : Raises (.load module is) fault

/-- The operations of a piece of code, with their places. -/
abbrev Sites := Operation → Pos → Prop

/-- The operation stands in the expression, at the place. The operators that do not need their
second operand cannot fail. -/
inductive Expr.Has : Expr → Operation → Pos → Prop where
  | name {id : String} {p : Pos} : Has (.name id p) (.name id) p
  | unary {op : UnaryOp} {e : Expr} {p : Pos} : Has (.unary op e p) (.unary op) p
  | operand {op : UnaryOp} {e : Expr} {p q : Pos} {o : Operation} (h : Has e o q) :
      Has (.unary op e p) o q
  | binary {op : BinaryOp} {l r : Expr} {p : Pos} (hand : op ≠ .and) (hor : op ≠ .or) :
      Has (.binary op l r p) (.binary op) p
  | left {op : BinaryOp} {l r : Expr} {p q : Pos} {o : Operation} (h : Has l o q) :
      Has (.binary op l r p) o q
  | right {op : BinaryOp} {l r : Expr} {p q : Pos} {o : Operation} (h : Has r o q) :
      Has (.binary op l r p) o q
  | call {f : Expr} {args : List Expr} {p : Pos} : Has (.call f args p) .call p
  | callee {f : Expr} {args : List Expr} {p q : Pos} {o : Operation} (h : Has f o q) :
      Has (.call f args p) o q
  | argument {f e : Expr} {args : List Expr} {p q : Pos} {o : Operation} (he : e ∈ args)
      (h : Has e o q) : Has (.call f args p) o q

/-- The operation stands in the statement, at the place, and not in the body of a function. -/
inductive Stmt.Has : Stmt → Operation → Pos → Prop where
  | expr {e : Expr} {p q : Pos} {o : Operation} (h : e.Has o q) : Has (.expr e p) o q
  | value {name : String} {e : Expr} {p q : Pos} {o : Operation} (h : e.Has o q) :
      Has (.assign name e p) o q
  | assign {name : String} {e : Expr} {p : Pos} : Has (.assign name e p) (.bind name) p
  | define {name : String} {params : List String} {body : List Stmt} {p : Pos} :
      Has (.define name params body p) (.bind name) p
  | return_ {e : Expr} {p q : Pos} {o : Operation} (h : e.Has o q) : Has (.return_ (some e) p) o q
  | ifCond {cond : Expr} {thenPart elsePart : List Stmt} {p q : Pos} {o : Operation}
      (h : cond.Has o q) : Has (.if_ cond thenPart elsePart p) o q
  | thenPart {cond : Expr} {thenPart elsePart : List Stmt} {s : Stmt} {p q : Pos} {o : Operation}
      (hs : s ∈ thenPart) (h : Has s o q) : Has (.if_ cond thenPart elsePart p) o q
  | elsePart {cond : Expr} {thenPart elsePart : List Stmt} {s : Stmt} {p q : Pos} {o : Operation}
      (hs : s ∈ elsePart) (h : Has s o q) : Has (.if_ cond thenPart elsePart p) o q
  | whileCond {cond : Expr} {body : List Stmt} {p q : Pos} {o : Operation} (h : cond.Has o q) :
      Has (.while_ cond body p) o q
  | whileBody {cond : Expr} {body : List Stmt} {s : Stmt} {p q : Pos} {o : Operation}
      (hs : s ∈ body) (h : Has s o q) : Has (.while_ cond body p) o q
  | load {module : String} {is : List Import} {p : Pos} :
      Has (.load module is p) (.load module is) p

/-- The operation stands in one of the statements, at the place. -/
def Program.Has (ss : Program) (o : Operation) (p : Pos) : Prop := ∃ s ∈ ss, s.Has o p

/-! ## Tracebacks -/

/-- The frames lead from the code of a function, which stands in the file, to an operation that
fails like this: each but the last is at a call, and the next one is of a function, in the file and
under the name of its definition; the last one is at the operation. -/
inductive Traces (fault : EvalFault) : Sites → String → String → List Frame → Prop where
  | last {code : Sites} {file function : String} {o : Operation} {p : Pos}
      (h : code o p) (hr : o.Raises fault) : Traces fault code file function [⟨⟨file, p⟩, function⟩]
  | call {code : Sites} {file function : String} {p : Pos} {f : Function}
      {inner : List Frame} (h : code .call p)
      (hinner : Traces fault (Program.Has f.definition.body) f.file f.definition.name inner) :
      Traces fault code file function (⟨⟨file, p⟩, function⟩ :: inner)

/-! ## The stack and the chain -/

/-- The stack is that of the chain, with the running function at some place. -/
def Stacked.Shows {σ : Type} (s : Stacked σ) (c : CallChain) : Prop :=
  ∃ p, s.frames = c.frame p :: c.callers

namespace Stacked.Shows

variable {σ : Type} {s : Stacked σ} {c : CallChain}

theorem frames_moveTo (h : s.Shows c) (p : Pos) :
    (s.moveTo p).frames = c.frame p :: c.callers := by
  obtain ⟨q, hq⟩ := h
  rw [moveTo, hq, List.modifyHead_cons]
  rfl

theorem enter (h : s.Shows c) (p : Pos) (f : Function) : (s.enter p f).Shows (c.enter p f) :=
  ⟨f.definition.pos, congrArg (List.cons _) (h.frames_moveTo p)⟩

theorem leave {p : Pos} {f : Function} (h : s.Shows (c.enter p f)) : s.leave.Shows c := by
  obtain ⟨q, hq⟩ := h
  exact ⟨p, congrArg List.tail hq⟩

theorem length_frames (h : s.Shows c) : s.frames.length = c.depth := by
  obtain ⟨q, hq⟩ := h
  rw [hq]
  rfl

theorem runningFile (h : s.Shows c) : s.runningFile = c.file := by
  obtain ⟨q, hq⟩ := h
  rw [Stacked.runningFile, hq]
  rfl

theorem start (file : String) (s : σ) : (Stacked.start file s).Shows (.root file) :=
  ⟨⟨0, 0⟩, rfl⟩

end Stacked.Shows

/-- What stops a program from outside: the allowance, a poll, or a load. -/
inductive Handed (ctx : Context) : Halt → Prop where
  | outOfFuel : Handed ctx .outOfFuel
  | cancelled : Handed ctx (.failed .cancelled)
  | load {fuel : Nat} {m : String} {w w' : World} {h : Halt}
      (hload : loadModule ctx fuel m w = .error h w') : Handed ctx h

/-- A computation with the chain came to this, and one with the stack, in a function with the given
code, to that. -/
inductive Agrees (ctx : Context) (c : CallChain) (code : Sites) {σ α : Type} :
    EStateM.Result Halt σ α → EStateM.Result Stop (Stacked σ) α → Prop where
  | ok {a : α} {s : Stacked σ} (h : s.Shows c) : Agrees ctx c code (.ok a s.state) (.ok a s)
  | raised {fault : EvalFault} {inner : List Frame} {s : Stacked σ}
      (h : Traces fault code c.file c.function inner)
      (hlen : (c.callers.reverse ++ inner).length ≤ maxCalls) :
      Agrees ctx c code
        (.error (.failed (.eval fault.message (some (c.callers.reverse ++ inner)))) s.state)
        (.error (.raised fault (c.callers.reverse ++ inner)) s)
  | passed {h : Halt} {s : Stacked σ} (hhanded : Handed ctx h) :
      Agrees ctx c code (.error h s.state) (.error (.passed h) s)

/-- The computation with the stack does what the one with the chain does. -/
def Mirrors (ctx : Context) (c : CallChain) (code : Sites) {σ α : Type} (x : EStateM Halt σ α)
    (y : StackM σ α) : Prop :=
  ∀ s : Stacked σ, s.Shows c → Agrees ctx c code (x s.state) (y s)

namespace Mirrors

variable {ctx : Context} {c : CallChain} {code : Sites} {σ α β : Type}

theorem pure (a : α) : Mirrors ctx c code (Pure.pure a : EStateM Halt σ α) (Pure.pure a) :=
  fun _ hs => .ok hs

theorem outOfFuel : Mirrors ctx c code (throw .outOfFuel : EStateM Halt σ α)
    (throw (.passed .outOfFuel)) :=
  fun _ _ => .passed .outOfFuel

theorem bind {x : EStateM Halt σ α} {y : StackM σ α} {f : α → EStateM Halt σ β}
    {g : α → StackM σ β} (hx : Mirrors ctx c code x y) (hf : ∀ a, Mirrors ctx c code (f a) (g a)) :
    Mirrors ctx c code (x >>= f) (y >>= g) := by
  intro s hs
  change Agrees ctx c code (EStateM.bind _ _ _) (EStateM.bind _ _ _)
  rw [EStateM.bind, EStateM.bind]
  have h := hx s hs
  generalize x s.state = r at h ⊢
  generalize y s = r' at h ⊢
  cases h with
  | ok h => exact hf _ _ h
  | raised h hlen => exact .raised h hlen
  | passed h => exact .passed h

theorem get_bind {f : σ → EStateM Halt σ α} {g : Stacked σ → StackM σ α}
    (h : ∀ s, s.Shows c → Mirrors ctx c code (f s.state) (g s)) :
    Mirrors ctx c code (get >>= f) (get >>= g) :=
  fun s hs => h s hs s hs

/-- The stack is looked at. -/
theorem look {x : EStateM Halt σ α} {g : Stacked σ → StackM σ α}
    (h : ∀ s, s.Shows c → Mirrors ctx c code x (g s)) : Mirrors ctx c code x (get >>= g) :=
  fun s hs => h s hs s hs

theorem raise {o : Operation} {p : Pos} {fault : EvalFault} (ho : code o p) (hr : o.Raises fault)
    (hdepth : c.depth ≤ maxCalls) :
    Mirrors ctx c code (failAt c p fault : EStateM Halt σ α) (Stacked.raise p fault) := by
  intro s hs
  have hmoved : (s.moveTo p).frames.reverse = c.callers.reverse ++ [c.frame p] := by
    rw [hs.frames_moveTo, List.reverse_cons]
  have hstack : c.stackAt p = c.callers.reverse ++ [c.frame p] := List.reverse_cons
  rw [failAt, Stacked.raise, hmoved, hstack]
  refine .raised (s := s.moveTo p) (.last ho hr) ?_
  rw [List.length_append, List.length_reverse]
  exact hdepth

theorem orRaise {o : Operation} {p : Pos} (ho : code o p) {r : Except EvalFault α}
    (hr : ∀ fault, r = .error fault → o.Raises fault) (hdepth : c.depth ≤ maxCalls) :
    Mirrors ctx c code (orFailAt c p r : EStateM Halt σ α) (Stacked.orRaise p r) := by
  cases r with
  | ok a => exact .pure a
  | error fault => exact .raise ho (hr fault rfl) hdepth

theorem ask {x : EvalM α} (hx : ∀ w h w', x w = .error h w' → Handed ctx h) :
    Mirrors ctx c code x (Stacked.ask x) := by
  intro s hs
  rw [Stacked.ask]
  cases hr : x s.state with
  | ok a w => exact .ok (s := s.put w) hs
  | error h w => exact .passed (s := s.put w) (hx _ _ _ hr)

theorem poll : Mirrors ctx c code (poll ctx) (Stacked.ask (ScriptShell.poll ctx)) := by
  refine .ask fun w h w' hw => ?_
  rw [ScriptShell.poll] at hw
  dsimp only at hw
  split at hw <;> cases hw
  exact .cancelled

theorem newFunction (d : Definition) (file : String) :
    Mirrors ctx c code (newFunction d file) (Stacked.ask (ScriptShell.newFunction d file)) :=
  .ask nofun

theorem loadModule (fuel : Nat) (m : String) :
    Mirrors ctx c code (loadModule ctx fuel m) (Stacked.ask (ScriptShell.loadModule ctx fuel m)) :=
  .ask fun _ _ _ => .load

theorem onWorld {x : EvalM α} {y : StackM World α} (h : Mirrors ctx c code x y) :
    Mirrors ctx c code (ScriptShell.onWorld x) (Stacked.onWorld y) := by
  intro s hs
  rw [ScriptShell.onWorld, Stacked.onWorld]
  have h := h (s.put s.state.world) hs
  change Agrees ctx c code (x s.state.world) _ at h
  generalize x s.state.world = r at h ⊢
  generalize y (s.put s.state.world) = r' at h ⊢
  cases h with
  | @ok a t h => exact .ok (σ := Machine) (s := t.put { s.state with world := t.state }) h
  | @raised _ _ t h hlen => exact .raised (s := t.put { s.state with world := t.state }) h hlen
  | @passed _ t h => exact .passed (s := t.put { s.state with world := t.state }) h

theorem inScope {x : Scope → EvalM α} {y : Scope → StackM World α}
    (h : ∀ scope, Mirrors ctx c code (x scope) (y scope)) :
    Mirrors ctx c code (ScriptShell.inScope x) (Stacked.inScope y) :=
  fun s hs => (h s.state.scope).onWorld s hs

theorem bindName {o : Operation} {p : Pos} {name : String} (v : Value) (ho : code o p)
    (hr : ∀ fault, Operation.Raises (.bind name) fault → o.Raises fault)
    (hdepth : c.depth ≤ maxCalls) :
    Mirrors ctx c code (ScriptShell.bindName c p name v) (Stacked.bindName p name v) := by
  intro s hs
  rw [ScriptShell.bindName, Stacked.bindName]
  cases hbind : s.state.scope.bind name v with
  | ok scope => exact .ok (s := s.put { s.state with scope := scope }) hs
  | error fault =>
    refine raise ho (hr fault ?_) hdepth s hs
    rw [Scope.bind] at hbind
    split at hbind
    · cases hbind
    · split at hbind
      · cases hbind
      · cases hbind
        exact .frozen ‹_›

theorem bindImports {p : Pos} {module : String} (exports : Globals Value) {all : List Import}
    (ho : code (.load module all) p) (hdepth : c.depth ≤ maxCalls) {is : List Import}
    (his : is ⊆ all) : Mirrors ctx c code (ScriptShell.bindImports c p module exports is)
      (Stacked.bindImports p module exports is) := by
  induction is with
  | nil => exact .pure ()
  | cons i is ih =>
    obtain ⟨hi, his⟩ := List.cons_subset.1 his
    rw [ScriptShell.bindImports, Stacked.bindImports]
    split
    · exact .raise ho (.notExported hi) hdepth
    · cases exports.get? i.exported with
      | none => exact .raise ho (.notFound hi) hdepth
      | some v => exact (bindName v ho (fun _ => .import_ hi) hdepth).bind fun _ => ih his

/-- The body of a function is run with a longer chain, and with a longer stack. -/
theorem calling {p : Pos} {f : Function} {x : EvalM α} {y : StackM World α} (ho : code .call p)
    (h : Mirrors ctx (c.enter p f) (Program.Has f.definition.body) x y) :
    Mirrors ctx c code x (Stacked.calling p f y) := by
  intro s hs
  have h := h (s.enter p f) (hs.enter p f)
  change Agrees _ _ _ (x s.state) _ at h
  rw [Stacked.calling]
  generalize x s.state = r at h ⊢
  generalize y (s.enter p f) = r' at h ⊢
  cases h with
  | @ok a t h => exact .ok (s := t.leave) h.leave
  | @raised fault inner t h hlen =>
    have hinner : (c.enter p f).callers.reverse ++ inner =
        c.callers.reverse ++ (c.frame p :: inner) := by
      rw [CallChain.enter, List.reverse_cons, List.append_assoc]
      rfl
    -- the waiting function belongs to the chain inside the call, and to the trace outside it
    rw [hinner] at hlen ⊢
    exact .raised (s := t.leave) (.call ho h) hlen
  | @passed _ t h => exact .passed (s := t.leave) h

theorem within {x : ExecM α} {y : StackM Machine α} (scope : Scope) (h : Mirrors ctx c code x y) :
    Mirrors ctx c code (ScriptShell.within scope x) (Stacked.within scope y) := by
  intro s hs
  rw [ScriptShell.within, Stacked.within]
  have h := h (s.put ⟨scope, s.state⟩) hs
  change Agrees ctx c code (x ⟨scope, s.state⟩) _ at h
  generalize x ⟨scope, s.state⟩ = r at h ⊢
  generalize y (s.put ⟨scope, s.state⟩) = r' at h ⊢
  cases h with
  | @ok a t h => exact .ok (s := t.put t.state.world) h
  | @raised _ _ t h hlen => exact .raised (s := t.put t.state.world) h hlen
  | @passed _ t h => exact .passed (s := t.put t.state.world) h

end Mirrors

/-! ## Every evaluation -/

/-- With the allowance, the evaluations with the stack do what those with the chain do, in code that
holds the operations of what is evaluated. -/
structure Mirrored (ctx : Context) (fuel : Nat) : Prop where
  eval : ∀ {c code}, c.depth ≤ maxCalls → ∀ scope e, (∀ o p, e.Has o p → code o p) →
    Mirrors ctx c code (eval ctx fuel c scope e) (Stacked.eval ctx fuel scope e)
  evalArgs : ∀ {c code}, c.depth ≤ maxCalls → ∀ scope es,
    (∀ e ∈ es, ∀ o p, e.Has o p → code o p) →
    Mirrors ctx c code (evalArgs ctx fuel c scope es) (Stacked.evalArgs ctx fuel scope es)
  call : ∀ {c code}, c.depth ≤ maxCalls → ∀ scope f vs p, code .call p →
    Mirrors ctx c code (call ctx fuel c scope f vs p) (Stacked.call ctx fuel scope f vs p)
  execStmt : ∀ {c code}, c.depth ≤ maxCalls → ∀ s, (∀ o p, s.Has o p → code o p) →
    Mirrors ctx c code (execStmt ctx fuel c s) (Stacked.execStmt ctx fuel s)
  execBlock : ∀ {c code}, c.depth ≤ maxCalls → ∀ ss, (∀ o p, Program.Has ss o p → code o p) →
    Mirrors ctx c code (execBlock ctx fuel c ss) (Stacked.execBlock ctx fuel ss)
  execLoop : ∀ {c code}, c.depth ≤ maxCalls → ∀ cond body, (∀ o p, cond.Has o p → code o p) →
    (∀ o p, Program.Has body o p → code o p) →
    Mirrors ctx c code (execLoop ctx fuel c cond body) (Stacked.execLoop ctx fuel cond body)
  loadModule : ∀ m, Stacked.loadModule ctx fuel m = loadModule ctx fuel m
  execFile : ∀ file m w,
    execFile ctx fuel file m w = Stop.report (Stacked.execFile ctx fuel file m w)

theorem CallChain.depth_root_le (file : String) : (root file).depth ≤ maxCalls :=
  show 1 ≤ 100 by decide

/-- In a file, an evaluation of the code came to this with the chain, and to that with the stack: to
the same. What the program raises is traced to an operation, and what else stops it is handed
over. -/
structure Reported (ctx : Context) (file : String) (code : Sites) {σ α : Type}
    (r : EStateM.Result Halt σ α) (r' : EStateM.Result Stop σ α) : Prop where
  same : r = Stop.report r'
  raised : ∀ fault stack s, r' = .error (.raised fault stack) s →
    Traces fault code file "<toplevel>" stack ∧ stack.length ≤ maxCalls
  passed : ∀ h s, r' = .error (.passed h) s → Handed ctx h

/-- Outside every function the stack is the whole traceback. -/
theorem Agrees.root {ctx : Context} {file : String} {code : Sites} {σ α : Type}
    {r : EStateM.Result Halt σ α} {r' : EStateM.Result Stop (Stacked σ) α}
    (h : Agrees ctx (.root file) code r r') : Reported ctx file code r (Stacked.drop r') := by
  cases h with
  | ok h => exact ⟨rfl, nofun, nofun⟩
  | raised h hlen =>
    refine ⟨rfl, ?_, nofun⟩
    rintro _ _ _ ⟨⟩
    exact ⟨h, hlen⟩
  | passed h =>
    refine ⟨rfl, nofun, ?_⟩
    rintro _ _ ⟨⟩
    exact h

namespace Mirrored

variable {ctx : Context} {fuel : Nat}

theorem zero : Mirrored ctx 0 where
  eval _ _ _ _ := by rw [ScriptShell.eval.eq_def, Stacked.eval.eq_def]; exact .outOfFuel
  evalArgs _ _ _ _ := by
    rw [ScriptShell.evalArgs.eq_def, Stacked.evalArgs.eq_def]; exact .outOfFuel
  call _ _ _ _ _ _ := by rw [ScriptShell.call.eq_def, Stacked.call.eq_def]; exact .outOfFuel
  execStmt _ _ _ := by
    rw [ScriptShell.execStmt.eq_def, Stacked.execStmt.eq_def]; exact .outOfFuel
  execBlock _ _ _ := by
    rw [ScriptShell.execBlock.eq_def, Stacked.execBlock.eq_def]; exact .outOfFuel
  execLoop _ _ _ _ _ := by
    rw [ScriptShell.execLoop.eq_def, Stacked.execLoop.eq_def]; exact .outOfFuel
  loadModule _ := by rw [ScriptShell.loadModule.eq_def, Stacked.loadModule.eq_def]
  execFile _ _ _ := by rw [ScriptShell.execFile.eq_def, Stacked.execFile.eq_def]; rfl

section Succ

variable {c : CallChain} {code : Sites} (h : Mirrored ctx fuel)
  (hdepth : c.depth ≤ maxCalls)
include h hdepth

theorem eval_succ (scope : Scope) (e : Expr) (he : ∀ o p, e.Has o p → code o p) :
    Mirrors ctx c code (ScriptShell.eval ctx (fuel + 1) c scope e)
      (Stacked.eval ctx (fuel + 1) scope e) := by
  cases e with
  | name id p =>
    simp only [ScriptShell.eval, Stacked.eval]
    cases scope.lookup id with
    | some v => exact .pure v
    | none => exact .raise (he _ _ .name) .undefined hdepth
  | unary op e p =>
    simp only [ScriptShell.eval, Stacked.eval]
    refine (h.eval hdepth scope e fun o q ho => he o q (.operand ho)).bind fun v => ?_
    exact .orRaise (he _ _ .unary) (fun _ => .unary) hdepth
  | binary op l r p =>
    have hl := h.eval hdepth scope l fun o q ho => he o q (.left ho)
    have hr := h.eval hdepth scope r fun o q ho => he o q (.right ho)
    cases op
    case and =>
      simp only [ScriptShell.eval, Stacked.eval]
      refine hl.bind fun v => ?_
      split
      · exact hr
      · exact .pure v
    case or =>
      simp only [ScriptShell.eval, Stacked.eval]
      refine hl.bind fun v => ?_
      split
      · exact .pure v
      · exact hr
    all_goals
      simp only [ScriptShell.eval, Stacked.eval]
      refine hl.bind fun v => hr.bind fun v' => ?_
      exact .orRaise (he _ _ (.binary (by decide) (by decide))) (fun _ => .binary) hdepth
  | call f args p =>
    simp only [ScriptShell.eval, Stacked.eval]
    refine (h.eval hdepth scope f fun o q ho => he o q (.callee ho)).bind fun v => ?_
    refine (h.evalArgs hdepth scope args fun e hmem o q ho => he o q (.argument hmem ho)).bind
      fun vs => ?_
    exact h.call hdepth scope v vs p (he _ _ .call)
  | _ =>
    simp only [ScriptShell.eval, Stacked.eval]
    exact .pure _

theorem evalArgs_succ (scope : Scope) (es : List Expr)
    (hes : ∀ e ∈ es, ∀ o p, e.Has o p → code o p) :
    Mirrors ctx c code (ScriptShell.evalArgs ctx (fuel + 1) c scope es)
      (Stacked.evalArgs ctx (fuel + 1) scope es) := by
  cases es with
  | nil =>
    simp only [ScriptShell.evalArgs, Stacked.evalArgs]
    exact .pure _
  | cons e es =>
    obtain ⟨he, hes⟩ := List.forall_mem_cons.1 hes
    simp only [ScriptShell.evalArgs, Stacked.evalArgs]
    exact (h.eval hdepth scope e he).bind fun v =>
      (h.evalArgs hdepth scope es hes).bind fun vs => .pure _

theorem call_succ (scope : Scope) (f : Value) (vs : List Value) (p : Pos) (hp : code .call p) :
    Mirrors ctx c code (ScriptShell.call ctx (fuel + 1) c scope f vs p)
      (Stacked.call ctx (fuel + 1) scope f vs p) := by
  simp only [ScriptShell.call, Stacked.call]
  refine Mirrors.poll.bind fun _ => ?_
  cases f with
  | function f =>
    dsimp only
    split
    · exact .raise hp (.arity ‹_›) hdepth
    · -- the stack is as high as the chain is long, so both find the same room for the call
      by_cases hfull : maxCalls ≤ c.depth
      · rw [if_pos hfull]
        refine .look fun s hs => ?_
        rw [if_pos (by rw [hs.length_frames]; exact hfull)]
        exact .raise hp .tooDeep hdepth
      · rw [if_neg hfull]
        refine .get_bind fun s hs => ?_
        rw [if_neg (by rw [hs.length_frames]; exact hfull)]
        have hbody := h.execBlock (c := c.enter p f) (Nat.not_le.1 hfull) f.definition.body
          fun _ _ ho => ho
        exact (hbody.within _).calling hp |>.bind fun flow => .pure _
  | builtin b => exact .orRaise hp (fun _ => .builtin) hdepth
  | _ => exact .raise hp .notCallable hdepth

theorem execStmt_succ (s : Stmt) (hs : ∀ o p, s.Has o p → code o p) :
    Mirrors ctx c code (ScriptShell.execStmt ctx (fuel + 1) c s)
      (Stacked.execStmt ctx (fuel + 1) s) := by
  simp only [ScriptShell.execStmt, Stacked.execStmt]
  refine Mirrors.poll.onWorld.bind fun _ => ?_
  cases s with
  | pass => exact .pure _
  | expr e p =>
    exact (Mirrors.inScope fun scope => h.eval hdepth scope e fun o q ho => hs o q (.expr ho)).bind
      fun _ => .pure _
  | assign x e p =>
    refine (Mirrors.inScope fun scope => h.eval hdepth scope e fun o q ho =>
      hs o q (.value ho)).bind fun v => ?_
    exact (Mirrors.bindName v (hs _ _ .assign) (fun _ hr => hr) hdepth).bind fun _ => .pure _
  | define x params body p =>
    -- the file of a new function is read off the stack
    refine .look fun m hm => ?_
    rw [hm.runningFile]
    refine (Mirrors.newFunction _ _).onWorld.bind fun f => ?_
    exact (Mirrors.bindName _ (hs _ _ .define) (fun _ hr => hr) hdepth).bind fun _ => .pure _
  | return_ e p =>
    cases e with
    | none => exact .pure _
    | some e =>
      exact (Mirrors.inScope fun scope => h.eval hdepth scope e fun o q ho =>
        hs o q (.return_ ho)).bind fun v => .pure _
  | if_ cond thenPart elsePart p =>
    refine (Mirrors.inScope fun scope => h.eval hdepth scope cond fun o q ho =>
      hs o q (.ifCond ho)).bind fun v => ?_
    refine h.execBlock hdepth _ fun o q ho => ?_
    obtain ⟨s, hmem, ho⟩ := ho
    split at hmem
    · exact hs o q (.thenPart hmem ho)
    · exact hs o q (.elsePart hmem ho)
  | while_ cond body p =>
    refine h.execLoop hdepth cond body (fun o q ho => hs o q (.whileCond ho)) fun o q ho => ?_
    obtain ⟨s, hmem, ho⟩ := ho
    exact hs o q (.whileBody hmem ho)
  | load m is p =>
    dsimp only
    rw [h.loadModule m]
    refine (Mirrors.loadModule fuel m).onWorld.bind fun exports => ?_
    exact (Mirrors.bindImports exports (hs _ _ .load) hdepth (List.Subset.refl is)).bind
      fun _ => .pure _

theorem execBlock_succ (ss : List Stmt) (hss : ∀ o p, Program.Has ss o p → code o p) :
    Mirrors ctx c code (ScriptShell.execBlock ctx (fuel + 1) c ss)
      (Stacked.execBlock ctx (fuel + 1) ss) := by
  cases ss with
  | nil =>
    simp only [ScriptShell.execBlock, Stacked.execBlock]
    exact .pure _
  | cons s ss =>
    simp only [ScriptShell.execBlock, Stacked.execBlock]
    refine (h.execStmt hdepth s fun o p ho => hss o p ⟨s, List.mem_cons_self, ho⟩).bind
      fun flow => ?_
    cases flow with
    | next =>
      refine h.execBlock hdepth ss fun o p ho => ?_
      obtain ⟨s, hmem, ho⟩ := ho
      exact hss o p ⟨s, List.mem_cons_of_mem _ hmem, ho⟩
    | return_ v => exact .pure _

theorem execLoop_succ (cond : Expr) (body : List Stmt) (hcond : ∀ o p, cond.Has o p → code o p)
    (hbody : ∀ o p, Program.Has body o p → code o p) :
    Mirrors ctx c code (ScriptShell.execLoop ctx (fuel + 1) c cond body)
      (Stacked.execLoop ctx (fuel + 1) cond body) := by
  simp only [ScriptShell.execLoop, Stacked.execLoop]
  refine (Mirrors.inScope fun scope => h.eval hdepth scope cond hcond).bind fun v => ?_
  split
  · refine (h.execBlock hdepth body hbody).bind fun flow => ?_
    cases flow with
    | next =>
      exact Mirrors.poll.onWorld.bind fun _ => h.execLoop hdepth cond body hcond hbody
    | return_ v => exact .pure _
  · exact .pure _

end Succ

theorem loadModule_succ (h : Mirrored ctx fuel) (m : String) :
    Stacked.loadModule ctx (fuel + 1) m = ScriptShell.loadModule ctx (fuel + 1) m := by
  simp only [Stacked.loadModule, ScriptShell.loadModule]
  have hfile : (fun m w => Stop.report (Stacked.execFile ctx fuel m m w)) =
      fun m => ScriptShell.execFile ctx fuel m m := by
    funext m w
    exact (h.execFile m m w).symm
  rw [hfile]

theorem execFile_succ (h : Mirrored ctx fuel) (file m : String) (w : World) :
    ScriptShell.execFile ctx (fuel + 1) file m w =
      Stop.report (Stacked.execFile ctx (fuel + 1) file m w) := by
  simp only [ScriptShell.execFile, Stacked.execFile]
  cases ctx.library.read m with
  | error r => rfl
  | ok text =>
    dsimp only
    cases parseProgram m text with
    | error e => rfl
    | ok p =>
      dsimp only
      have hroot := (h.execBlock (CallChain.depth_root_le file) p (fun _ _ ho => ho) _
        (.start file ⟨.ofGlobals .empty, w⟩)).root.same
      change ScriptShell.execBlock ctx fuel (.root file) p ⟨.ofGlobals .empty, w⟩ = _ at hroot
      rw [hroot]
      cases Stacked.execBlock ctx fuel p (.start file ⟨.ofGlobals .empty, w⟩) <;> rfl

end Mirrored

theorem mirrored (ctx : Context) (fuel : Nat) : Mirrored ctx fuel := by
  induction fuel with
  | zero => exact .zero
  | succ fuel h =>
    exact ⟨h.eval_succ, h.evalArgs_succ, h.call_succ, h.execStmt_succ, h.execBlock_succ,
      h.execLoop_succ, h.loadModule_succ, h.execFile_succ⟩

/-! ## What is asked for from outside -/

/-- How an execution ended that came to this. -/
def Executed.ofBlock : EStateM.Result Halt Machine Flow → Executed
  | .ok _ m => ⟨.ok (), m.scope.globals, m.world⟩
  | .error e m => ⟨.error e, m.scope.globals, m.world⟩

section
variable (ctx : Context) (fuel : Nat) (file : String) (g : Globals Value) (w : World)

theorem evaluate_agrees (e : Expr) : Agrees ctx (.root file) e.Has (evaluate ctx fuel file g e w)
    ((Stacked.ask (poll ctx) >>= fun _ => Stacked.eval ctx fuel (.ofGlobals g) e)
      (.start file w)) := by
  have heval := (mirrored ctx fuel).eval (CallChain.depth_root_le file) (.ofGlobals g) e
    fun _ _ ho => ho
  exact (Mirrors.poll.bind fun _ => heval) _ (.start file w)

theorem execBlock_agrees (p : Program) : Agrees ctx (.root file) p.Has
    (execBlock ctx fuel (.root file) p ⟨.ofGlobals g, w⟩)
    (Stacked.execBlock ctx fuel p (.start file ⟨.ofGlobals g, w⟩)) :=
  (mirrored ctx fuel).execBlock (CallChain.depth_root_le file) p (fun _ _ ho => ho) _
    (.start file _)

theorem execFile_reported {m text : String} {p : Program} (hread : ctx.library.read m = .ok text)
    (hparse : parseProgram m text = .ok p) : Reported ctx file p.Has (execFile ctx fuel file m w)
      (Stacked.execFile ctx fuel file m w) := by
  have hsame := (mirrored ctx fuel).execFile file m w
  cases fuel with
  | zero =>
    refine ⟨hsame, ?_, ?_⟩ <;> rw [Stacked.execFile.eq_def]
    · exact nofun
    · rintro _ _ ⟨⟩
      exact .outOfFuel
  | succ fuel =>
    obtain ⟨-, hraised, hpassed⟩ := (execBlock_agrees ctx fuel file .empty w p).root
    refine ⟨hsame, ?_, ?_⟩
    all_goals
      simp only [Stacked.execFile, hread, hparse]
      generalize Stacked.execBlock ctx fuel p (.start file ⟨.ofGlobals .empty, w⟩) = r
        at hraised hpassed
      rcases r with ⟨flow, s⟩ | ⟨e, s⟩
    · exact nofun
    · rintro fault stack _ ⟨⟩
      exact hraised fault stack s.state rfl
    · exact nofun
    · rintro h _ ⟨⟩
      exact hpassed h s.state rfl

end

theorem Stacked.call_of_full (ctx : Context) (fuel : Nat) (scope : Scope) (p : Pos) {f : Function}
    {args : List Value} {s : Stacked World} (hargs : args.length = f.definition.params.length)
    (hfull : maxCalls ≤ s.frames.length) : call ctx (fuel + 1) scope (.function f) args p s =
      (ask (poll ctx) >>= fun _ => raise p .callsTooDeep) s := by
  simp only [call, hargs, ne_eq, not_true_eq_false, if_false]
  change EStateM.bind _ _ s = EStateM.bind _ _ s
  rw [EStateM.bind, EStateM.bind, ask]
  cases poll ctx s.state with
  | ok _ w =>
    change (if maxCalls ≤ s.frames.length then _ else _ : StackM World Value) (s.put w) = _
    rw [if_pos hfull]
  | error h w => rfl

/-- The stack that is changed in place and the chain that is passed on lead to the same outcome of
every evaluation. What the program raises shows the active calls: the frames lead from the outermost
statements, from call to call, to the operation that fails. There are at most `maxCalls`, and where
there are as many a call of a function, with as many arguments as it has parameters, fails for that,
unless its poll stops the evaluation. -/
theorem tracebacks_exact (ctx : Context) (fuel : Nat) (file : String) (w : World) :
    (∀ g e, Reported ctx file e.Has (evaluate ctx fuel file g e w)
      (Stacked.evaluate ctx fuel file g e w)) ∧
    (∀ g p, ∃ r, execute ctx fuel file g p w = .ofBlock r ∧
      Reported ctx file p.Has r (Stacked.execute ctx fuel file g p w)) ∧
    (∀ m text p, ctx.library.read m = .ok text → parseProgram m text = .ok p →
      Reported ctx file p.Has (execFile ctx fuel file m w)
        (Stacked.execFile ctx fuel file m w)) ∧
    maxCalls = 100 ∧ EvalFault.callsTooDeep.message = "call stack exceeds maximum depth" ∧
    ∀ scope f args p (s : Stacked World), args.length = f.definition.params.length →
      s.frames.length = maxCalls → Stacked.call ctx (fuel + 1) scope (.function f) args p s =
        (Stacked.ask (poll ctx) >>= fun _ => Stacked.raise p .callsTooDeep) s := by
  refine ⟨fun g e => (evaluate_agrees ctx fuel file g w e).root, fun g p => ?_,
    fun m text p => execFile_reported ctx fuel file w, rfl, rfl,
    fun scope f args p s hargs hfull => ?_⟩
  · refine ⟨_, ?_, (execBlock_agrees ctx fuel file g w p).root⟩
    rw [execute]
    cases execBlock ctx fuel (.root file) p ⟨.ofGlobals g, w⟩ <;> rfl
  · exact Stacked.call_of_full ctx fuel scope p hargs (Nat.le_of_eq hfull.symm)

/-- A function and two calls of it: the first returns, the second fails. -/
def refusal : Program :=
  [.define "f" ["x"] [.return_ (some (.binary .or (.binary .eq (.name "x" ⟨2, 10⟩) (.str "")
      ⟨2, 12⟩) (.call (.name "fail" ⟨2, 21⟩) [.name "x" ⟨2, 26⟩] ⟨2, 25⟩) ⟨2, 18⟩)) ⟨2, 3⟩] ⟨1, 1⟩,
    .expr (.call (.name "f" ⟨3, 1⟩) [.call (.name "f" ⟨3, 3⟩) [.str ""] ⟨3, 4⟩] ⟨3, 2⟩) ⟨3, 1⟩]

/-- The calls that are active then. -/
def refusalStack : List Frame := [⟨⟨"t", ⟨3, 2⟩⟩, "<toplevel>"⟩, ⟨⟨"t", ⟨2, 25⟩⟩, "f"⟩]

theorem tracebacks_exact_refusal :
    (execute ⟨.ofTexts .empty, true, none⟩ 20 "t" .empty refusal .empty).outcome =
      .error (.failed (.eval "fail: True" (some refusalStack))) ∧
    Traces (.failed "True") refusal.Has "t" "<toplevel>" refusalStack ∧
    refusalStack.length ≤ maxCalls := by
  have hraised : (match Stacked.execute ⟨.ofTexts .empty, true, none⟩ 20 "t" .empty refusal
      .empty with
    | .error (.raised (.failed text) stack) _ => some (text, stack)
    | _ => none) = some ("True", refusalStack) := by decide +kernel
  obtain ⟨r, hr, h⟩ :=
    (tracebacks_exact ⟨.ofTexts .empty, true, none⟩ 20 "t" .empty).2.1 .empty refusal
  generalize Stacked.execute ⟨.ofTexts .empty, true, none⟩ 20 "t" .empty refusal .empty = x
    at hraised h
  rcases x with ⟨_, _⟩ | ⟨fault | _, m⟩
  · cases hraised
  · cases fault <;> cases hraised
    rw [hr, h.same]
    exact ⟨rfl, h.raised _ _ m rfl⟩
  · cases hraised

end ScriptShell
