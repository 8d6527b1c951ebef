import ScriptShell.Session

/-!
# ScriptShell.Proofs.Eval.Allowance

Allowances of steps. What does not use its allowance up does the same with a greater one, whatever
it leaves behind included.

* `Extends`: a computation does what another one does, unless that uses its allowance up.
* `Extended`: every evaluation extends those with smaller allowances, by induction on the allowance.
* `Session.evaluate_mono`, `Session.perform_mono`: so does the evaluation of a unit.
-/

namespace ScriptShell

/-- `y` does what `x` does, unless `x` uses its allowance up. -/
def Extends {σ α : Type} (y x : EStateM Halt σ α) : Prop :=
  ∀ s, y s = x s ∨ ∃ s', x s = .error .outOfFuel s'

namespace Extends

variable {σ α β : Type}

theorem refl (x : EStateM Halt σ α) : Extends x x := fun _ => .inl rfl

theorem outOfFuel (y : EStateM Halt σ α) : Extends y (throw .outOfFuel) := fun s => .inr ⟨s, rfl⟩

theorem bind {y x : EStateM Halt σ α} {g f : α → EStateM Halt σ β} (hx : Extends y x)
    (hf : ∀ a, Extends (g a) (f a)) : Extends (y >>= g) (x >>= f) := by
  intro s
  change EStateM.bind _ _ _ = EStateM.bind _ _ _ ∨ ∃ s', EStateM.bind _ _ _ = _
  rw [EStateM.bind, EStateM.bind]
  rcases hx s with heq | ⟨s', hs⟩
  · rw [heq]
    cases x s with
    | ok a s' => exact hf a s'
    | error e s' => exact .inl rfl
  · exact .inr ⟨s', by rw [hs]⟩

theorem onWorld {y x : EvalM α} (h : Extends y x) :
    Extends (ScriptShell.onWorld y) (ScriptShell.onWorld x) := by
  intro m
  simp only [ScriptShell.onWorld]
  rcases h m.world with heq | ⟨w, hw⟩
  · exact .inl (by rw [heq])
  · exact .inr ⟨{ m with world := w }, by rw [hw]⟩

theorem inScope {y x : Scope → EvalM α} (h : ∀ scope, Extends (y scope) (x scope)) :
    Extends (ScriptShell.inScope y) (ScriptShell.inScope x) :=
  fun m => (h m.scope).onWorld m

theorem within {y x : ExecM α} (scope : Scope) (h : Extends y x) :
    Extends (ScriptShell.within scope y) (ScriptShell.within scope x) := by
  intro w
  simp only [ScriptShell.within]
  rcases h ⟨scope, w⟩ with heq | ⟨m, hm⟩
  · exact .inl (by rw [heq])
  · exact .inr ⟨m.world, by rw [hm]⟩

theorem load {execute execute' : String → EvalM (Globals Value)}
    (h : ∀ m, Extends (execute' m) (execute m)) (module : String) :
    Extends (ScriptShell.load execute' module) (ScriptShell.load execute module) := by
  intro w
  simp only [ScriptShell.load]
  cases w.cache.get? module with
  | some e => cases e <;> exact .inl rfl
  | none =>
    rcases h module (w.record module .pending) with heq | ⟨w', hw⟩
    · exact .inl (by rw [heq])
    · exact .inr ⟨w', by rw [hw]⟩

end Extends

/-- The evaluations with one allowance extend those with another. -/
structure Extended (ctx : Context) (fuel fuel' : Nat) : Prop where
  eval : ∀ chain scope e,
    Extends (eval ctx fuel' chain scope e) (eval ctx fuel chain scope e)
  evalArgs : ∀ chain scope es,
    Extends (evalArgs ctx fuel' chain scope es) (evalArgs ctx fuel chain scope es)
  call : ∀ chain scope f vs p,
    Extends (call ctx fuel' chain scope f vs p) (call ctx fuel chain scope f vs p)
  execStmt : ∀ chain s, Extends (execStmt ctx fuel' chain s) (execStmt ctx fuel chain s)
  execBlock : ∀ chain ss, Extends (execBlock ctx fuel' chain ss) (execBlock ctx fuel chain ss)
  execLoop : ∀ chain cond body,
    Extends (execLoop ctx fuel' chain cond body) (execLoop ctx fuel chain cond body)
  loadModule : ∀ m, Extends (loadModule ctx fuel' m) (loadModule ctx fuel m)
  execFile : ∀ file m, Extends (execFile ctx fuel' file m) (execFile ctx fuel file m)

namespace Extended

variable {ctx : Context} {fuel fuel' : Nat}

theorem zero (fuel' : Nat) : Extended ctx 0 fuel' where
  eval _ _ _ := by rw [ScriptShell.eval.eq_def ctx 0]; exact .outOfFuel _
  evalArgs _ _ _ := by rw [ScriptShell.evalArgs.eq_def ctx 0]; exact .outOfFuel _
  call _ _ _ _ _ := by rw [ScriptShell.call.eq_def ctx 0]; exact .outOfFuel _
  execStmt _ _ := by rw [ScriptShell.execStmt.eq_def ctx 0]; exact .outOfFuel _
  execBlock _ _ := by rw [ScriptShell.execBlock.eq_def ctx 0]; exact .outOfFuel _
  execLoop _ _ _ := by rw [ScriptShell.execLoop.eq_def ctx 0]; exact .outOfFuel _
  loadModule _ := by rw [ScriptShell.loadModule.eq_def ctx 0]; exact .outOfFuel _
  execFile _ _ := by rw [ScriptShell.execFile.eq_def ctx 0]; exact .outOfFuel _

section Succ

variable (h : Extended ctx fuel fuel')
include h

theorem eval_succ (chain : CallChain) (scope : Scope) (e : Expr) :
    Extends (ScriptShell.eval ctx (fuel' + 1) chain scope e)
      (ScriptShell.eval ctx (fuel + 1) chain scope e) := by
  cases e with
  | unary op e p =>
    simp only [ScriptShell.eval]
    exact (h.eval chain scope e).bind fun v => .refl _
  | binary op l r p =>
    cases op
    case and =>
      simp only [ScriptShell.eval]
      refine (h.eval chain scope l).bind fun v => ?_
      split
      · exact h.eval chain scope r
      · exact .refl _
    case or =>
      simp only [ScriptShell.eval]
      refine (h.eval chain scope l).bind fun v => ?_
      split
      · exact .refl _
      · exact h.eval chain scope r
    all_goals
      simp only [ScriptShell.eval]
      exact (h.eval chain scope l).bind fun v => (h.eval chain scope r).bind fun v' => .refl _
  | call f args p =>
    simp only [ScriptShell.eval]
    exact (h.eval chain scope f).bind fun v => (h.evalArgs chain scope args).bind fun vs =>
      h.call chain scope v vs p
  | _ =>
    simp only [ScriptShell.eval]
    exact .refl _

theorem evalArgs_succ (chain : CallChain) (scope : Scope) (es : List Expr) :
    Extends (ScriptShell.evalArgs ctx (fuel' + 1) chain scope es)
      (ScriptShell.evalArgs ctx (fuel + 1) chain scope es) := by
  cases es with
  | nil =>
    simp only [ScriptShell.evalArgs]
    exact .refl _
  | cons e es =>
    simp only [ScriptShell.evalArgs]
    exact (h.eval chain scope e).bind fun v => (h.evalArgs chain scope es).bind fun vs => .refl _

theorem call_succ (chain : CallChain) (scope : Scope) (f : Value) (vs : List Value) (p : Pos) :
    Extends (ScriptShell.call ctx (fuel' + 1) chain scope f vs p)
      (ScriptShell.call ctx (fuel + 1) chain scope f vs p) := by
  simp only [ScriptShell.call]
  refine (Extends.refl _).bind fun _ => ?_
  cases f with
  | function f =>
    dsimp only
    split
    · exact .refl _
    · split
      · exact .refl _
      · exact (Extends.refl _).bind fun w =>
          ((h.execBlock _ f.definition.body).within _).bind fun flow => .refl _
  | _ => exact .refl _

theorem execStmt_succ (chain : CallChain) (s : Stmt) :
    Extends (ScriptShell.execStmt ctx (fuel' + 1) chain s)
      (ScriptShell.execStmt ctx (fuel + 1) chain s) := by
  simp only [ScriptShell.execStmt]
  refine (Extends.refl _).bind fun _ => ?_
  cases s with
  | expr e p => exact (Extends.inScope fun scope => h.eval chain scope e).bind fun _ => .refl _
  | assign x e p => exact (Extends.inScope fun scope => h.eval chain scope e).bind fun v => .refl _
  | return_ e p =>
    cases e with
    | none => exact .refl _
    | some e => exact (Extends.inScope fun scope => h.eval chain scope e).bind fun v => .refl _
  | if_ cond thenPart elsePart p =>
    exact (Extends.inScope fun scope => h.eval chain scope cond).bind fun v => h.execBlock chain _
  | while_ cond body p => exact h.execLoop chain cond body
  | load m is p => exact (h.loadModule m).onWorld.bind fun g => .refl _
  | _ => exact .refl _

theorem execBlock_succ (chain : CallChain) (ss : List Stmt) :
    Extends (ScriptShell.execBlock ctx (fuel' + 1) chain ss)
      (ScriptShell.execBlock ctx (fuel + 1) chain ss) := by
  cases ss with
  | nil =>
    simp only [ScriptShell.execBlock]
    exact .refl _
  | cons s ss =>
    simp only [ScriptShell.execBlock]
    refine (h.execStmt chain s).bind fun flow => ?_
    cases flow with
    | next => exact h.execBlock chain ss
    | return_ v => exact .refl _

theorem execLoop_succ (chain : CallChain) (cond : Expr) (body : List Stmt) :
    Extends (ScriptShell.execLoop ctx (fuel' + 1) chain cond body)
      (ScriptShell.execLoop ctx (fuel + 1) chain cond body) := by
  simp only [ScriptShell.execLoop]
  refine (Extends.inScope fun scope => h.eval chain scope cond).bind fun v => ?_
  split
  · refine (h.execBlock chain body).bind fun flow => ?_
    cases flow with
    | next => exact (Extends.refl _).bind fun _ => h.execLoop chain cond body
    | return_ v => exact .refl _
  · exact .refl _

theorem loadModule_succ (m : String) :
    Extends (ScriptShell.loadModule ctx (fuel' + 1) m)
      (ScriptShell.loadModule ctx (fuel + 1) m) := by
  simp only [ScriptShell.loadModule]
  split
  · exact .load (fun m => h.execFile m m) m
  · exact .refl _

theorem execFile_succ (file m : String) :
    Extends (ScriptShell.execFile ctx (fuel' + 1) file m)
      (ScriptShell.execFile ctx (fuel + 1) file m) := by
  simp only [ScriptShell.execFile]
  split
  · exact .refl _
  · split
    · exact .refl _
    · rename_i p _
      intro w
      rcases h.execBlock (.root file) p ⟨.ofGlobals .empty, w⟩ with heq | ⟨s, hs⟩
      · exact .inl (by dsimp only; rw [heq])
      · exact .inr ⟨s.world, by dsimp only; rw [hs]⟩

theorem succ : Extended ctx (fuel + 1) (fuel' + 1) where
  eval := h.eval_succ
  evalArgs := h.evalArgs_succ
  call := h.call_succ
  execStmt := h.execStmt_succ
  execBlock := h.execBlock_succ
  execLoop := h.execLoop_succ
  loadModule := h.loadModule_succ
  execFile := h.execFile_succ

end Succ

end Extended

theorem extended (ctx : Context) {fuel fuel' : Nat} (hle : fuel ≤ fuel') :
    Extended ctx fuel fuel' := by
  induction fuel generalizing fuel' with
  | zero => exact .zero fuel'
  | succ fuel ih =>
    obtain ⟨fuel', rfl⟩ : ∃ k, fuel' = k + 1 := ⟨fuel' - 1, by omega⟩
    exact (ih (by omega)).succ

theorem evaluate_extends (ctx : Context) {fuel fuel' : Nat} (hle : fuel ≤ fuel') (file : String)
    (g : Globals Value) (e : Expr) :
    Extends (evaluate ctx fuel' file g e) (evaluate ctx fuel file g e) :=
  (Extends.refl _).bind fun _ => (extended ctx hle).eval _ _ e

theorem execute_extends (ctx : Context) {fuel fuel' : Nat} (hle : fuel ≤ fuel') (file : String)
    (g : Globals Value) (p : Program) (w : World) :
    execute ctx fuel' file g p w = execute ctx fuel file g p w ∨
      (execute ctx fuel file g p w).outcome = .error .outOfFuel := by
  rcases (extended ctx hle).execBlock (.root file) p ⟨.ofGlobals g, w⟩ with heq | ⟨m, hm⟩
  · exact .inl (by rw [execute, heq]; rfl)
  · exact .inr (by rw [execute, hm])

namespace Session

variable {s t : Session} {u : InputUnit} {fuel fuel' : Nat}

/-- The evaluation of a unit that ends does the same with a greater allowance. -/
theorem evaluate_mono {r : Except Error (Option Value)} (hle : fuel ≤ fuel')
    (h : s.evaluate fuel u = some (r, t)) : s.evaluate fuel' u = some (r, t) := by
  cases u with
  | expr e =>
    simp only [evaluate] at h ⊢
    rcases evaluate_extends _ hle s.config.filename s.globals e s.world.begin with heq | ⟨w, hw⟩
    · rwa [heq]
    · rw [hw] at h
      cases h
  | stmts p =>
    simp only [evaluate] at h ⊢
    rcases execute_extends _ hle s.config.filename s.globals p s.world.begin with heq | hout
    · rwa [heq]
    · rw [hout] at h
      cases h

theorem perform_mono (hle : fuel ≤ fuel') (h : s.perform fuel u = some t) :
    s.perform fuel' u = some t := by
  unfold perform at h ⊢
  cases he : s.evaluate fuel u with
  | none =>
    rw [he] at h
    cases h
  | some r =>
    rw [he] at h
    rw [evaluate_mono hle he]
    exact h

end Session

end ScriptShell
