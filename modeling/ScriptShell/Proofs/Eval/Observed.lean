import ScriptShell.Proofs.Eval.Stopped

/-!
# ScriptShell.Proofs.Eval.Observed

The execution of a program under observation: at every poll the globals of the program are written
down as they are then, and nothing else is different.

* `watching`, `binding`: a part of a statement that polls, and one that binds names.
* `observeStmt`, `observeBlock`, `observeLoop`: the execution.
* `Shows`: an execution is what has been observed, up to the poll that stops it.
* `stops_cleanly`: the main theorem.
-/

namespace ScriptShell

/-- A machine, and the globals that it had at every poll so far. -/
structure Observed where
  machine : Machine
  seen : List (Globals Value)

abbrev ObserveM := EStateM Halt Observed

section
variable {α β : Type}

/-- What was observed of a computation, however it ended. -/
def Observed.end_ : EStateM.Result Halt Observed α → Observed
  | .ok _ o => o
  | .error _ o => o

/-- A computation that leaves the scope alone: all its polls see the same globals. -/
def watching (x : Scope → EvalM α) : ObserveM α := fun o =>
  let r := x o.machine.scope o.machine.world
  let polls := (left r).engine.polls - o.machine.world.engine.polls
  let o' : Observed :=
    ⟨⟨o.machine.scope, left r⟩, o.seen ++ List.replicate polls o.machine.scope.globals⟩
  match r with
  | .ok a _ => .ok a o'
  | .error e _ => .error e o'

/-- A computation that does not poll. -/
def binding (x : ExecM α) : ObserveM α := fun o =>
  match x o.machine with
  | .ok a m => .ok a { o with machine := m }
  | .error e m => .error e { o with machine := m }

end

mutual

def observeStmt (ctx : Context) : Nat → CallChain → Stmt → ObserveM Flow
  | 0, _, _ => throw .outOfFuel
  | fuel + 1, chain, s => do
    watching fun _ => poll ctx
    match s with
    | .pass => pure .next
    | .expr e _ =>
      let _ ← watching fun scope => eval ctx fuel chain scope e
      pure .next
    | .assign name e p =>
      let v ← watching fun scope => eval ctx fuel chain scope e
      binding (bindName chain p name v)
      pure .next
    | .define name params body p =>
      let f ← watching fun _ => newFunction ⟨name, params, body, p⟩ chain.file
      binding (bindName chain p name (.function f))
      pure .next
    | .return_ none _ => pure (.return_ .none)
    | .return_ (some e) _ =>
      let v ← watching fun scope => eval ctx fuel chain scope e
      pure (.return_ v)
    | .if_ cond thenPart elsePart _ =>
      let v ← watching fun scope => eval ctx fuel chain scope cond
      observeBlock ctx fuel chain (if v.truth then thenPart else elsePart)
    | .while_ cond body _ => observeLoop ctx fuel chain cond body
    | .load module imports p =>
      let exports ← watching fun _ => loadModule ctx fuel module
      binding (bindImports chain p module exports imports)
      pure .next

def observeBlock (ctx : Context) : Nat → CallChain → List Stmt → ObserveM Flow
  | 0, _, _ => throw .outOfFuel
  | _ + 1, _, [] => pure .next
  | fuel + 1, chain, s :: ss => do
    match ← observeStmt ctx fuel chain s with
    | .return_ v => pure (.return_ v)
    | .next => observeBlock ctx fuel chain ss

def observeLoop (ctx : Context) : Nat → CallChain → Expr → List Stmt → ObserveM Flow
  | 0, _, _, _ => throw .outOfFuel
  | fuel + 1, chain, cond, body => do
    let v ← watching fun scope => eval ctx fuel chain scope cond
    if v.truth then
      match ← observeBlock ctx fuel chain body with
      | .return_ v => pure (.return_ v)
      | .next => do
        watching fun _ => poll ctx
        observeLoop ctx fuel chain cond body
    else pure .next

end

/-- The globals of a program at its polls, in their order. -/
def observe (ctx : Context) (fuel : Nat) (file : String) (g : Globals Value) (p : Program)
    (w : World) : List (Globals Value) :=
  (Observed.end_ (observeBlock ctx fuel (.root file) p ⟨⟨.ofGlobals g, w⟩, []⟩)).seen

/-! ## What was observed is what happens -/

/-- Every poll has been observed. -/
def Observed.Even (o : Observed) : Prop :=
  o.seen.length = o.machine.world.engine.polls

/-- An execution came to this, and the same execution under observation, not stopped, to that. -/
inductive Shown (ctx : Context) {α : Type} : EStateM.Result Halt Machine α →
    EStateM.Result Halt Observed α → Prop where
  | ok {a : α} {o : Observed} (h : ctx.cancelledAt o.machine.world.engine.polls = false) :
      Shown ctx (.ok a o.machine) (.ok a o)
  | error {e : Halt} {o : Observed} (h : ctx.cancelledAt o.machine.world.engine.polls = false) :
      Shown ctx (.error e o.machine) (.error e o)
  | stopped {m : Machine} {r : EStateM.Result Halt Observed α}
      (h : ctx.cancelFrom = some m.world.engine.polls)
      (hseen : (Observed.end_ r).seen[m.world.engine.polls - 1]? = some m.scope.globals) :
      Shown ctx (.error (.failed .cancelled) m) r

/-- The first computation, which may be stopped, shows what the second has observed. -/
structure Shows (ctx : Context) {α : Type} (x : ExecM α) (y : ObserveM α) : Prop where
  even : ∀ {o : Observed}, o.Even → (Observed.end_ (y o)).Even
  grows : ∀ o : Observed, o.seen <+: (Observed.end_ (y o)).seen
  shown : ∀ {o : Observed}, o.Even → ctx.cancelledAt o.machine.world.engine.polls = false →
    Shown ctx (x o.machine) (y o)

/-- The computation leaves the shared state alone. -/
def Binds {α : Type} (x : ExecM α) : Prop :=
  ∀ m, (∃ a scope, x m = .ok a ⟨scope, m.world⟩) ∨ ∃ e scope, x m = .error e ⟨scope, m.world⟩

theorem binds_bindName (chain : CallChain) (p : Pos) (name : String) (v : Value) :
    Binds (bindName chain p name v) := by
  intro m
  rw [bindName]
  cases m.scope.bind name v with
  | ok scope => exact .inl ⟨(), scope, rfl⟩
  | error f => exact .inr ⟨_, m.scope, rfl⟩

theorem binds_bindImports (chain : CallChain) (p : Pos) (module : String)
    (exports : Globals Value) (is : List Import) :
    Binds (bindImports chain p module exports is) := by
  induction is with
  | nil => exact fun m => .inl ⟨(), m.scope, rfl⟩
  | cons i is ih =>
    intro m
    rw [bindImports]
    split
    · exact .inr ⟨_, m.scope, rfl⟩
    · cases exports.get? i.exported with
      | none => exact .inr ⟨_, m.scope, rfl⟩
      | some v =>
        dsimp only
        change (∃ a scope, EStateM.bind _ _ m = _) ∨ ∃ e scope, EStateM.bind _ _ m = _
        rw [EStateM.bind]
        rcases binds_bindName chain p i.target v m with ⟨_, scope, hm⟩ | ⟨e, scope, hm⟩
        · rw [hm]
          exact ih _
        · rw [hm]
          exact .inr ⟨e, scope, rfl⟩

namespace Shows

variable {ctx : Context} {α β : Type}

theorem pure (a : α) : Shows ctx (pure a) (pure a) where
  even h := h
  grows _ := List.prefix_rfl
  shown _ hw := .ok hw

theorem throw (e : Halt) : Shows ctx (throw e : ExecM α) (throw e : ObserveM α) where
  even h := h
  grows _ := List.prefix_rfl
  shown _ hw := .error hw

theorem bind {x : ExecM α} {y : ObserveM α} {f : α → ExecM β} {g : α → ObserveM β}
    (hx : Shows ctx x y) (hf : ∀ a, Shows ctx (f a) (g a)) : Shows ctx (x >>= f) (y >>= g) := by
  refine ⟨fun {o} ho => ?_, fun o => ?_, fun {o} ho hw => ?_⟩
  · have h := hx.even ho
    change (Observed.end_ (EStateM.bind y g o)).Even
    rw [EStateM.bind]
    cases hy : y o with
    | ok a o' =>
      rw [hy] at h
      exact (hf a).even h
    | error e o' =>
      rw [hy] at h
      exact h
  · have h := hx.grows o
    change o.seen <+: (Observed.end_ (EStateM.bind y g o)).seen
    rw [EStateM.bind]
    cases hy : y o with
    | ok a o' =>
      rw [hy] at h
      exact h.trans ((hf a).grows o')
    | error e o' =>
      rw [hy] at h
      exact h
  · have h := hx.shown ho hw
    have heven := hx.even ho
    change Shown ctx (EStateM.bind x f o.machine) (EStateM.bind y g o)
    rw [EStateM.bind, EStateM.bind]
    generalize x o.machine = r at h ⊢
    generalize y o = r' at h heven ⊢
    cases h with
    | ok h => exact (hf _).shown heven h
    | error h => exact .error h
    | stopped h hseen =>
      refine .stopped h ?_
      cases r' with
      | ok a o' =>
        obtain ⟨later, hlater⟩ := (hf a).grows o'
        rw [Observed.end_] at hseen
        rw [← hlater, List.getElem?_append_left (List.getElem?_eq_some_iff.1 hseen).1]
        exact hseen
      | error e o' => exact hseen

theorem watching (c : Scope → Course α) :
    Shows ctx (inScope fun scope => (c scope).run ctx)
      (ScriptShell.watching fun scope => (c scope).run ctx.free) := by
  have hle : ∀ o : Observed, o.machine.world.engine.polls ≤
      (left ((c o.machine.scope).run ctx.free o.machine.world)).engine.polls :=
    fun o => ((c o.machine.scope).onward ctx.free o.machine.world).polls_le
  have hend : ∀ o, Observed.end_ (ScriptShell.watching (fun scope => (c scope).run ctx.free) o) =
      ⟨⟨o.machine.scope, left ((c o.machine.scope).run ctx.free o.machine.world)⟩, o.seen ++
        List.replicate ((left ((c o.machine.scope).run ctx.free o.machine.world)).engine.polls -
          o.machine.world.engine.polls) o.machine.scope.globals⟩ := by
    intro o
    rw [ScriptShell.watching]
    cases (c o.machine.scope).run ctx.free o.machine.world <;> rfl
  refine ⟨fun {o} ho => ?_, fun o => ?_, fun {o} ho hw => ?_⟩
  · rw [hend, Observed.Even, List.length_append, List.length_replicate, ho]
    exact Nat.add_sub_cancel' (hle o)
  · rw [hend]
    exact List.prefix_append _ _
  · have hpolls := hle o
    have hend := hend o
    have hcut := (c o.machine.scope).cut hw
    change Shown ctx (inScope (fun scope => (c scope).run ctx) o.machine) _
    generalize hr' : ScriptShell.watching (fun scope => (c scope).run ctx.free) o = r' at hend ⊢
    rw [ScriptShell.watching] at hr'
    rw [inScope, onWorld]
    generalize (c o.machine.scope).run ctx o.machine.world = r at hcut ⊢
    generalize (c o.machine.scope).run ctx.free o.machine.world = s at hcut hend hr' hpolls
    subst hr'
    cases hcut with
    | same h =>
      cases r with
      | ok a w => exact Shown.ok (o := ⟨⟨o.machine.scope, w⟩, _⟩) h
      | error e w => exact Shown.error (o := ⟨⟨o.machine.scope, w⟩, _⟩) h
    | @stopped w _ h hsle =>
      refine .stopped h ?_
      have hlt : o.machine.world.engine.polls < w.engine.polls := by
        simpa only [Context.cancelledAt, h, decide_eq_false_iff_not, not_le] using hw
      change (Observed.end_ _).seen[w.engine.polls - 1]? = some o.machine.scope.globals
      rw [hend, List.getElem?_append_right (by rw [ho]; omega), ho, List.getElem?_replicate,
        if_pos (by omega)]

theorem binding {x : ExecM α} (hx : Binds x) : Shows ctx x (ScriptShell.binding x) := by
  refine ⟨fun {o} ho => ?_, fun o => ?_, fun {o} _ hw => ?_⟩
  all_goals
    rw [ScriptShell.binding]
    rcases hx o.machine with ⟨a, scope, hm⟩ | ⟨e, scope, hm⟩
    all_goals rw [hm]
  · exact ho
  · exact ho
  · exact List.prefix_rfl
  · exact List.prefix_rfl
  · exact Shown.ok (o := ⟨⟨scope, o.machine.world⟩, o.seen⟩) hw
  · exact Shown.error (o := ⟨⟨scope, o.machine.world⟩, o.seen⟩) hw

/-- The same for a computation of which the course is known. -/
theorem watching_of_run {x y : Scope → EvalM α} (c : Scope → Course α)
    (hx : ∀ scope, x scope = (c scope).run ctx) (hy : ∀ scope, y scope = (c scope).run ctx.free) :
    Shows ctx (inScope x) (ScriptShell.watching y) := by
  rw [funext hx, funext hy]
  exact .watching c

theorem poll : Shows ctx (onWorld (poll ctx)) (ScriptShell.watching fun _ => poll ctx.free) :=
  watching_of_run (fun _ => .poll (.value ())) (fun _ => (bind_pure _).symm)
    fun _ => (bind_pure _).symm

theorem newFunction (d : Definition) (file : String) : Shows ctx (onWorld (newFunction d file))
    (ScriptShell.watching fun _ => newFunction d file) :=
  watching_of_run (fun _ => .new d file .value) (fun _ => (bind_pure _).symm)
    fun _ => (bind_pure _).symm

theorem eval (fuel : Nat) (chain : CallChain) (e : Expr) :
    Shows ctx (inScope fun scope => eval ctx fuel chain scope e)
      (ScriptShell.watching fun scope => eval ctx.free fuel chain scope e) :=
  watching_of_run (fun scope => Course.eval ctx.canLoad fuel chain scope e)
    (fun scope => eval_eq_run ctx fuel chain scope e)
    fun scope => eval_eq_run ctx.free fuel chain scope e

theorem loadModule (fuel : Nat) (m : String) : Shows ctx (onWorld (loadModule ctx fuel m))
    (ScriptShell.watching fun _ => loadModule ctx.free fuel m) :=
  watching_of_run (fun _ => Course.loadModule ctx.canLoad fuel m)
    (fun _ => (Course.run_loadModule ctx fuel m).symm)
    fun _ => (Course.run_loadModule ctx.free fuel m).symm

end Shows

/-- With the allowance, statements are observed as they happen. -/
structure Observes (ctx : Context) (fuel : Nat) : Prop where
  stmt : ∀ chain s, Shows ctx (execStmt ctx fuel chain s) (observeStmt ctx.free fuel chain s)
  block : ∀ chain ss, Shows ctx (execBlock ctx fuel chain ss) (observeBlock ctx.free fuel chain ss)
  loop : ∀ chain cond body,
    Shows ctx (execLoop ctx fuel chain cond body) (observeLoop ctx.free fuel chain cond body)

namespace Observes

variable {ctx : Context} {fuel : Nat}

theorem zero : Observes ctx 0 where
  stmt _ _ := by
    simp only [execStmt, observeStmt]
    exact .throw .outOfFuel
  block _ _ := by
    simp only [execBlock, observeBlock]
    exact .throw .outOfFuel
  loop _ _ _ := by
    simp only [execLoop, observeLoop]
    exact .throw .outOfFuel

theorem stmt_succ (h : Observes ctx fuel) (chain : CallChain) (s : Stmt) :
    Shows ctx (execStmt ctx (fuel + 1) chain s) (observeStmt ctx.free (fuel + 1) chain s) := by
  simp only [execStmt, observeStmt]
  refine Shows.poll.bind fun _ => ?_
  cases s with
  | pass => exact .pure Flow.next
  | expr e _ => exact (Shows.eval fuel chain e).bind fun _ => .pure Flow.next
  | assign name e p =>
    refine (Shows.eval fuel chain e).bind fun v => ?_
    exact (Shows.binding (binds_bindName chain p name v)).bind fun _ => .pure Flow.next
  | define name params body p =>
    refine (Shows.newFunction ⟨name, params, body, p⟩ chain.file).bind fun f => ?_
    exact (Shows.binding (binds_bindName chain p name (.function f))).bind fun _ => .pure Flow.next
  | return_ e _ =>
    cases e with
    | none => exact .pure (Flow.return_ .none)
    | some e => exact (Shows.eval fuel chain e).bind fun v => .pure (Flow.return_ v)
  | if_ cond thenPart elsePart _ =>
    exact (Shows.eval fuel chain cond).bind fun v => h.block chain _
  | while_ cond body _ => exact h.loop chain cond body
  | load module imports p =>
    refine (Shows.loadModule fuel module).bind fun exports => ?_
    exact (Shows.binding (binds_bindImports chain p module exports imports)).bind fun _ =>
      .pure Flow.next

theorem block_succ (h : Observes ctx fuel) (chain : CallChain) (ss : List Stmt) :
    Shows ctx (execBlock ctx (fuel + 1) chain ss) (observeBlock ctx.free (fuel + 1) chain ss) := by
  cases ss with
  | nil =>
    simp only [execBlock, observeBlock]
    exact .pure Flow.next
  | cons s ss =>
    simp only [execBlock, observeBlock]
    refine (h.stmt chain s).bind fun flow => ?_
    cases flow with
    | next => exact h.block chain ss
    | return_ v => exact .pure (Flow.return_ v)

theorem loop_succ (h : Observes ctx fuel) (chain : CallChain) (cond : Expr) (body : List Stmt) :
    Shows ctx (execLoop ctx (fuel + 1) chain cond body)
      (observeLoop ctx.free (fuel + 1) chain cond body) := by
  simp only [execLoop, observeLoop]
  refine (Shows.eval fuel chain cond).bind fun v => ?_
  split
  · refine (h.block chain body).bind fun flow => ?_
    cases flow with
    | next => exact Shows.poll.bind fun _ => h.loop chain cond body
    | return_ v => exact .pure (Flow.return_ v)
  · exact .pure Flow.next

theorem succ (h : Observes ctx fuel) : Observes ctx (fuel + 1) :=
  ⟨h.stmt_succ, h.block_succ, h.loop_succ⟩

end Observes

theorem observes (ctx : Context) (fuel : Nat) : Observes ctx fuel := by
  induction fuel with
  | zero => exact .zero
  | succ fuel ih => exact ih.succ

/-- Without the observations. -/
def Observed.forget {α : Type} : EStateM.Result Halt Observed α → EStateM.Result Halt Machine α
  | .ok a o => .ok a o.machine
  | .error e o => .error e o.machine

/-- An execution that is left alone is the one that is observed. -/
theorem forget_observeBlock (ctx : Context) (fuel : Nat) (chain : CallChain) (ss : List Stmt)
    {o : Observed} (ho : o.Even) :
    Observed.forget (observeBlock ctx.free fuel chain ss o) =
      execBlock ctx.free fuel chain ss o.machine := by
  have hshown := ((observes ctx.free fuel).block chain ss).shown ho rfl
  change Shown ctx.free _ (observeBlock ctx.free fuel chain ss o) at hshown
  generalize execBlock ctx.free fuel chain ss o.machine = r at hshown ⊢
  generalize observeBlock ctx.free fuel chain ss o = r' at hshown ⊢
  cases hshown with
  | ok _ | error _ => rfl
  | stopped h _ => exact nomatch h

/-! ## Stopped at a poll -/

section
variable {ctx : Context} {file : String} {g : Globals Value} {w : World}

theorem evaluate_eq_run (ctx : Context) (fuel : Nat) (file : String) (g : Globals Value)
    (e : Expr) :
    evaluate ctx fuel file g e =
      (Course.poll (Course.eval ctx.canLoad fuel (.root file) (.ofGlobals g) e)).run ctx := by
  simp only [evaluate, Course.run, eval_eq_run]

/-- An evaluation that answered was left alone, or it was stopped. -/
theorem evaluate_cases {fuel : Nat} {e : Expr} {r : Except Error Value} {w' : World}
    (hw : ctx.cancelledAt w.engine.polls = false)
    (h : evaluate ctx fuel file g e w = answer r w') :
    (evaluate ctx.free fuel file g e w = answer r w' ∧
      ctx.cancelledAt w'.engine.polls = false) ∨
    (r = .error .cancelled ∧ ctx.cancelFrom = some w'.engine.polls ∧
      w'.engine.polls ≤ (left (evaluate ctx.free fuel file g e w)).engine.polls) := by
  have hcut : Cut ctx (answer r w') (evaluate ctx.free fuel file g e w) := by
    rw [← h, evaluate_eq_run, evaluate_eq_run]
    exact Course.cut _ hw
  generalize evaluate ctx.free fuel file g e w = r' at hcut ⊢
  generalize ha : answer r w' = a at hcut
  cases hcut with
  | same hpolls =>
    refine .inl ⟨rfl, ?_⟩
    rw [← ha, left_answer] at hpolls
    exact hpolls
  | @stopped w₁ _ hfrom hle =>
    have ha' : answer r w' = answer (.error .cancelled) w₁ := ha
    obtain ⟨rfl, rfl⟩ := answer_inj ha'
    exact .inr ⟨rfl, hfrom, hle⟩

/-- An execution was left alone, or it was stopped, and then it left the globals that the same
execution left alone has at the poll of that number. -/
theorem execute_cases (file : String) (g : Globals Value) (fuel : Nat) (p : Program)
    (hpolls : w.engine.polls = 0) (hw : ctx.cancelledAt w.engine.polls = false) :
    (execute ctx.free fuel file g p w = execute ctx fuel file g p w ∧
      ctx.cancelledAt (execute ctx fuel file g p w).world.engine.polls = false) ∨
    ((execute ctx fuel file g p w).outcome = .error (.failed .cancelled) ∧
      ctx.cancelFrom = some (execute ctx fuel file g p w).world.engine.polls ∧
      (observe ctx.free fuel file g p w)[(execute ctx fuel file g p w).world.engine.polls - 1]? =
        some (execute ctx fuel file g p w).globals) := by
  have heven : Observed.Even ⟨⟨.ofGlobals g, w⟩, []⟩ := hpolls.symm
  have hshown := ((observes ctx fuel).block (.root file) p).shown heven hw
  have hforget := forget_observeBlock ctx fuel (.root file) p heven
  dsimp only at hshown hforget
  rw [execute, execute, observe, ← hforget]
  generalize execBlock ctx fuel (.root file) p ⟨.ofGlobals g, w⟩ = r at hshown ⊢
  generalize observeBlock ctx.free fuel (.root file) p ⟨⟨.ofGlobals g, w⟩, []⟩ = r' at hshown ⊢
  cases hshown with
  | ok h => exact .inl ⟨rfl, h⟩
  | error h => exact .inl ⟨rfl, h⟩
  | stopped h hseen => exact .inr ⟨rfl, h, hseen⟩

theorem keeps_evaluate {fuel : Nat} {e : Expr} {r : Except Error Value} {w' : World}
    (h : evaluate ctx fuel file g e w = answer r w') : Keeps w w' := by
  rw [evaluate_eq_run] at h
  have honward := Course.onward (.poll (.eval ctx.canLoad fuel (.root file) (.ofGlobals g) e)) ctx w
  rw [h] at honward
  exact honward.keeps

theorem keeps_execute {fuel : Nat} {p : Program}
    (h : (execute ctx fuel file g p w).outcome ≠ .error .outOfFuel) :
    Keeps w (execute ctx fuel file g p w).world := by
  have honward := (Course.execBlock ctx.canLoad fuel (.root file) p (.ofGlobals g)).onward ctx w
  rw [← drop_execBlock] at honward
  unfold execute at h ⊢
  generalize execBlock ctx fuel (.root file) p ⟨.ofGlobals g, w⟩ = r at honward h ⊢
  rcases r with ⟨flow, m⟩ | ⟨e | _, m⟩
  · exact honward.keeps (r := .ok (flow, m.scope))
  · exact honward.keeps (r := .error e)
  · exact absurd rfl h

end

/-- The loader waits for no module and remembers of none that it was stopped. -/
def Hosted.Idle {α σ : Type} (s : Hosted α σ) : Prop :=
  ∀ m e, s.cache.get? m = some e → e ≠ .pending ∧ e ≠ .failed .cancelled

theorem Hosted.Idle.of_keeps {w w' : World} (hw : w.Idle) (h : Keeps w w') : w'.Idle := by
  intro m e he
  cases hm : w.cache.get? m with
  | none => exact h.absent hm he
  | some e' =>
    cases (h.entry hm).symm.trans he
    exact hw m e hm

section
variable (lib : Library) (canLoad : Bool) {k : Nat} (file : String) (g : Globals Value) (w : World)

theorem cancelledAt_some {n : Nat} :
    Context.cancelledAt ⟨lib, canLoad, some k⟩ n = false ↔ n < k := by
  simp only [Context.cancelledAt, decide_eq_false_iff_not, not_le]

theorem evaluate_stops (hk : 0 < k) (e : Expr) : ∃ N r w',
    (∀ fuel ≥ N, evaluate ⟨lib, canLoad, some k⟩ fuel file g e w.begin = answer r w') ∧
    Keeps w.begin w' ∧
    (k ≤ w'.engine.polls → w'.engine.polls = k ∧ r = .error .cancelled ∧ ∀ fuel ≥ N,
      k ≤ (left (evaluate ⟨lib, canLoad, none⟩ fuel file g e w.begin)).engine.polls) ∧
    (w'.engine.polls < k → ∀ fuel ≥ N,
      evaluate ⟨lib, canLoad, none⟩ fuel file g e w.begin = answer r w') := by
  have hassured := assured_of_cancelled ⟨lib, canLoad, some k⟩ rfl k (.root file)
  have hstart : Context.cancelledAt ⟨lib, canLoad, some k⟩ w.begin.engine.polls = false :=
    (cancelledAt_some lib canLoad).2 hk
  obtain ⟨N, r, w', hx⟩ := hassured.evaluate g.all_true (Nat.le_add_left k w.begin.engine.polls) e
  have hcases : ∀ fuel ≥ N,
      (evaluate ⟨lib, canLoad, none⟩ fuel file g e w.begin = answer r w' ∧ w'.engine.polls < k) ∨
      (r = .error .cancelled ∧ w'.engine.polls = k ∧
        k ≤ (left (evaluate ⟨lib, canLoad, none⟩ fuel file g e w.begin)).engine.polls) := by
    intro fuel hfuel
    rcases evaluate_cases hstart (hx fuel hfuel) with ⟨h, hpolls⟩ | ⟨hr, hfrom, hle⟩
    · exact .inl ⟨h, (cancelledAt_some lib canLoad).1 hpolls⟩
    · cases hfrom
      exact .inr ⟨hr, rfl, hle⟩
  refine ⟨N, r, w', hx, keeps_evaluate (hx N le_rfl), fun hpolls => ?_, fun hpolls fuel hfuel => ?_⟩
  · have hstopped := fun fuel hfuel => (hcases fuel hfuel).resolve_left fun h => not_lt.2 hpolls h.2
    obtain ⟨hr, hk', -⟩ := hstopped N le_rfl
    exact ⟨hk', hr, fun fuel hfuel => (hstopped fuel hfuel).2.2⟩
  · exact ((hcases fuel hfuel).resolve_right fun h => hpolls.ne h.2.1).1

theorem execute_stops (hk : 0 < k) (p : Program) : ∃ N x,
    (∀ fuel ≥ N, execute ⟨lib, canLoad, some k⟩ fuel file g p w.begin = x) ∧
    x.outcome ≠ .error .outOfFuel ∧ Keeps w.begin x.world ∧
    (k ≤ x.world.engine.polls → x.world.engine.polls = k ∧
      x.outcome = .error (.failed .cancelled) ∧ ∀ fuel ≥ N,
      (observe ⟨lib, canLoad, none⟩ fuel file g p w.begin)[k - 1]? = some x.globals) ∧
    (x.world.engine.polls < k → ∀ fuel ≥ N,
      execute ⟨lib, canLoad, none⟩ fuel file g p w.begin = x) := by
  have hassured := assured_of_cancelled ⟨lib, canLoad, some k⟩ rfl k (.root file)
  have hstart : Context.cancelledAt ⟨lib, canLoad, some k⟩ w.begin.engine.polls = false :=
    (cancelledAt_some lib canLoad).2 hk
  obtain ⟨N, x, hend, hx⟩ := hassured.execute g.all_true
    (Nat.le_add_left k w.begin.engine.polls) (p := p) (.inl trivial)
  have hkeeps : Keeps w.begin x.world := by
    rw [← hx N le_rfl] at hend ⊢
    exact keeps_execute hend
  have hcases : ∀ fuel ≥ N, (execute ⟨lib, canLoad, none⟩ fuel file g p w.begin = x ∧
        x.world.engine.polls < k) ∨
      (x.outcome = .error (.failed .cancelled) ∧ x.world.engine.polls = k ∧
        (observe ⟨lib, canLoad, none⟩ fuel file g p w.begin)[k - 1]? = some x.globals) := by
    intro fuel hfuel
    have h := execute_cases file g fuel p rfl hstart
    rw [hx fuel hfuel] at h
    rcases h with ⟨h, hpolls⟩ | ⟨hr, hfrom, hseen⟩
    · exact .inl ⟨h, (cancelledAt_some lib canLoad).1 hpolls⟩
    · cases hfrom
      exact .inr ⟨hr, rfl, hseen⟩
  refine ⟨N, x, hx, hend, hkeeps, fun hpolls => ?_, fun hpolls fuel hfuel => ?_⟩
  · have hstopped := fun fuel hfuel => (hcases fuel hfuel).resolve_left fun h => not_lt.2 hpolls h.2
    obtain ⟨hr, hk', -⟩ := hstopped N le_rfl
    exact ⟨hk', hr, fun fuel hfuel => (hstopped fuel hfuel).2.2⟩
  · exact ((hcases fuel hfuel).resolve_right fun h => hpolls.ne h.2.1).1

end

/-- A run that is stopped from its `k`-th poll on ends. What the loader knew it knows still, and it
is idle if it was. If the run gets to the `k`-th poll it does not poll again, it fails with
nothing but `Error.cancelled`, and it leaves the globals that the same run left alone has at its
`k`-th poll; an expression has no globals to leave. If the run does not get there it is the same run
left alone. -/
theorem stops_cleanly (lib : Library) (canLoad : Bool) (k : Nat) (hk : 0 < k) (file : String)
    (g : Globals Value) (w : World) (hw : w.Idle) :
    (∀ e : Expr, ∃ N r w',
      (∀ fuel ≥ N, evaluate ⟨lib, canLoad, some k⟩ fuel file g e w.begin = answer r w') ∧
      (∀ m entry, w.cache.get? m = some entry → w'.cache.get? m = some entry) ∧ w'.Idle ∧
      (k ≤ w'.engine.polls → w'.engine.polls = k ∧ r = .error .cancelled ∧ ∀ fuel ≥ N,
        k ≤ (left (evaluate ⟨lib, canLoad, none⟩ fuel file g e w.begin)).engine.polls) ∧
      (w'.engine.polls < k → ∀ fuel ≥ N,
        evaluate ⟨lib, canLoad, none⟩ fuel file g e w.begin = answer r w')) ∧
    (∀ p : Program, ∃ N x,
      (∀ fuel ≥ N, execute ⟨lib, canLoad, some k⟩ fuel file g p w.begin = x) ∧
      x.outcome ≠ .error .outOfFuel ∧
      (∀ m entry, w.cache.get? m = some entry → x.world.cache.get? m = some entry) ∧
      x.world.Idle ∧
      (k ≤ x.world.engine.polls → x.world.engine.polls = k ∧
        x.outcome = .error (.failed .cancelled) ∧ ∀ fuel ≥ N,
        (observe ⟨lib, canLoad, none⟩ fuel file g p w.begin)[k - 1]? = some x.globals) ∧
      (x.world.engine.polls < k → ∀ fuel ≥ N,
        execute ⟨lib, canLoad, none⟩ fuel file g p w.begin = x)) := by
  have hidle : w.begin.Idle := hw
  constructor
  · intro e
    obtain ⟨N, r, w', hx, hkeeps, hstopped, hfree⟩ := evaluate_stops lib canLoad file g w hk e
    exact ⟨N, r, w', hx, fun _ _ => hkeeps.entry, hidle.of_keeps hkeeps, hstopped, hfree⟩
  · intro p
    obtain ⟨N, x, hx, hend, hkeeps, hstopped, hfree⟩ := execute_stops lib canLoad file g w hk p
    exact ⟨N, x, hx, hend, fun _ _ => hkeeps.entry, hidle.of_keeps hkeeps, hstopped, hfree⟩

/-- A module, and a program that loads it and then loops for ever. -/
def stepLibrary : Library := .ofTexts (.ofList [("a", "step = 2\n")])

def stepping : Program :=
  [.load "a" [⟨"step", "step"⟩] .start,
    .while_ (.bool true) [.assign "x" (.name "step" .start) .start] .start]

theorem stops_cleanly_stepping : 0 < 6 ∧ World.empty.Idle ∧
    ∃ N x, (∀ fuel ≥ N, execute ⟨stepLibrary, true, some 6⟩ fuel "t" .empty stepping
        World.empty.begin = x) ∧ x.outcome ≠ .error .outOfFuel ∧ x.world.Idle ∧
      (6 ≤ x.world.engine.polls → x.world.engine.polls = 6 ∧
        x.outcome = .error (.failed .cancelled) ∧ ∀ fuel ≥ N,
          (observe ⟨stepLibrary, true, none⟩ fuel "t" .empty stepping World.empty.begin)[5]? =
            some x.globals) := by
  have hidle : World.empty.Idle := fun m e h => nomatch h
  obtain ⟨N, x, hx, hend, -, hx', hstopped, -⟩ :=
    (stops_cleanly stepLibrary true 6 (by decide) "t" .empty .empty hidle).2 stepping
  exact ⟨by decide, hidle, N, x, hx, hend, hx', hstopped⟩

example : (execute ⟨stepLibrary, true, some 6⟩ 12 "t" .empty stepping .empty).world.engine.polls =
    6 := by cbv

example : ((observe ⟨stepLibrary, true, none⟩ 12 "t" .empty stepping .empty).map fun g =>
    g.bindings.names).take 6 = [[], [], ["step"], ["step"], ["step", "x"], ["step", "x"]] := by cbv

end ScriptShell
