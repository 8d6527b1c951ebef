import ScriptShell.Proofs.Eval.Terminates

/-!
# ScriptShell.Proofs.Eval.Assured

What recurs without regard to the syntax is the call of a function, the load of a module and the
next pass of a loop. If these end, every expression and every statement does.

* `Table.All`, `Value.All`, `Scope.All`: the functions that are met, wherever they are kept.
* `Stmt.LoopFree`: no `while` statement stands in it.
* `Assured`: calls, loads and loops end.
* `Assured.eval`, `Assured.execBlock`: then expressions and statements do.
-/

namespace ScriptShell

/-! ## Functions that are met -/

/-- Everything that the table holds is so. -/
def Table.All {α : Type} (P : α → Prop) (t : Table α) : Prop :=
  ∀ e ∈ t.entries, P e.2

namespace Table.All

variable {α : Type} {P : α → Prop} {t : Table α} {k : String} {v : α}

theorem empty : (Table.empty : Table α).All P :=
  fun _ he => nomatch he

theorem insert (h : t.All P) (k : String) (hv : P v) : (t.insert k v).All P := by
  intro e he
  rcases mem_insertSorted he with rfl | he
  · exact hv
  · exact h e he

theorem get? (h : t.All P) (hk : t.get? k = some v) : P v := by
  obtain ⟨es, es', hes, -⟩ := List.lookup_eq_some_iff.1 hk
  exact h (k, v) (hes ▸ List.mem_append_right _ List.mem_cons_self)

theorem ofList {es : List (String × α)} (h : ∀ e ∈ es, P e.2) : (Table.ofList es).All P := by
  suffices hfold : ∀ (t : Table α), t.All P →
      (es.foldl (fun t e => t.insert e.1 e.2) t).All P from hfold _ empty
  induction es with
  | nil => exact fun _ ht => ht
  | cons e es ih =>
    intro t ht
    exact ih (fun e he => h e (List.mem_cons_of_mem _ he)) _
      (ht.insert e.1 (h e List.mem_cons_self))

end Table.All

/-- The value is no function that `T` does not hold of. -/
def Value.All (T : Function → Prop) : Value → Prop
  | .function f => T f
  | _ => True

def Globals.All (T : Function → Prop) (g : Globals Value) : Prop :=
  g.bindings.All (Value.All T)

structure Scope.All (T : Function → Prop) (s : Scope) : Prop where
  globals : s.globals.All T
  locals : ∀ t, s.locals = some t → t.All (Value.All T)

section
variable {T : Function → Prop} {s s' : Scope} {v : Value} {name : String}

theorem Scope.All.ofGlobals {g : Globals Value} (h : g.All T) : (Scope.ofGlobals g).All T :=
  ⟨h, nofun⟩

theorem Scope.All.lookup (h : s.All T) (hv : s.lookup name = some v) : v.All T := by
  unfold Scope.lookup local? at hv
  cases hl : s.locals.bind fun t => t.get? name with
  | some v' =>
    rw [hl] at hv
    cases hv
    obtain ⟨t, ht, hv⟩ := Option.bind_eq_some_iff.1 hl
    exact (h.locals t ht).get? hv
  | none =>
    rw [hl, Option.none_or] at hv
    cases hg : s.globals.get? name with
    | some v' =>
      rw [hg] at hv
      cases hv
      exact h.globals.get? hg
    | none =>
      rw [hg, Option.none_or] at hv
      obtain ⟨b, -, rfl⟩ := Option.map_eq_some_iff.1 hv
      trivial

theorem Scope.All.bind (h : s.All T) (hv : v.All T) (hs : s.bind name v = .ok s') : s'.All T := by
  unfold Scope.bind Globals.set at hs
  cases hl : s.locals with
  | some t =>
    rw [hl] at hs
    cases hs
    refine ⟨h.globals, fun t' ht' => ?_⟩
    cases ht'
    exact (h.locals t hl).insert name hv
  | none =>
    rw [hl] at hs
    dsimp only at hs
    split at hs
    · rename_i g hg
      cases hs
      split at hg
      · cases hg
      · cases hg
        exact ⟨h.globals.insert name hv, nofun⟩
    · cases hs

/-- Operators and builtin functions make no functions. -/
theorem UnaryOp.all_apply {op : UnaryOp} {v r : Value} (h : op.apply v = .ok r) : r.All T := by
  unfold UnaryOp.apply ofArithmetic at h
  split at h
  · cases h
    trivial
  · split at h <;> cases h
    trivial
  · cases h

theorem all_ofArithmetic {x : Except ArithmeticFault Integer} {r : Value}
    (h : ofArithmetic x = .ok r) : r.All T := by
  cases x <;> cases h
  trivial

theorem all_onIntegers {op : BinaryOp} {f : Integer → Integer → Except ArithmeticFault Integer}
    {a b r : Value} (h : onIntegers op f a b = .ok r) : r.All T := by
  unfold onIntegers at h
  split at h
  · exact all_ofArithmetic h
  · cases h

theorem BinaryOp.all_apply {op : BinaryOp} {a b r : Value} (h : op.apply a b = .ok r) :
    r.All T := by
  unfold BinaryOp.apply at h
  split at h
  case h_7 =>
    split at h
    · cases h
      trivial
    · exact all_onIntegers h
  case h_8 | h_9 | h_10 | h_11 => exact all_onIntegers h
  case h_3 | h_4 | h_5 | h_6 =>
    split at h <;> cases h
    trivial
  all_goals
    cases h
    try trivial

theorem Builtin.all_apply {b : Builtin} {vs : List Value} {r : Value} (h : b.apply vs = .ok r) :
    r.All T := by
  unfold Builtin.apply at h
  split at h <;> cases h <;> trivial

end

/-! ## Syntax without loops -/

/-- No `while` statement stands in the statement, nor in the body of a function that it defines. -/
def Stmt.LoopFree : Stmt → Prop
  | .define _ _ body _ => block body
  | .if_ _ thenPart elsePart _ => block thenPart ∧ block elsePart
  | .while_ _ _ _ => False
  | _ => True
where
  block : List Stmt → Prop
    | [] => True
    | s :: ss => s.LoopFree ∧ block ss

/-! ## What must end for everything to end -/

/-- How statements end: what they return and the scope that they leave hold functions of `T`
alone. -/
def Leaves (T : Function → Prop) (Inv : World → Prop) (flow : Flow) (m : Machine) : Prop :=
  flow.value.All T ∧ m.scope.All T ∧ Inv m.world

/-- Calls, loads and loops end, and keep to the functions of `T` and to the invariant. Loops are
looked at only if there are any. What recurs does so behind a poll that has not stopped it. -/
structure Assured (ctx : Context) (T : Function → Prop) (loops : Prop) (Inv : World → Prop)
    (chain : CallChain) : Prop where
  poll : ∀ {w w'}, Inv w → ScriptShell.poll ctx w = .ok () w' → Inv w'
  new : ∀ {w : World} (d : Definition) (file : String), Inv w →
    (loops ∨ Stmt.LoopFree.block d.body) → T ⟨w.engine.nextFunction, d, file⟩ ∧
      Inv { w with engine := { w.engine with nextFunction := w.engine.nextFunction + 1 } }
  home : ∀ {w : World} {f u}, Inv w → T f → w.engine.home? f.id = some u → u.All T
  enter : ∀ {w w' : World} {f : Function} {scope : Scope} (p : Pos), Inv w →
    ScriptShell.poll ctx w = .ok () w' → T f → chain.depth < maxCalls → scope.All T →
    Terminates (fun fuel => ScriptShell.execBlock ctx fuel (chain.enter p f) f.definition.body)
      ⟨scope, w'⟩ (Leaves T Inv)
  load : ∀ {w w' : World} (module : String), Inv w → ScriptShell.poll ctx w = .ok () w' →
    Terminates (fun fuel => loadModule ctx fuel module) w' fun g w => g.All T ∧ Inv w
  loop : loops → ∀ {cond : Expr} {body : List Stmt},
    (∀ {scope w}, scope.All T → Inv w →
      Terminates (fun fuel => ScriptShell.eval ctx fuel chain scope cond) w
        fun v w => v.All T ∧ Inv w) →
    (∀ {scope w}, scope.All T → Inv w →
      Terminates (fun fuel => ScriptShell.execBlock ctx fuel chain body) ⟨scope, w⟩
        (Leaves T Inv)) →
    ∀ {scope w}, scope.All T → Inv w →
      Terminates (fun fuel => execLoop ctx fuel chain cond body) ⟨scope, w⟩ (Leaves T Inv)

namespace Assured

variable {ctx : Context} {T : Function → Prop} {loops : Prop} {Inv : World → Prop}
  {chain : CallChain}

theorem call (h : Assured ctx T loops Inv chain) {scope : Scope} {w : World} {callee : Value}
    {args : List Value} (p : Pos) (hs : scope.All T) (hw : Inv w) (hc : callee.All T)
    (ha : ∀ v ∈ args, v.All T) :
    Terminates (fun fuel => ScriptShell.call ctx fuel chain scope callee args p) w
      fun v w => v.All T ∧ Inv w := by
  refine .succ ?_
  simp only [ScriptShell.call]
  refine (Terminates.poll (Q := fun _ w' => ScriptShell.poll ctx w = .ok () w')
    fun _ h => h).bind fun _ w' hp => ?_
  have hw' := h.poll hw hp
  cases callee with
  | builtin b => exact .orFailAt fun v hv => ⟨Builtin.all_apply hv, hw'⟩
  | function f =>
    dsimp only
    split
    · exact .of_failed fun _ => rfl
    · split
      · exact .of_failed fun _ => rfl
      · rename_i hdepth
        refine .get_bind ?_
        have hinner : Scope.All T ⟨(w'.engine.home? f.id).getD scope.globals,
            some (.ofList (f.definition.params.zip args))⟩ := by
          refine ⟨?_, fun t ht => ?_⟩
          · cases hu : w'.engine.home? f.id with
            | none => exact hs.globals
            | some u => exact h.home hw' hc hu
          · cases ht
            exact .ofList fun e he => ha e.2 (List.of_mem_zip he).2
        refine (Terminates.within (h.enter p hw hp hc (by omega) hinner)
          (Q := fun flow w => flow.value.All T ∧ Inv w) fun _ _ hm => ⟨hm.1, hm.2.2⟩).bind ?_
        exact fun flow w hm => .of_ok (fun _ => rfl) hm
  | _ => exact .of_failed fun _ => rfl

mutual

/-- Every expression ends. -/
theorem eval (h : Assured ctx T loops Inv chain) : ∀ (e : Expr) {scope : Scope} {w : World},
    scope.All T → Inv w → Terminates (fun fuel => ScriptShell.eval ctx fuel chain scope e) w
      fun v w => v.All T ∧ Inv w
  | .none, _, _, _, hw | .bool _, _, _, _, hw | .int _, _, _, _, hw | .str _, _, _, _, hw => by
    refine .succ ?_
    simp only [ScriptShell.eval]
    exact .of_ok (fun _ => rfl) ⟨trivial, hw⟩
  | .name id p, scope, _, hs, hw => by
    refine .succ ?_
    simp only [ScriptShell.eval]
    cases hv : scope.lookup id with
    | some v => exact .of_ok (fun _ => rfl) ⟨hs.lookup hv, hw⟩
    | none => exact .of_failed fun _ => rfl
  | .unary op e p, _, _, hs, hw => by
    refine .succ ?_
    simp only [ScriptShell.eval]
    refine (h.eval e hs hw).bind fun v w hv => ?_
    exact .orFailAt fun r hr => ⟨UnaryOp.all_apply hr, hv.2⟩
  | .binary op l r p, _, _, hs, hw => by
    refine .succ ?_
    cases op
    case and =>
      simp only [ScriptShell.eval]
      refine (h.eval l hs hw).bind fun v w hv => ?_
      split
      · exact h.eval r hs hv.2
      · exact .of_ok (fun _ => rfl) hv
    case or =>
      simp only [ScriptShell.eval]
      refine (h.eval l hs hw).bind fun v w hv => ?_
      split
      · exact .of_ok (fun _ => rfl) hv
      · exact h.eval r hs hv.2
    all_goals
      simp only [ScriptShell.eval]
      refine (h.eval l hs hw).bind fun v w hv => (h.eval r hs hv.2).bind fun v' w' hv' => ?_
      exact .orFailAt fun a ha => ⟨BinaryOp.all_apply ha, hv'.2⟩
  | .call f args p, _, _, hs, hw => by
    refine .succ ?_
    simp only [ScriptShell.eval]
    refine (h.eval f hs hw).bind fun v w hv => (h.evalArgs args hs hv.2).bind fun vs w' hvs => ?_
    exact h.call p hs hvs.2 hv.1 hvs.1

theorem evalArgs (h : Assured ctx T loops Inv chain) :
    ∀ (es : List Expr) {scope : Scope} {w : World}, scope.All T → Inv w →
      Terminates (fun fuel => ScriptShell.evalArgs ctx fuel chain scope es) w
        fun vs w => (∀ v ∈ vs, v.All T) ∧ Inv w
  | [], _, _, _, hw => by
    refine .succ ?_
    simp only [ScriptShell.evalArgs]
    refine .of_ok (fun _ => rfl) ⟨?_, hw⟩
    exact List.forall_mem_nil _
  | e :: es, _, _, hs, hw => by
    refine .succ ?_
    simp only [ScriptShell.evalArgs]
    refine (h.eval e hs hw).bind fun v w hv => (h.evalArgs es hs hv.2).bind fun vs w' hvs => ?_
    refine .of_ok (fun _ => rfl) ⟨?_, hvs.2⟩
    exact List.forall_mem_cons.2 ⟨hv.1, hvs.1⟩

end

theorem bindName {p : Pos} {name : String} {v : Value} {m : Machine} (hm : m.scope.All T)
    (hw : Inv m.world) (hv : v.All T) :
    Terminates (fun _ => ScriptShell.bindName chain p name v) m
      fun _ m => m.scope.All T ∧ Inv m.world := by
  cases hs : m.scope.bind name v with
  | ok scope =>
    have hbind : ScriptShell.bindName chain p name v m = .ok () { m with scope := scope } := by
      simp only [ScriptShell.bindName, hs]
    exact .of_ok (fun _ => hbind) ⟨hm.bind hv hs, hw⟩
  | error f =>
    have hbind : ScriptShell.bindName chain p name v m = failAt chain p f m := by
      simp only [ScriptShell.bindName, hs]
    exact .of_failed fun _ => hbind

theorem bindImports {p : Pos} {module : String} {exports : Globals Value} (he : exports.All T)
    (is : List Import) {m : Machine} (hm : m.scope.All T) (hw : Inv m.world) :
    Terminates (fun _ => ScriptShell.bindImports chain p module exports is) m
      fun _ m => m.scope.All T ∧ Inv m.world := by
  induction is generalizing m with
  | nil => exact .of_ok (fun _ => rfl) ⟨hm, hw⟩
  | cons i is ih =>
    simp only [ScriptShell.bindImports]
    split
    · exact .of_failed fun _ => rfl
    · cases hv : exports.get? i.exported with
      | none => exact .of_failed fun _ => rfl
      | some v => exact (bindName hm hw (he.get? hv)).bind fun _ m hm => ih hm.1 hm.2

mutual

/-- Every statement ends that is looked at. -/
theorem execStmt (h : Assured ctx T loops Inv chain) : ∀ (s : Stmt), (loops ∨ s.LoopFree) →
    ∀ {m : Machine}, m.scope.All T → Inv m.world →
      Terminates (fun fuel => ScriptShell.execStmt ctx fuel chain s) m (Leaves T Inv)
  | s, hloops, m, hm, hw => by
    refine .succ ?_
    simp only [ScriptShell.execStmt]
    refine (Terminates.poll (w := m.world) (Q := fun _ w => ScriptShell.poll ctx m.world = .ok () w)
      fun _ h => h).onWorld.bind fun _ m₁ hp => ?_
    obtain ⟨hscope, hp⟩ := hp
    have hm₁ : m₁.scope.All T := hscope ▸ hm
    have hw₁ := h.poll hw hp
    match s, hloops with
    | .pass, _ => exact .of_ok (fun _ => rfl) ⟨trivial, hm₁, hw₁⟩
    | .expr e _, _ =>
      refine (h.eval e hm₁ hw₁).inScope.bind fun v m₂ hv => ?_
      exact .of_ok (fun _ => rfl) ⟨trivial, hv.1 ▸ hm₁, hv.2.2⟩
    | .assign name e p, _ =>
      refine (h.eval e hm₁ hw₁).inScope.bind fun v m₂ hv => ?_
      refine (bindName (hv.1 ▸ hm₁) hv.2.2 hv.2.1).bind fun _ m₃ hm₃ => ?_
      exact .of_ok (fun _ => rfl) ⟨trivial, hm₃⟩
    | .define name params body p, hloops =>
      obtain ⟨hf, hw₂⟩ := h.new ⟨name, params, body, p⟩ chain.file hw₁ hloops
      refine (Terminates.of_ok (fun _ => rfl) ⟨hf, hw₂⟩ : Terminates
        (fun _ => newFunction ⟨name, params, body, p⟩ chain.file) m₁.world
        fun f w => T f ∧ Inv w).onWorld.bind fun f m₂ hf => ?_
      refine (bindName (hf.1 ▸ hm₁) hf.2.2 (v := .function f) hf.2.1).bind fun _ m₃ hm₃ => ?_
      exact .of_ok (fun _ => rfl) ⟨trivial, hm₃⟩
    | .return_ none _, _ => exact .of_ok (fun _ => rfl) ⟨trivial, hm₁, hw₁⟩
    | .return_ (some e) _, _ =>
      refine (h.eval e hm₁ hw₁).inScope.bind fun v m₂ hv => ?_
      exact .of_ok (fun _ => rfl) ⟨hv.2.1, hv.1 ▸ hm₁, hv.2.2⟩
    | .if_ cond thenPart elsePart _, hloops =>
      refine (h.eval cond hm₁ hw₁).inScope.bind fun v m₂ hv => ?_
      have hm₂ : m₂.scope.All T := hv.1 ▸ hm₁
      split
      · exact h.execBlock thenPart (hloops.imp_right And.left) hm₂ hv.2.2
      · exact h.execBlock elsePart (hloops.imp_right And.right) hm₂ hv.2.2
    | .while_ cond body _, hloops =>
      refine h.loop (hloops.resolve_right id) (fun hs hw => h.eval cond hs hw) ?_ hm₁ hw₁
      exact fun hs hw => h.execBlock body (.inl (hloops.resolve_right id)) hs hw
    | .load module imports p, _ =>
      have hload := h.load module hw hp
      refine hload.onWorld.bind fun g m₂ hg => ?_
      refine (bindImports hg.2.1 imports (hg.1 ▸ hm₁) hg.2.2).bind fun _ m₃ hm₃ => ?_
      exact .of_ok (fun _ => rfl) ⟨trivial, hm₃⟩

theorem execBlock (h : Assured ctx T loops Inv chain) : ∀ (ss : List Stmt),
    (loops ∨ Stmt.LoopFree.block ss) → ∀ {m : Machine}, m.scope.All T → Inv m.world →
      Terminates (fun fuel => ScriptShell.execBlock ctx fuel chain ss) m (Leaves T Inv)
  | [], _, _, hm, hw => by
    refine .succ ?_
    simp only [ScriptShell.execBlock]
    exact .of_ok (fun _ => rfl) ⟨trivial, hm, hw⟩
  | s :: ss, hloops, _, hm, hw => by
    refine .succ ?_
    simp only [ScriptShell.execBlock]
    refine (h.execStmt s (hloops.imp_right And.left) hm hw).bind fun flow m₁ hm₁ => ?_
    cases flow with
    | return_ v => exact .of_ok (fun _ => rfl) hm₁
    | next => exact h.execBlock ss (hloops.imp_right And.right) hm₁.2.1 hm₁.2.2

end

variable {file : String} {g : Globals Value} {w : World}

theorem evaluate (h : Assured ctx T loops Inv (.root file)) (hg : g.All T) (hw : Inv w) (e : Expr) :
    ∃ N r w', ∀ fuel ≥ N, ScriptShell.evaluate ctx fuel file g e w = answer r w' := by
  have hterminates : Terminates (fun fuel => ScriptShell.evaluate ctx fuel file g e) w
      fun _ _ => True := by
    refine (Terminates.poll (w := w) (Q := fun _ w' => Inv w') fun _ hp => h.poll hw hp).bind ?_
    exact fun _ w' hw' => (h.eval e (.ofGlobals hg) hw').mono fun _ _ _ => trivial
  obtain ⟨N, r, hr, hx⟩ := hterminates
  cases hr with
  | @ok v w' _ => exact ⟨N, .ok v, w', hx⟩
  | failed f w' => exact ⟨N, .error f, w', hx⟩

theorem execute (h : Assured ctx T loops Inv (.root file)) (hg : g.All T) (hw : Inv w)
    {p : Program} (hp : loops ∨ Stmt.LoopFree.block p) :
    ∃ N x, x.outcome ≠ .error .outOfFuel ∧
      ∀ fuel ≥ N, ScriptShell.execute ctx fuel file g p w = x := by
  obtain ⟨N, r, hr, hx⟩ := h.execBlock p hp (m := ⟨.ofGlobals g, w⟩) (.ofGlobals hg) hw
  dsimp only at hx
  cases hr with
  | @ok flow m _ =>
    refine ⟨N, ⟨.ok (), m.scope.globals, m.world⟩, nofun, fun fuel hfuel => ?_⟩
    rw [ScriptShell.execute, hx fuel hfuel]
  | failed f m =>
    refine ⟨N, ⟨.error (.failed f), m.scope.globals, m.world⟩, nofun, fun fuel hfuel => ?_⟩
    rw [ScriptShell.execute, hx fuel hfuel]

end Assured

end ScriptShell
