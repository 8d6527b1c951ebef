import ScriptShell.Proofs.Eval.Home
import ScriptShell.Proofs.Eval.Stopped

/-!
# ScriptShell.Proofs.Eval.Targets

Which globals an execution changes: those that it names, outside the functions that it defines, and
no others. Functions bind locals; the globals that they see are left alone.

* `Globals.Rebinds`: what execution may make of globals.
* `KeepsGlobals`: the exports of modules and the homes of functions are left alone.
* `execute_changes_targets`: the main theorem.
-/

namespace ScriptShell

/-! ## The globals of an execution -/

namespace Globals

/-- What execution may make of globals. Only some names are bound anew, nothing that is bound
becomes unbound, and if the globals are frozen they stay as they are. -/
structure Rebinds (names : String → Prop) (g g' : Globals Value) : Prop where
  other : ∀ x, ¬ names x → g'.get? x = g.get? x
  bound : ∀ x, g.contains x = true → g'.contains x = true
  frozen : g.frozen = true → g' = g

namespace Rebinds

variable {names : String → Prop} {g g' g'' : Globals Value}

theorem refl (g : Globals Value) : Rebinds names g g :=
  ⟨fun _ _ => rfl, fun _ => id, fun _ => rfl⟩

theorem trans (h : Rebinds names g g') (h' : Rebinds names g' g'') : Rebinds names g g'' where
  other x hx := (h'.other x hx).trans (h.other x hx)
  bound x hx := h'.bound x (h.bound x hx)
  frozen hg := by
    have heq := h.frozen hg
    exact (h'.frozen (heq ▸ hg)).trans heq

/-- Binding one of the names does so. -/
theorem set {x : String} {v : Value} (hx : names x) (h : g.set x v = .ok g') :
    Rebinds names g g' := by
  unfold Globals.set at h
  split at h
  · cases h
  · rename_i hfrozen
    cases h
    have hget : ∀ y, (g.bindings.insert x v).get? y = if y = x then some v else g.get? y :=
      fun y => g.bindings.get?_insert x y v
    refine ⟨fun y hy => ?_, fun y hy => ?_, fun hg => absurd hg hfrozen⟩
    · have hne : y ≠ x := by
        rintro rfl
        exact hy hx
      exact (hget y).trans (if_neg hne)
    · rw [contains, Table.contains, hget]
      split
      · rfl
      · exact hy

theorem freeze (h : Rebinds names g g') : Rebinds names g g'.freeze where
  other := h.other
  bound := h.bound
  frozen hg := by
    rw [h.frozen hg, Globals.freeze, ← hg]

end Rebinds
end Globals

/-- No function is running, and the globals come from `g` by binding some of the names. -/
def Scope.ComesFrom (names : String → Prop) (g : Globals Value) (s : Scope) : Prop :=
  s.locals = none ∧ g.Rebinds names s.globals

theorem Scope.comesFrom_bind (names : String → Prop) (g : Globals Value) :
    KeptByBinding names (ComesFrom names g) := by
  rintro ⟨h, _⟩ s' x v ⟨rfl, hg⟩ hx hs
  simp only [bind] at hs
  split at hs
  · rename_i h' hset
    cases hs
    exact ⟨rfl, hg.trans (.set hx hset)⟩
  · cases hs

/-- The globals that an execution leaves for good: frozen, if this is wanted and it has ended
well. -/
def Executed.finals (r : Executed) (freeze : Bool) : Globals Value :=
  match r.outcome with
  | .ok _ => if freeze then r.globals.freeze else r.globals
  | .error _ => r.globals

theorem execute_rebinds (ctx : Context) (fuel : Nat) (file : String) (g : Globals Value)
    (p : Program) (w : World) :
    g.Rebinds (· ∈ Stmt.targets.blockTargets p) (execute ctx fuel file g p w).globals := by
  have hbind := Scope.comesFrom_bind (· ∈ Stmt.targets.blockTargets p) g
  have hupholds := (effects True hbind ctx fuel).execBlock (m := ⟨.ofGlobals g, w⟩) (.root file)
    (blockConfined_targets fun _ => id) ⟨rfl, .refl g⟩
  rw [execute]
  generalize execBlock ctx fuel (.root file) p ⟨.ofGlobals g, w⟩ = r at hupholds
  cases hupholds with
  | ok _ hm => exact hm.2
  | error hm => exact hm.2

theorem Globals.Rebinds.finals {names : String → Prop} {g : Globals Value} {r : Executed}
    (h : g.Rebinds names r.globals) (freeze : Bool) : g.Rebinds names (r.finals freeze) := by
  unfold Executed.finals
  split
  · split
    · exact h.freeze
    · exact h
  · exact h

/-! ## The globals of others -/

/-- The exports of the modules that were known and the homes of functions are what they were. -/
structure KeepsGlobals (w w' : World) : Prop where
  exports : ∀ m g, w.cache.get? m = some (.loaded g) → w'.cache.get? m = some (.loaded g)
  homes : KeepsHomes w w'

namespace KeepsGlobals

variable {w w' w'' : World} {z : String}

theorem refl (w : World) : KeepsGlobals w w :=
  ⟨fun _ _ => id, .refl w⟩

theorem trans (h : KeepsGlobals w w') (h' : KeepsGlobals w' w'') : KeepsGlobals w w'' :=
  ⟨fun m g hm => h'.exports m g (h.exports m g hm), h.homes.trans h'.homes⟩

/-- A module that was not known is awaited. -/
theorem record (hz : w.cache.get? z = none) : KeepsGlobals w (w.record z .pending) where
  exports _ _ hm := Hosted.get?_record_of_known hz .pending hm
  homes := .refl w

/-- The execution of a module that was not known has ended. -/
theorem close {r : Ending Value} (h : KeepsGlobals (w.record z .pending) w')
    (hz : w.cache.get? z = none) : KeepsGlobals w (w'.close z r) where
  exports m g hm := by
    rw [Hosted.get?_close, if_neg (Hosted.ne_of_known hz hm)]
    exact ((record hz).trans h).exports m g hm
  homes := by
    refine ((record hz).trans h).homes.trans fun id u hu => ?_
    cases r with
    | ok g => exact Store.home?_settle_of_some hu
    | error e =>
      rw [Hosted.close, Hosted.settle_engine]
      exact hu

theorem conclude {r : EStateM.Result Halt World (Globals Value)}
    (h : KeepsGlobals (w.record z .pending) (left r)) (hz : w.cache.get? z = none) :
    KeepsGlobals w (left (ScriptShell.conclude z r)) := by
  rcases r with ⟨g, w'⟩ | ⟨e | _, w'⟩
  · exact h.close (r := .ok g) hz
  · exact h.close (r := .error e) hz
  · exact (record hz).trans h

end KeepsGlobals

/-- Whatever a course asks for, if its loads keep the globals of others it does. -/
theorem Course.Asks.keepsGlobals {β : Type} {ctx : Context} {P : Nat → Prop} {c : Course β}
    (hc : c.Asks P) (hload : ∀ fuel, P fuel → ∀ z w,
      KeepsGlobals w (left (ScriptShell.load (fun m => execFile ctx fuel m m) z w)))
    (w : World) : KeepsGlobals w (left (c.run ctx w)) := by
  induction hc generalizing w with
  | value _ | fail _ | stuck => exact .refl w
  | poll _ ih =>
    have hpolled : KeepsGlobals w (w.polled (w.engine.polls + 1)) := ⟨fun _ _ => id, .refl w⟩
    by_cases hcancel : ctx.cancelledAt (w.engine.polls + 1) = true
    · rw [run_poll_of_cancelled hcancel, left_answer]
      exact hpolled
    · rw [run_poll_of_not hcancel]
      exact hpolled.trans (ih _)
  | new _ ih =>
    refine KeepsGlobals.trans ?_ (ih w.engine.nextFunction _)
    exact ⟨fun _ _ => id, .refl w⟩
  | home _ ih => exact ih _ w
  | @load fuel z next hfuel _ ih =>
    have hserved := hload fuel hfuel z w
    cases hr : ScriptShell.load (fun m => execFile ctx fuel m m) z w with
    | ok g w' =>
      rw [hr] at hserved
      rw [run_load_of_ok hr]
      exact hserved.trans (ih g w')
    | error e w' =>
      rw [hr] at hserved
      rw [run_load_of_error hr]
      exact hserved

theorem load_keepsGlobals (ctx : Context) (fuel : Nat) (z : String) (w : World) :
    KeepsGlobals w (left (load (fun m => execFile ctx fuel m m) z w)) := by
  induction fuel using Nat.strong_induction_on generalizing z w with
  | _ fuel ih =>
    cases hz : w.cache.get? z with
    | some e =>
      rw [load_of_some hz, left_answer]
      exact .refl w
    | none =>
      cases fuel with
      | zero =>
        rw [load_of_zero hz]
        exact .record hz
      | succ fuel =>
        rw [load_of_none hz]
        refine KeepsGlobals.conclude ?_ hz
        refine (Course.asks_ofModule ctx.library ctx.canLoad fuel z).keepsGlobals ?_ _
        exact fun j hj => ih j (Nat.lt_succ_of_lt hj)

theorem Course.keepsGlobals {β : Type} (c : Course β) (ctx : Context) (w : World) :
    KeepsGlobals w (left (c.run ctx w)) :=
  (Asks.any c).keepsGlobals (fun fuel _ => load_keepsGlobals ctx fuel) w

theorem call_keepsGlobals (ctx : Context) (fuel : Nat) (chain : CallChain) (scope : Scope)
    (callee : Value) (args : List Value) (p : Pos) (w : World) :
    KeepsGlobals w (left (call ctx fuel chain scope callee args p w)) := by
  rw [← (Course.exact ctx fuel).call]
  exact Course.keepsGlobals _ ctx w

theorem execute_keepsGlobals (ctx : Context) (fuel : Nat) (file : String) (g : Globals Value)
    (p : Program) (w : World) : KeepsGlobals w (execute ctx fuel file g p w).world := by
  have hkeeps := Course.keepsGlobals
    (Course.execBlock ctx.canLoad fuel (.root file) p (.ofGlobals g)) ctx w
  rw [← drop_execBlock] at hkeeps
  rw [execute]
  generalize execBlock ctx fuel (.root file) p ⟨.ofGlobals g, w⟩ = r at hkeeps
  cases r with
  | ok flow m => exact hkeeps
  | error e m => exact hkeeps

/-- However an execution ends, of the globals that it began with it has changed the targets of the
program alone; it has unbound nothing, and if they were frozen they are as they were. The globals
that a function sees, its own or those of the caller, are as they were when its body ends or fails,
and no call changes the exports of a module or the home of a function. -/
theorem execute_changes_targets (ctx : Context) (fuel : Nat) (file : String) (g : Globals Value)
    (p : Program) (w : World) (freeze : Bool) :
    g.Rebinds (· ∈ Stmt.targets.blockTargets p)
      ((execute ctx fuel file g p w).finals freeze) ∧
    KeepsGlobals w (execute ctx fuel file g p w).world ∧
    (∀ fuel chain ss h t w,
      Stays (Machine.Inside h) (execBlock ctx fuel chain ss ⟨⟨h, some t⟩, w⟩)) ∧
    ∀ fuel chain scope callee args p w,
      KeepsGlobals w (left (call ctx fuel chain scope callee args p w)) :=
  ⟨(execute_rebinds ctx fuel file g p w).finals freeze,
    execute_keepsGlobals ctx fuel file g p w,
    fun fuel chain ss _ t _ => stays_inside ctx fuel chain ss ⟨t, rfl⟩,
    call_keepsGlobals ctx⟩

end ScriptShell
