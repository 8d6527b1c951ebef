import ScriptShell.Eval
import ScriptShell.Proofs.Loader.Discipline

/-!
# ScriptShell.Proofs.Eval.Terminates

Computations that come to an end.

* `Terminates`: with every allowance that is great enough the computation comes to the same end.
* `Terminates.bind`: one computation after the other ends if each does.
* `Terminates.loadModule`: asking for a module ends if its execution does.
-/

namespace ScriptShell

section
variable {σ α β : Type}

/-- The end of a computation: a value and a state of which `Q` holds, or a failure. -/
inductive Final (Q : α → σ → Prop) : EStateM.Result Halt σ α → Prop where
  | ok {a : α} {s : σ} (h : Q a s) : Final Q (.ok a s)
  | failed (e : Error) (s : σ) : Final Q (.error (.failed e) s)

/-- With every allowance that is great enough the computation comes to the same end. -/
def Terminates (x : Nat → EStateM Halt σ α) (s : σ) (Q : α → σ → Prop) : Prop :=
  ∃ N r, Final Q r ∧ ∀ fuel ≥ N, x fuel s = r

namespace Terminates

variable {x : Nat → EStateM Halt σ α} {s s' : σ} {P Q : α → σ → Prop} {R : β → σ → Prop}

theorem of_ok {a : α} (h : ∀ fuel, x fuel s = .ok a s') (hQ : Q a s') : Terminates x s Q :=
  ⟨0, .ok a s', .ok hQ, fun fuel _ => h fuel⟩

theorem of_failed {e : Error} (h : ∀ fuel, x fuel s = .error (.failed e) s') : Terminates x s Q :=
  ⟨0, .error (.failed e) s', .failed e s', fun fuel _ => h fuel⟩

/-- A step may be taken off every allowance. -/
theorem succ (h : Terminates (fun fuel => x (fuel + 1)) s Q) : Terminates x s Q := by
  obtain ⟨N, r, hr, hx⟩ := h
  refine ⟨N + 1, r, hr, fun fuel hfuel => ?_⟩
  obtain ⟨n, rfl⟩ : ∃ n, fuel = n + 1 := ⟨fuel - 1, by omega⟩
  exact hx n (by omega)

theorem congr {y : Nat → EStateM Halt σ α} (h : Terminates y s Q)
    (hxy : ∀ fuel, x fuel s = y fuel s) :
    Terminates x s Q := by
  obtain ⟨N, r, hr, hy⟩ := h
  exact ⟨N, r, hr, fun fuel hfuel => (hxy fuel).trans (hy fuel hfuel)⟩

theorem mono (h : Terminates x s P) (hPQ : ∀ a s', P a s' → Q a s') : Terminates x s Q := by
  obtain ⟨N, r, hr, hx⟩ := h
  refine ⟨N, r, ?_, hx⟩
  cases hr with
  | ok hP => exact .ok (hPQ _ _ hP)
  | failed e s => exact .failed e s

theorem bind {f : Nat → α → EStateM Halt σ β} (hx : Terminates x s P)
    (hf : ∀ a s', P a s' → Terminates (fun fuel => f fuel a) s' R) :
    Terminates (fun fuel => x fuel >>= f fuel) s R := by
  obtain ⟨N, r, hr, hx⟩ := hx
  cases hr with
  | @ok a s' hP =>
    obtain ⟨N', r', hr', hf'⟩ := hf a s' hP
    refine ⟨max N N', r', hr', fun fuel hfuel => ?_⟩
    change EStateM.bind _ _ _ = _
    rw [EStateM.bind, hx fuel (by omega)]
    exact hf' fuel (by omega)
  | failed e s' =>
    refine ⟨N, .error (.failed e) s', .failed e s', fun fuel hfuel => ?_⟩
    change EStateM.bind _ _ _ = _
    rw [EStateM.bind, hx fuel hfuel]

theorem get_bind {f : Nat → σ → EStateM Halt σ α} (h : Terminates (fun fuel => f fuel s) s Q) :
    Terminates (fun fuel => get >>= f fuel) s Q :=
  h.congr fun _ => rfl

theorem orFailAt {chain : CallChain} {p : Pos} {r : Except EvalFault α}
    (h : ∀ a, r = .ok a → Q a s) : Terminates (fun _ => orFailAt chain p r) s Q := by
  cases r with
  | ok a => exact of_ok (fun _ => rfl) (h a rfl)
  | error f => exact of_failed fun _ => rfl

end Terminates
end

/-- The state in which a module has been executed and its globals are known. -/
def Hosted.remember (w : World) (module : String) (g : Globals Value) : World :=
  Hosted.record { w with engine := w.engine.settle module g } module (.loaded g)

namespace Terminates

variable {α : Type} {m : Machine} {Q : α → World → Prop}

theorem onWorld {x : Nat → EvalM α} (h : Terminates x m.world Q) :
    Terminates (fun fuel => onWorld (x fuel)) m fun a m' => m'.scope = m.scope ∧ Q a m'.world := by
  obtain ⟨N, r, hr, hx⟩ := h
  cases hr with
  | @ok a w hQ =>
    refine ⟨N, .ok a ⟨m.scope, w⟩, .ok ⟨rfl, hQ⟩, fun fuel hfuel => ?_⟩
    simp only [ScriptShell.onWorld, hx fuel hfuel]
  | failed e w =>
    refine ⟨N, .error (.failed e) ⟨m.scope, w⟩, .failed e _, fun fuel hfuel => ?_⟩
    simp only [ScriptShell.onWorld, hx fuel hfuel]

theorem inScope {x : Nat → Scope → EvalM α}
    (h : Terminates (fun fuel => x fuel m.scope) m.world Q) :
    Terminates (fun fuel => inScope (x fuel)) m fun a m' => m'.scope = m.scope ∧ Q a m'.world :=
  h.onWorld.congr fun _ => rfl

theorem within {x : Nat → ExecM α} {scope : Scope} {w : World} {P : α → Machine → Prop}
    (h : Terminates x ⟨scope, w⟩ P) (hPQ : ∀ a m, P a m → Q a m.world) :
    Terminates (fun fuel => within scope (x fuel)) w Q := by
  obtain ⟨N, r, hr, hx⟩ := h
  cases hr with
  | @ok a m hP =>
    refine ⟨N, .ok a m.world, .ok (hPQ a m hP), fun fuel hfuel => ?_⟩
    simp only [ScriptShell.within, hx fuel hfuel]
  | failed e m =>
    refine ⟨N, .error (.failed e) m.world, .failed e _, fun fuel hfuel => ?_⟩
    simp only [ScriptShell.within, hx fuel hfuel]

theorem poll {ctx : Context} {w : World} {Q : Unit → World → Prop}
    (h : ∀ w', ScriptShell.poll ctx w = .ok () w' → Q () w') :
    Terminates (fun _ => ScriptShell.poll ctx) w Q := by
  cases hp : ScriptShell.poll ctx w with
  | ok a w' => exact of_ok (fun _ => hp) (h w' hp)
  | error e w' =>
    have he : e = .failed .cancelled := by
      unfold ScriptShell.poll at hp
      dsimp only at hp
      split at hp
      · cases hp
        rfl
      · cases hp
    exact of_failed fun _ => he ▸ hp

/-- A module that is asked for ends if its execution does. -/
theorem loadModule {ctx : Context} {module : String} {w : World} {Q : Globals Value → World → Prop}
    (hloaded : ∀ g, w.cache.get? module = some (.loaded g) → Q g w)
    (hexec : w.cache.get? module = none → ∀ text p, ctx.library.read module = .ok text →
      parseProgram module text = .ok p →
      Terminates (fun fuel => execBlock ctx fuel (.root module) p)
        ⟨.ofGlobals .empty, w.record module .pending⟩ fun _ m =>
          Q m.scope.globals.freeze (m.world.remember module m.scope.globals.freeze)) :
    Terminates (fun fuel => loadModule ctx fuel module) w Q := by
  refine succ ?_
  simp only [ScriptShell.loadModule]
  by_cases hcan : ctx.canLoad = true
  · simp only [hcan, if_true]
    cases hm : w.cache.get? module with
    | some e =>
      cases e with
      | loaded g => exact of_ok (fun fuel => load_of_some hm) (hloaded g hm)
      | pending => exact of_failed fun fuel => load_of_some hm
      | failed e => exact of_failed fun fuel => load_of_some hm
    | none =>
      -- the execution of the module ends, and what comes of it is what is remembered
      suffices h : Terminates (fun fuel => execFile ctx fuel module module)
          (w.record module .pending) fun g w' => Q g (w'.record module (.loaded g)) by
        obtain ⟨N, r, hr, hx⟩ := h
        cases hr with
        | @ok g w' hQ =>
          exact ⟨N, .ok g (w'.record module (.loaded g)), .ok hQ, fun fuel hfuel =>
            load_of_answer (r := .ok g) hm (hx fuel hfuel)⟩
        | failed e w' =>
          refine ⟨N, .error (.failed e) (w'.settle module (.error e)), .failed e _, ?_⟩
          exact fun fuel hfuel => load_of_answer (r := .error e) hm (hx fuel hfuel)
      refine succ ?_
      simp only [execFile]
      cases hread : ctx.library.read module with
      | error r => exact of_failed fun _ => rfl
      | ok text =>
        cases hparse : parseProgram module text with
        | error e => exact of_failed fun _ => by simp only [hparse]; rfl
        | ok p =>
          simp only [hparse]
          obtain ⟨N, r, hr, hx⟩ := hexec hm text p hread hparse
          cases hr with
          | @ok flow m hQ =>
            refine ⟨N, _, .ok hQ, fun fuel hfuel => ?_⟩
            dsimp only at hx ⊢
            rw [hx fuel hfuel]
          | failed e m =>
            refine ⟨N, .error (.failed e) m.world, .failed e _, fun fuel hfuel => ?_⟩
            dsimp only at hx ⊢
            rw [hx fuel hfuel]
  · exact of_failed fun fuel => by simp only [hcan]; rfl

end Terminates

end ScriptShell
