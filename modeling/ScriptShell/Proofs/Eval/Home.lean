import Mathlib.Logic.Relation
import ScriptShell.Proofs.Eval.Effect
import ScriptShell.Proofs.Eval.Register

/-!
# ScriptShell.Proofs.Eval.Home

Where functions look names up. A function that a module leaves bound has final globals of that
module as its home, and keeps them: whoever calls it and whenever, its names are looked up there. A
function that is made later, by a call of one of the module's functions, has no home and looks names
up wherever it is called from, unless an execution of the module leaves it bound.

* `callIn`: a call whose names are looked up in given globals.
* `Course.Passes`: the states that an evaluation goes through.
* `Scene`, `Use`: what there is between two evaluations, and what can be asked for from outside.
* `bound_function_keeps_home`: the main theorem.
* `unbound_function_has_no_home`: the functions that it leaves out.
-/

namespace ScriptShell

/-! ## Calls in given globals -/

/-- A call of a function whose names, but for its locals, are looked up in the globals `h`. -/
def callIn (ctx : Context) (fuel : Nat) (chain : CallChain) (h : Globals Value) (f : Function)
    (args : List Value) (p : Pos) : EvalM Value := do
  poll ctx
  let d := f.definition
  if args.length ≠ d.params.length then
    failAt chain p (.wrongArity d.name d.params.length args.length)
  else if maxCalls ≤ chain.depth then failAt chain p .callsTooDeep
  else do
    let flow ← within ⟨h, some (.ofList (d.params.zip args))⟩
      (execBlock ctx fuel (chain.enter p f) d.body)
    pure flow.value

/-- A call is one in the home of the function or, if it has none, in the globals of the caller. -/
theorem call_eq_callIn (ctx : Context) (fuel : Nat) (chain : CallChain) (scope : Scope)
    (f : Function) (args : List Value) (p : Pos) (w : World) :
    call ctx (fuel + 1) chain scope (.function f) args p w =
      callIn ctx fuel chain ((w.engine.home? f.id).getD scope.globals) f args p w := by
  have hbind : ∀ {α : Type} (k : Unit → EvalM α), (poll ctx >>= k) w = EStateM.bind _ k w :=
    fun _ => rfl
  simp only [call, callIn]
  rw [hbind, hbind, EStateM.bind, EStateM.bind]
  cases hpoll : poll ctx w with
  | error e w' => rfl
  | ok u w' =>
    obtain ⟨rfl, -⟩ := poll_ok hpoll
    dsimp only
    split
    · rfl
    · split
      · rfl
      · rfl

/-! ## The scope of a body -/

/-- However a computation ended, it left such a state. -/
inductive Stays {σ α : Type} (P : σ → Prop) : EStateM.Result Halt σ α → Prop where
  | ok {a : α} {s : σ} (h : P s) : Stays P (.ok a s)
  | error {e : Halt} {s : σ} (h : P s) : Stays P (.error e s)

/-- A function is running whose globals are `h`. -/
def Machine.Inside (h : Globals Value) (m : Machine) : Prop :=
  ∃ t, m.scope = ⟨h, some t⟩

/-- Statements of a function leave its globals alone. -/
theorem stays_inside (ctx : Context) (fuel : Nat) (chain : CallChain) (ss : List Stmt)
    {h : Globals Value} {m : Machine} (hm : m.Inside h) :
    Stays (Machine.Inside h) (execBlock ctx fuel chain ss m) := by
  have hss : Stmt.Confined.blockConfined (fun _ => True) True ss :=
    blockConfined_targets fun _ _ => trivial
  have hupholds := (effects True (Scope.inside_bind h) ctx fuel).execBlock chain hss hm
  generalize execBlock ctx fuel chain ss m = r at hupholds
  cases hupholds with
  | ok _ hm => exact .ok hm
  | error hm => exact .error hm

/-- A name that is no local is looked up in the globals, and then among the builtin functions. -/
theorem Scope.lookup_of_not_local {s : Scope} {name : String} (h : s.local? name = none) :
    s.lookup name = (s.globals.get? name).or ((Builtin.ofName? name).map .builtin) := by
  rw [lookup, h, Option.none_or]

/-! ## In the midst of an evaluation -/

/-- In the course of an evaluation, or of the execution of a module that it asks for, the shared
state comes to be the second one. -/
inductive Course.Passes (ctx : Context) : {β : Type} → Course β → World → World → Prop where
  | here {β : Type} (c : Course β) (w : World) : Passes ctx c w w
  | poll {β : Type} {next : Course β} {w v w' : World} (hpoll : ScriptShell.poll ctx w = .ok () v)
      (h : Passes ctx next v w') : Passes ctx (.poll next) w w'
  | new {β : Type} {d : Definition} {file : String} {next : Function → Course β} {w v w' : World}
      {f : Function} (hf : newFunction d file w = .ok f v) (h : Passes ctx (next f) v w') :
      Passes ctx (.new d file next) w w'
  | home {β : Type} {f : Function} {next : Option (Globals Value) → Course β} {w w' : World}
      (h : Passes ctx (next (w.engine.home? f.id)) w w') : Passes ctx (.home f next) w w'
  | load {β : Type} {fuel : Nat} {z : String} {next : Globals Value → Course β} {w v w' : World}
      {g : Globals Value} (hg : ScriptShell.load (fun m => execFile ctx fuel m m) z w = .ok g v)
      (h : Passes ctx (next g) v w') : Passes ctx (.load fuel z next) w w'
  | inside {β : Type} {fuel : Nat} {z : String} {next : Globals Value → Course β} {w w' : World}
      (hz : w.cache.get? z = none)
      (h : Passes ctx (ofModule ctx.library ctx.canLoad fuel z) (w.record z .pending) w') :
      Passes ctx (.load (fuel + 1) z next) w w'

/-- What has a home keeps it. -/
def KeepsHomes (w w' : World) : Prop :=
  ∀ id h, w.engine.home? id = some h → w'.engine.home? id = some h

theorem KeepsHomes.refl (w : World) : KeepsHomes w w :=
  fun _ _ => id

theorem KeepsHomes.trans {w w' w'' : World} (h : KeepsHomes w w') (h' : KeepsHomes w' w'') :
    KeepsHomes w w'' :=
  fun id u hu => h' id u (h id u hu)

/-- A register can be kept all the time. -/
theorem Course.Passes.register {β : Type} {ctx : Context} {c : Course β} {r : Register}
    {w w' : World} (h : c.Passes ctx w w') (hw : w = r.world) :
    ∃ r' : Register, r ≤ r' ∧ w' = r'.world := by
  induction h generalizing r with
  | here c w => exact ⟨r, le_rfl, hw⟩
  | poll hpoll _ ih =>
    obtain ⟨rfl, -⟩ := poll_ok hpoll
    obtain ⟨r', hle, hw'⟩ := ih (r := r.polled _) (congrArg (Hosted.polled · _) hw)
    exact ⟨r', (r.le_polled _).trans hle, hw'⟩
  | @new β d file next w v w' f hf _ ih =>
    subst hw
    cases hf
    obtain ⟨r', hle, hw'⟩ := ih (r := r.new d file) rfl
    exact ⟨r', (r.le_new d file).trans hle, hw'⟩
  | home _ ih => exact ih hw
  | @load β fuel z next w v w' g hg _ ih =>
    subst hw
    have hload := Register.loads ctx fuel r z
    rw [hg] at hload
    cases hload with
    | @ok r₁ _ _ _ _ hle hw₁ _ =>
      obtain ⟨r', hle', hw'⟩ := ih (r := r₁) hw₁.1
      exact ⟨r', hle.trans hle', hw'⟩
  | @inside β fuel z next w w' hz _ ih =>
    subst hw
    obtain ⟨r', hle, hw'⟩ := ih (r := r.record z .pending (by simp)) rfl
    exact ⟨r', (Register.le_pending hz le_rfl).trans hle, hw'⟩

/-! ## Between evaluations -/

/-- What there is between two evaluations: the shared state, the functions that have been handed
out, and with which globals executions of modules have ended. -/
structure Scene where
  world : World
  held : Function → Prop
  ended : String → Globals Value → Prop

namespace Scene

/-- Nothing has been asked for. -/
def empty : Scene := ⟨World.empty, fun _ => False, fun _ _ => False⟩

/-- An evaluation has left this state and handed out some functions. The modules that it asked for
are those that the loader knows. -/
def next (s : Scene) (w : World) (out : Function → Prop) : Scene :=
  ⟨w, fun f => s.held f ∨ out f,
    fun z g => s.ended z g ∨ w.cache.get? z = some (.loaded g)⟩

/-- An evaluation has come to this. -/
def after {α : Type} (s : Scene) (r : EStateM.Result Halt World α) (out : α → Function → Prop) :
    Scene :=
  match r with
  | .ok a w => s.next w (out a)
  | .error _ w => s.next w fun _ => False

/-- An execution of a module has ended. -/
def conclude (s : Scene) (m : String) (g : Globals Value) : Scene :=
  { s with ended := fun z h => s.ended z h ∨ (z = m ∧ h = g) }

end Scene

/-- What can be asked for from outside, and what there is then: evaluations and executions on
globals that bind what has been handed out, modules with a loader or without, and other loaders.
None of this has to end well, and none of it has to end within its allowance. In the midst of an
evaluation one may stop and look, or ask for something else. -/
inductive Use : Scene → Scene → Prop where
  | evaluate {s : Scene} (ctx : Context) (fuel : Nat) (file : String) {g : Globals Value} (e : Expr)
      (hg : g.All s.held) :
      Use s (s.after (evaluate ctx fuel file g e s.world) fun v f => v = .function f)
  | execute {s : Scene} (ctx : Context) (fuel : Nat) (file : String) {g : Globals Value}
      (p : Program) (hg : g.All s.held) :
      Use s (s.next (execute ctx fuel file g p s.world).world
        (execute ctx fuel file g p s.world).globals.Holds)
  | load {s : Scene} (ctx : Context) (fuel : Nat) (m : String) :
      Use s (s.after (load (fun m => execFile ctx fuel m m) m s.world) Globals.Holds)
  | execFile {s : Scene} {ctx : Context} {fuel : Nat} {file m : String} {g : Globals Value}
      {w : World} (h : execFile ctx fuel file m s.world = .ok g w) :
      Use s ((s.next w g.Holds).conclude m g)
  | failure {s : Scene} {ctx : Context} {fuel : Nat} {file m : String} {e : Halt} {w : World}
      (h : ScriptShell.execFile ctx fuel file m s.world = .error e w) :
      Use s (s.next w fun _ => False)
  | moment {s : Scene} {ctx : Context} {β : Type} {c : Course β} {w : World}
      (h : c.Passes ctx s.world w) : Use s (s.next w fun _ => False)
  | begin {s : Scene} : Use s { s with world := s.world.begin }
  | withCache {s : Scene} (c : Cache Value)
      (hc : ∀ z g, c.get? z = some (.loaded g) → s.ended z g) :
      Use s { s with world := { s.world with cache := c } }

theorem use_load {s : Scene} {ctx : Context} {fuel : Nat} {m : String} {g : Globals Value}
    {w : World} (h : load (fun m => execFile ctx fuel m m) m s.world = .ok g w) :
    Use s (s.next w g.Holds) := by
  have huse : Use s _ := .load ctx fuel m
  rw [h] at huse
  exact huse

theorem use_evaluate {s : Scene} {ctx : Context} {fuel : Nat} {file : String} {g : Globals Value}
    {e : Expr} {v : Value} {w : World} (hg : g.All s.held)
    (h : evaluate ctx fuel file g e s.world = .ok v w) :
    Use s (s.next w fun f => v = .function f) := by
  have huse : Use s _ := .evaluate ctx fuel file e hg
  rw [h] at huse
  exact huse

/-- What there can be. -/
def Scene.Arises (s : Scene) : Prop :=
  Relation.ReflTransGen Use Scene.empty s

namespace Register

variable {r r' : Register} {s s' : Scene} {ctx : Context}

/-- The register has what there is. -/
structure Fits (r : Register) (s : Scene) : Prop where
  world : s.world = r.world
  made : ∀ f, s.held f → r.made f
  ended : ∀ z g, s.ended z g ↔ r.ended z g

/-- The register of a state in which nothing has been made. -/
def empty : Register where
  world := World.empty
  made _ := False
  ended _ _ := False
  eq_of_id := nofun
  lt := nofun
  known := nofun
  all := nofun
  bound := nofun
  home := nofun

theorem fits_empty : empty.Fits .empty :=
  ⟨rfl, fun _ => id, fun _ _ => .rfl⟩

theorem Fits.next (h : r.Fits s) (hle : r ≤ r') {out : Function → Prop}
    (hout : ∀ f, out f → r'.made f) : r'.Fits (s.next r'.world out) where
  world := rfl
  made f hf := hf.elim (fun hf => hle.made (h.made f hf)) (hout f)
  ended z g := by
    constructor
    · rintro (hg | hg)
      · exact hle.ended ((h.ended z g).1 hg)
      · exact r'.known hg
    · exact fun hg => (hle.recent hg).imp_left (h.ended z g).2

theorem Fits.after {α : Type} (h : r.Fits s) {A : Register → α → α → Prop} {x : EvalM α}
    {out : α → Function → Prop} (hx : pairing.Evals r A (x r.world) (x r.world))
    (hout : ∀ {r' a a'}, A r' a a' → ∀ f, out a f → r'.made f) :
    ∃ r' : Register, r'.Fits (s.after (x r.world) out) ∧ KeepsHomes r.world r'.world := by
  generalize x r.world = y at hx
  cases hx with
  | @ok r' a a' w w' hle hw ha =>
    obtain ⟨rfl, -⟩ := hw
    exact ⟨r', h.next hle (hout ha), fun _ _ => home?_of_le hle⟩
  | @failed r' e e' w w' hle hw _ =>
    obtain ⟨rfl, -⟩ := hw
    exact ⟨r', h.next hle nofun, fun _ _ => home?_of_le hle⟩
  | @outOfFuel r' w w' hle hw =>
    obtain ⟨rfl, -⟩ := hw
    exact ⟨r', h.next hle nofun, fun _ _ => home?_of_le hle⟩

theorem evals_evaluate (ctx : Context) (fuel : Nat) (file : String) (e : Expr) {g : Globals Value}
    (hg : g.All r.made) : pairing.Evals r (fun r => Value.Rel (Only r.made))
      (evaluate ctx fuel file g e r.world) (evaluate ctx fuel file g e r.world) := by
  have hL := lawful ctx fuel
  have hchain : (CallChain.root file).Paired pairing.file (.root file) := .root rfl
  unfold evaluate
  refine (hL.poll (κ := r) ⟨rfl, rfl⟩).bind fun hle hw _ => ?_
  exact (hL.alike le_rfl).eval e hchain ((Scope.Rel.ofGlobals hg.rel).mono (hL.mono hle)) hw

theorem Fits.execute (h : r.Fits s) (ctx : Context) (fuel : Nat) (file : String) (p : Program)
    {g : Globals Value} (hg : g.All r.made) :
    ∃ r' : Register, r'.Fits (s.next (execute ctx fuel file g p r.world).world
      (execute ctx fuel file g p r.world).globals.Holds) ∧ KeepsHomes r.world r'.world := by
  have hchain : (CallChain.root file).Paired pairing.file (.root file) := .root rfl
  have hbody := ((lawful ctx fuel).alike le_rfl).execBlock (κ := r) p hchain
    (⟨.ofGlobals hg.rel, rfl, rfl⟩ : pairing.Machines r ⟨.ofGlobals g, r.world⟩
      ⟨.ofGlobals g, r.world⟩)
  unfold ScriptShell.execute
  generalize execBlock ctx fuel (.root file) p ⟨.ofGlobals g, r.world⟩ = y at hbody
  have hfits : ∀ {r' : Register} {m m' : Machine}, r ≤ r' → pairing.Machines r' m m' →
      ∃ r' : Register,
        r'.Fits (s.next m.world m.scope.globals.Holds) ∧ KeepsHomes r.world r'.world := by
    rintro r' m m' hle ⟨hscope, hw, -⟩
    rw [hw]
    exact ⟨r', h.next hle fun f => hscope.globals.all.holds, fun _ _ => home?_of_le hle⟩
  cases hbody with
  | ok hle hm _ => exact hfits hle hm
  | failed hle hm _ => exact hfits hle hm
  | outOfFuel hle hm => exact hfits hle hm

/-- An execution of a module, whatever came of it. -/
theorem executes_any (r : Register) (ctx : Context) (fuel : Nat) (file m : String) :
    Executes r m (ScriptShell.execFile ctx fuel file m r.world) := by
  cases fuel with
  | zero =>
    simp only [ScriptShell.execFile]
    exact .error le_rfl
  | succ fuel => exact executes (lawful ctx fuel) r file m

theorem Fits.use (h : r.Fits s) (hu : Use s s') :
    ∃ r' : Register, r'.Fits s' ∧ KeepsHomes s.world s'.world := by
  have hholds : ∀ {r : Register} {g g' : Globals Value}, Globals.Rel (Only r.made) g g' →
      ∀ f, g.Holds f → r.made f := fun hg f hf => (hg.holds hf).elim fun _ hf => hf.1.2
  suffices hkept : ∃ r' : Register, r'.Fits s' ∧ KeepsHomes r.world r'.world by
    obtain ⟨r', hr', hhomes⟩ := hkept
    rw [h.world, hr'.world]
    exact ⟨r', hr', hhomes⟩
  cases hu with
  | evaluate ctx fuel file e hg =>
    rw [h.world]
    refine h.after (evals_evaluate ctx fuel file e (hg.mono h.made)) ?_
    rintro r' v v' hv f rfl
    exact hv.all
  | execute ctx fuel file p hg =>
    rw [h.world]
    exact h.execute ctx fuel file p (hg.mono h.made)
  | load ctx fuel m =>
    rw [h.world]
    exact h.after (loads ctx fuel r m) hholds
  | @execFile ctx fuel file m g w hexec =>
    have hexecutes := r.executes_any ctx fuel file m
    rw [← h.world, hexec] at hexecutes
    cases hexecutes with
    | @ok r' _ hle hg =>
      have hfits : r'.Fits (s.next r'.world g.Holds) := h.next hle fun f => hg.holds
      refine ⟨r'.settle m g hg, ⟨rfl, hfits.made, fun z u => or_congr_left (hfits.ended z u)⟩, ?_⟩
      exact fun id u hu => Store.home?_settle_of_some (home?_of_le hle hu)
  | @failure ctx fuel file m e w hexec =>
    have hexecutes := r.executes_any ctx fuel file m
    rw [← h.world, hexec] at hexecutes
    cases hexecutes with
    | @error r' _ hle =>
      exact ⟨r', h.next hle nofun, fun _ _ => home?_of_le hle⟩
  | moment hpasses =>
    obtain ⟨r', hle, rfl⟩ := hpasses.register h.world
    exact ⟨r', h.next hle nofun, fun _ _ => home?_of_le hle⟩
  | begin => exact ⟨r.polled 0, ⟨congrArg World.begin h.world, h.made, h.ended⟩, .refl _⟩
  | withCache c hc =>
    refine ⟨r.withCache c fun z g hz => (h.ended z g).1 (hc z g hz), ⟨?_, h.made, h.ended⟩,
      .refl _⟩
    rw [h.world]
    rfl

end Register

/-! ## Where names are looked up -/

theorem Scene.Arises.fits {s : Scene} (h : s.Arises) : ∃ r : Register, r.Fits s := by
  induction h with
  | refl => exact ⟨.empty, Register.fits_empty⟩
  | tail _ hu ih =>
    obtain ⟨r, hr⟩ := ih
    obtain ⟨r', hr', -⟩ := hr.use hu
    exact ⟨r', hr'⟩

/-- Whatever is asked for, what has a home keeps it. -/
theorem Scene.Arises.keepsHomes {s s' : Scene} (h : s.Arises)
    (hlater : Relation.ReflTransGen Use s s') : KeepsHomes s.world s'.world := by
  induction hlater with
  | refl => exact .refl _
  | tail hlater hu ih =>
    obtain ⟨r, hr⟩ := Scene.Arises.fits (h.trans hlater)
    obtain ⟨-, -, hhomes⟩ := hr.use hu
    exact ih.trans hhomes

/-- An execution of a module, direct or by a loader, left a function of the module bound. Then there
are such final globals of the module, the only ones if it has been executed once, in which the names
of the function are looked up from then on: in every evaluation, at every moment of it, whoever
calls the function with whatever arguments, and wherever in its body a name stands. What is no local
there is looked up in these globals and then among the builtin functions; the globals of the caller
do not matter. -/
theorem bound_function_keeps_home {s : Scene} (hs : s.Arises) {m : String} {g : Globals Value}
    {f : Function} (hg : s.ended m g) (hf : g.Holds f) (hfile : f.file = m) :
    ∃ h, s.ended m h ∧ h.Holds f ∧
      (∀ {s'}, Relation.ReflTransGen Use s s' → ∀ ctx fuel chain scope args p,
        call ctx (fuel + 1) chain scope (.function f) args p s'.world =
          callIn ctx fuel chain h f args p s'.world) ∧
      (∀ ctx fuel chain ss (mach : Machine), mach.Inside h →
        Stays (Machine.Inside h) (execBlock ctx fuel chain ss mach)) ∧
      ∀ (mach : Machine) name, mach.Inside h → mach.scope.local? name = none →
        mach.scope.lookup name = (h.get? name).or ((Builtin.ofName? name).map .builtin) := by
  obtain ⟨r, hr⟩ := hs.fits
  have hended := (hr.ended m g).1 hg
  obtain ⟨h, hh⟩ := r.bound hended hf hfile
  obtain ⟨hfinal, hholds⟩ := r.home_of_made ((r.all hended).holds hf) hh
  refine ⟨h, (hr.ended m h).2 (hfile ▸ hfinal), hholds, ?_, ?_, ?_⟩
  · intro s' hlater ctx fuel chain scope args p
    rw [← hr.world] at hh
    rw [call_eq_callIn, hs.keepsHomes hlater f.id h hh, Option.getD_some]
  · exact fun ctx fuel chain ss mach hm => stays_inside ctx fuel chain ss hm
  · rintro mach name ⟨t, ht⟩ hlocal
    rw [Scope.lookup_of_not_local hlocal, ht]

/-- A module with a function, and one whose function makes another. -/
def homeLibrary : Library := .ofTexts <| .ofList
  [("get", "x = 7\ndef get():\n    return x\n"),
    ("make", "x = 7\ndef make():\n    def inner():\n        return x\n    return inner\n")]

/-- Ask a loader for one of them. -/
def homeLoad (m : String) : EvalM (Globals Value) :=
  load (fun m => execFile ⟨homeLibrary, true, none⟩ 20 m m) m

def seven : Value := .int ⟨7, by decide, by decide⟩

def two : Value := .int ⟨2, by decide, by decide⟩

def getter : Function :=
  ⟨0, ⟨"get", [], [.return_ (some (.name "x" ⟨3, 12⟩)) ⟨3, 5⟩], ⟨2, 1⟩⟩, "get"⟩

def getterFinals : Globals Value :=
  .freeze (.ofList [("get", .function getter), ("x", seven)])

/-- The module with the function has been loaded. -/
def getterScene : Scene :=
  Scene.empty.next (left (homeLoad "get" World.empty)) getterFinals.Holds

theorem bound_function_keeps_home_getter :
    getterScene.Arises ∧ getterScene.ended "get" getterFinals ∧ getterFinals.Holds getter ∧
      getter.file = "get" ∧ ∀ ctx fuel chain scope args p,
        call ctx (fuel + 1) chain scope (.function getter) args p getterScene.world =
          callIn ctx fuel chain getterFinals getter args p getterScene.world := by
  have hload : homeLoad "get" World.empty =
      .ok getterFinals (left (homeLoad "get" World.empty)) := by cbv
  have harises : getterScene.Arises := .single (use_load hload)
  have hcache : getterScene.world.cache.get? "get" = some (.loaded getterFinals) := by cbv
  have hholds : getterFinals.Holds getter := by
    have hvalues : getterFinals.toList.map Prod.snd = [.function getter, seven] := by cbv
    rw [Globals.Holds, hvalues]
    exact List.mem_cons_self
  obtain ⟨h, hh, -, hcall, -⟩ := bound_function_keeps_home harises (.inr hcache) hholds rfl
  have heq : h = getterFinals := by
    rcases hh with hh | hh
    · exact hh.elim
    · exact (Entry.loaded.inj (Option.some.inj (hcache.symm.trans hh))).symm
  subst heq
  exact ⟨harises, .inr hcache, hholds, rfl, hcall .refl⟩

/-- A function that no execution of its module has left bound has no home: its names are looked up
in the globals of whoever calls it. -/
theorem unbound_function_has_no_home {s : Scene} (hs : s.Arises) {f : Function} (hf : s.held f)
    (hunbound : ∀ h, s.ended f.file h → ¬ h.Holds f) (ctx : Context) (fuel : Nat)
    (chain : CallChain) (scope : Scope) (args : List Value) (p : Pos) :
    call ctx (fuel + 1) chain scope (.function f) args p s.world =
      callIn ctx fuel chain scope.globals f args p s.world := by
  obtain ⟨r, hr⟩ := hs.fits
  have hnone : s.world.engine.home? f.id = none := by
    rw [hr.world]
    refine Option.eq_none_iff_forall_ne_some.2 fun h hh => ?_
    obtain ⟨hended, hholds⟩ := r.home_of_made (hr.made f hf) hh
    exact hunbound h ((hr.ended f.file h).2 hended) hholds
  rw [call_eq_callIn, hnone, Option.getD_none]

def makerFinals : Globals Value :=
  .freeze (.ofList [("make", .function ⟨0, ⟨"make", [],
    [.define "inner" [] [.return_ (some (.name "x" ⟨4, 16⟩)) ⟨4, 9⟩] ⟨3, 5⟩,
      .return_ (some (.name "inner" ⟨5, 12⟩)) ⟨5, 5⟩], ⟨2, 1⟩⟩, "make"⟩), ("x", seven)])

/-- The function that a call of `make` makes. -/
def inner : Function :=
  ⟨1, ⟨"inner", [], [.return_ (some (.name "x" ⟨4, 16⟩)) ⟨4, 9⟩], ⟨3, 5⟩⟩, "make"⟩

/-- The module whose function makes another has been loaded. -/
def makerScene : Scene :=
  Scene.empty.next (left (homeLoad "make" World.empty)) makerFinals.Holds

/-- Its function is called. -/
def callMake : EvalM Value :=
  evaluate ⟨homeLibrary, true, none⟩ 20 "t" makerFinals (.call (.name "make" ⟨1, 1⟩) [] ⟨1, 5⟩)

/-- There is the function that was made. -/
def innerScene : Scene :=
  makerScene.next (left (callMake makerScene.world)) fun f => Value.function inner = .function f

/-- A function of a module that was made by a call looks a name up in the globals of its caller,
though the final globals of its module bind the name. -/
theorem inner_asks_caller :
    innerScene.Arises ∧ innerScene.held inner ∧ inner.file = "make" ∧
      innerScene.ended "make" makerFinals ∧ makerFinals.get? "x" = some seven ∧
      ∃ w, call ⟨homeLibrary, true, none⟩ 20 (.root "t") (.ofGlobals (.ofList [("x", two)]))
        (.function inner) [] ⟨1, 1⟩ innerScene.world = .ok two w := by
  have hload : homeLoad "make" World.empty =
      .ok makerFinals (left (homeLoad "make" World.empty)) := by cbv
  have hcall : callMake makerScene.world =
      .ok (.function inner) (left (callMake makerScene.world)) := by cbv
  have hheld : makerFinals.All makerScene.held := Globals.all_of_holds fun _ => .inr
  have hended : makerScene.ended "make" makerFinals := .inr (by cbv)
  refine ⟨.tail (.single (use_load hload)) (use_evaluate hheld hcall), .inr rfl, rfl, .inl hended,
    by cbv, left (call ⟨homeLibrary, true, none⟩ 20 (.root "t")
      (.ofGlobals (.ofList [("x", two)])) (.function inner) [] ⟨1, 1⟩ innerScene.world), by cbv⟩

end ScriptShell
