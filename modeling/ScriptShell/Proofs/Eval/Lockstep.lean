import ScriptShell.Proofs.Eval.Meaning

/-!
# ScriptShell.Proofs.Eval.Lockstep

Alike programs in alike states run in lockstep: where the first succeeds, the second does, and they
leave alike states. The functions that they make get the same numbers.

* `Stands`: functions that differ in the places of their definitions alone.
* `World.Rel`: shared states whose functions do.
* `lockstep`: alike courses succeed alike.
* `execute_lockstep`: alike programs do.
* `execute_cons`: executing a statement and then others.
-/

namespace ScriptShell

variable {π : Pos → Pos}

/-- The functions differ in the places of their definitions alone. -/
structure Stands (π : Pos → Pos) (f f' : Function) : Prop where
  id : f.id = f'.id
  file : f.file = f'.file
  definition : f.definition.mapPos π = f'.definition.mapPos π

theorem renaming_stands : Renaming π (Stands π) where
  definition h := h.definition
  file h := h.file
  id_iff h h' := by rw [h.id, h'.id]

theorem Globals.stands_refl (g : Globals Value) : Globals.Rel (Stands π) g g :=
  g.rel_refl.mono fun f f' h => by
    subst h
    exact ⟨rfl, rfl, rfl⟩

inductive Entry.Rel (R : FunRel) : Entry Value → Entry Value → Prop where
  | pending : Rel R .pending .pending
  | loaded {g g' : Globals Value} (h : Globals.Rel R g g') : Rel R (.loaded g) (.loaded g')
  | failed (e e' : Error) : Rel R (.failed e) (.failed e')

/-- The homes of functions, by number. -/
abbrev SameHomes (R : FunRel) :
    List (Nat × Option (Globals Value)) → List (Nat × Option (Globals Value)) → Prop :=
  List.Forall₂ fun h h' => h.1 = h'.1 ∧ Option.Rel (Globals.Rel R) h.2 h'.2

theorem SameHomes.lookup {R : FunRel} {hs hs' : List (Nat × Option (Globals Value))}
    (h : SameHomes R hs hs') (id : Nat) :
    Option.Rel (Option.Rel (Globals.Rel R)) (hs.lookup id) (hs'.lookup id) := by
  induction h with
  | nil => exact .none
  | @cons a a' hs hs' ha _ ih =>
    obtain ⟨n, o⟩ := a
    obtain ⟨n', o'⟩ := a'
    obtain ⟨rfl, ho⟩ := ha
    rw [List.lookup_cons, List.lookup_cons]
    dsimp only
    cases id == n with
    | true => exact .some ho
    | false => exact ih

/-- Shared states that differ in what the relation allows, and in the polls. -/
structure World.Rel (R : FunRel) (w w' : World) : Prop where
  cache : Table.Rel (Entry.Rel R) w.cache w'.cache
  next : w.engine.nextFunction = w'.engine.nextFunction
  homes : SameHomes R w.engine.homes w'.engine.homes

namespace World.Rel

variable {R : FunRel} {w w' : World}

theorem refl (hR : ∀ f, R f f) (w : World) : World.Rel R w w := by
  have hglobals : ∀ g : Globals Value, Globals.Rel R g g := fun g =>
    g.rel_refl.mono fun f f' (h : f = f') => h ▸ hR f
  refine ⟨List.forall₂_same.2 fun e _ => ⟨rfl, ?_⟩, rfl, List.forall₂_same.2 fun h _ => ⟨rfl, ?_⟩⟩
  · cases e.2 with
    | pending => exact .pending
    | loaded g => exact .loaded (hglobals g)
    | failed e => exact .failed e e
  · cases h.2 with
    | none => exact .none
    | some g => exact .some (hglobals g)

/-- The polls do not matter. -/
theorem polls (h : World.Rel R w w') {n n' : Nat} :
    World.Rel R { w with engine := { w.engine with polls := n } }
      { w' with engine := { w'.engine with polls := n' } } :=
  ⟨h.cache, h.next, h.homes⟩

theorem begin_right (h : World.Rel R w w') : World.Rel R w w'.begin :=
  ⟨h.cache, h.next, h.homes⟩

theorem home? (h : World.Rel R w w') {f f' : Function} (hf : f.id = f'.id) :
    Option.Rel (Globals.Rel R) (w.engine.home? f.id) (w'.engine.home? f'.id) := by
  have hlookup := h.homes.lookup f.id
  unfold Store.home?
  rw [← hf]
  generalize w.engine.homes.lookup f.id = o, w'.engine.homes.lookup f.id = o' at hlookup
  cases hlookup with
  | none => exact .none
  | some ho => exact ho

theorem record (h : World.Rel R w w') (m : String) {e e' : Entry Value} (he : Entry.Rel R e e') :
    World.Rel R (w.record m e) (w'.record m e') :=
  ⟨h.cache.insert m he, h.next, h.homes⟩

theorem settleValue (h : World.Rel (Stands π) w w') (m : String) {g g' : Globals Value}
    (hg : Globals.Rel (Stands π) g g') {v v' : Value} (hv : Value.Rel (Stands π) v v') :
    World.Rel (Stands π) { w with engine := Store.settleValue m g w.engine v }
      { w' with engine := Store.settleValue m g' w'.engine v' } := by
  cases hv with
  | @function f f' hf =>
    have hlookup := h.homes.lookup f.id
    have hnone : (w.engine.homes.lookup f.id).isNone = (w'.engine.homes.lookup f'.id).isNone := by
      rw [← hf.id]
      generalize w.engine.homes.lookup f.id = o, w'.engine.homes.lookup f.id = o' at hlookup
      cases hlookup <;> rfl
    simp only [Store.settleValue, hf.file, hnone]
    split
    · exact ⟨h.cache, h.next, .cons ⟨hf.id, .some hg⟩ h.homes⟩
    · exact h
  | _ => exact h

theorem settle (h : World.Rel (Stands π) w w') (m : String) {g g' : Globals Value}
    (hg : Globals.Rel (Stands π) g g') :
    World.Rel (Stands π) { w with engine := w.engine.settle m g }
      { w' with engine := w'.engine.settle m g' } := by
  have hvalues : List.Forall₂ (Value.Rel (Stands π)) (g.toList.map Prod.snd)
      (g'.toList.map Prod.snd) := by
    rw [List.forall₂_map_left_iff, List.forall₂_map_right_iff]
    exact List.Forall₂.imp (fun _ _ he => he.2) hg.bindings
  unfold Store.settle
  generalize g.toList.map Prod.snd = vs, g'.toList.map Prod.snd = vs' at hvalues
  induction hvalues generalizing w w' with
  | nil => exact h
  | cons hv _ ih => exact ih (h.settleValue m hg hv)

end World.Rel

/-! ## Courses -/

/-- Executing a module with the greater allowance succeeds like it does with the smaller one. -/
def Follows (ctx : Context) (π : Pos → Pos) (fuel fuel' : Nat) : Prop :=
  ∀ ⦃m w w' g w₁⦄, World.Rel (Stands π) w w' → execFile ctx fuel m m w = .ok g w₁ →
    ∃ g' w₁', execFile ctx fuel' m m w' = .ok g' w₁' ∧ Globals.Rel (Stands π) g g' ∧
      World.Rel (Stands π) w₁ w₁'

theorem poll_eq {ctx : Context} (hctx : ctx.cancelFrom = none) (w : World) :
    poll ctx w = .ok () { w with engine := { w.engine with polls := w.engine.polls + 1 } } := by
  simp [poll, Context.cancelledAt, hctx]

theorem load_lockstep {ctx : Context} {fuel fuel' : Nat} (h : Follows ctx π fuel fuel')
    {m : String} {w w' w₁ : World} {g : Globals Value} (hw : World.Rel (Stands π) w w')
    (hload : load (fun m => execFile ctx fuel m m) m w = .ok g w₁) :
    ∃ g' w₁', load (fun m => execFile ctx fuel' m m) m w' = .ok g' w₁' ∧
      Globals.Rel (Stands π) g g' ∧ World.Rel (Stands π) w₁ w₁' := by
  have hentry := hw.cache.get? m
  unfold load at hload ⊢
  generalize w.cache.get? m = o, w'.cache.get? m = o' at hentry hload
  cases hentry with
  | some he =>
    cases he with
    | pending => cases hload
    | failed e e' => cases hload
    | loaded hg =>
      cases hload
      exact ⟨_, _, rfl, hg, hw⟩
  | none =>
    dsimp only at hload ⊢
    cases hexec : execFile ctx fuel m m (w.record m .pending) with
    | error e w₂ =>
      rw [hexec] at hload
      rcases e with ⟨_ | _⟩ | _ <;> cases hload
    | ok g₂ w₂ =>
      rw [hexec] at hload
      cases hload
      obtain ⟨g', w₁', hexec', hg, hw₁⟩ := h (hw.record m .pending) hexec
      rw [hexec']
      exact ⟨g', _, rfl, hg, hw₁.record m (.loaded hg)⟩

/-- Alike courses in alike states succeed alike, if the modules that they load do. -/
theorem lockstep {ctx : Context} (hctx : ctx.cancelFrom = none) {gap bound : Nat} {file₀ : String}
    {β γ : Type} {A : FunRel → β → γ → Prop} {R : FunRel} (hR : R = Stands π)
    (hload : ∀ fuel fuel', fuel < bound → fuel + gap ≤ fuel' → Follows ctx π fuel fuel')
    {c : Course β} {c' : Course γ} (h : Course.Rel π gap bound file₀ A R c c')
    {w w' w₁ : World} {b : β} (hw : World.Rel (Stands π) w w') (hrun : c.run ctx w = .ok b w₁) :
    ∃ b' w₁', c'.run ctx w' = .ok b' w₁' ∧ A (Stands π) b b' ∧ World.Rel (Stands π) w₁ w₁' := by
  induction h generalizing w w' with
  | value h =>
    cases hrun
    exact ⟨_, _, rfl, hR ▸ h, hw⟩
  | fail h hplain => cases hrun
  | stuck => cases hrun
  | poll h ih =>
    have hpoll : ∀ {δ : Type} (c : Course δ) (w : World), (Course.poll c).run ctx w =
        c.run ctx { w with engine := { w.engine with polls := w.engine.polls + 1 } } := by
      intro δ c w
      change EStateM.bind _ _ _ = _
      rw [EStateM.bind, poll_eq hctx]
    rw [hpoll] at hrun ⊢
    exact ih hR hw.polls hrun
  | @new R d d' file k k' hd hfile h ih =>
    subst hR
    have hf : Stands π ⟨w.engine.nextFunction, d, file⟩ ⟨w'.engine.nextFunction, d', file⟩ :=
      ⟨hw.next, rfl, hd⟩
    have hnext : w.engine.nextFunction + 1 = w'.engine.nextFunction + 1 := by rw [hw.next]
    have hw' : World.Rel (Stands π)
        { w with engine := { w.engine with nextFunction := w.engine.nextFunction + 1 } }
        { w' with engine := { w'.engine with nextFunction := w'.engine.nextFunction + 1 } } :=
      ⟨hw.cache, hnext, hw.homes⟩
    exact ih _ _ _ le_rfl renaming_stands hf rfl hw' hrun
  | home hf h ih =>
    subst hR
    exact ih _ _ _ le_rfl renaming_stands (hw.home? hf.id) rfl hw hrun
  | @load R fuel fuel' m k k' hfuel hbound h ih =>
    subst hR
    change EStateM.bind _ _ _ = _ at hrun
    rw [EStateM.bind] at hrun
    cases hg : load (fun m => execFile ctx fuel m m) m w with
    | error e w₂ =>
      rw [hg] at hrun
      cases hrun
    | ok g w₂ =>
      rw [hg] at hrun
      obtain ⟨g', w₂', hg', hgg, hw₂⟩ := load_lockstep (hload fuel fuel' hbound hfuel) hw hg
      obtain ⟨b', w₁', hb', hbb, hw₁⟩ := ih _ _ _ le_rfl renaming_stands hgg rfl hw₂ hrun
      refine ⟨b', w₁', ?_, hbb, hw₁⟩
      change EStateM.bind _ _ _ = _
      rw [EStateM.bind, hg']
      exact hb'

theorem follows {ctx : Context} (hctx : ctx.cancelFrom = none) {fuel fuel' : Nat}
    (hfuel : fuel ≤ fuel') : Follows ctx π fuel fuel' := by
  induction fuel using Nat.strongRecOn generalizing fuel' with
  | ind fuel ih =>
    intro m w w' g w₁ hw h
    cases fuel with
    | zero => cases h
    | succ fuel =>
      obtain ⟨k, rfl⟩ : ∃ k, fuel' = k + 1 := ⟨fuel' - 1, by omega⟩
      rw [execFile_succ] at h
      cases hrun : (Course.ofModule ctx.library ctx.canLoad fuel m).run ctx w with
      | error e w₂ =>
        rw [hrun] at h
        cases h
      | ok g₂ w₂ =>
        rw [hrun] at h
        cases h
        have hk : fuel + 0 ≤ k := by omega
        have hcourse := rel_ofModule π ctx.library ctx.canLoad hk le_rfl m renaming_stands
        have hload : ∀ n n', n < fuel → n + 0 ≤ n' → Follows ctx π n n' := by
          intro n n' hn hn'
          exact ih n (by omega) hn'
        obtain ⟨g', w₂', hrun', hg, hw₂⟩ := lockstep hctx rfl hload hcourse hw hrun
        refine ⟨g', { w₂' with engine := w₂'.engine.settle m g' }, ?_, hg, hw₂.settle m hg⟩
        rw [execFile_succ, hrun']

/-! ## Programs -/

/-- The context of an evaluation that nothing stops. -/
abbrev Context.undisturbed (lib : Library) : Context := ⟨lib, true, none⟩

section
variable {lib : Library} {fuel fuel' : Nat} {file : String} {g g' : Globals Value} {w w' : World}

theorem lockstep_undisturbed {β γ : Type} {A : FunRel → β → γ → Prop} {c : Course β} {c' : Course γ}
    {file₀ : String} (h : Course.Rel π 0 fuel file₀ A (Stands π) c c') {w₁ : World} {b : β}
    (hw : World.Rel (Stands π) w w') (hrun : c.run (.undisturbed lib) w = .ok b w₁) :
    ∃ b' w₁', c'.run (.undisturbed lib) w' = .ok b' w₁' ∧ A (Stands π) b b' ∧
      World.Rel (Stands π) w₁ w₁' :=
  lockstep rfl rfl (fun _ _ _ hn => follows rfl hn) h hw hrun

theorem execute_lockstep (hfuel : fuel ≤ fuel') {p p' : Program}
    (hp : p.map (Stmt.mapPos π) = p'.map (Stmt.mapPos π)) (hg : Globals.Rel (Stands π) g g')
    (hw : World.Rel (Stands π) w w')
    (h : (execute (.undisturbed lib) fuel file g p w).outcome = .ok ()) :
    (execute (.undisturbed lib) fuel' file g' p' w').outcome = .ok () ∧
      Globals.Rel (Stands π) (execute (.undisturbed lib) fuel file g p w).globals
        (execute (.undisturbed lib) fuel' file g' p' w').globals ∧
      World.Rel (Stands π) (execute (.undisturbed lib) fuel file g p w).world
        (execute (.undisturbed lib) fuel' file g' p' w').world := by
  have hgap : fuel + 0 ≤ fuel' := hfuel
  have hcourse := (Course.parametric π 0 fuel file true hgap le_rfl).execBlock renaming_stands
    (.root file) (.ofGlobals hg) hp
  have hrun := drop_execBlock (.undisturbed lib) fuel (.root file) p (.ofGlobals g) w
  have hrun' := drop_execBlock (.undisturbed lib) fuel' (.root file) p' (.ofGlobals g') w'
  unfold execute at h ⊢
  cases hx : execBlock (.undisturbed lib) fuel (.root file) p ⟨.ofGlobals g, w⟩ with
  | error e m =>
    rw [hx] at h
    cases h
  | ok flow m =>
    rw [hx] at hrun
    obtain ⟨r, w₁', hr, hended, hw₁⟩ := lockstep_undisturbed hcourse hw hrun.symm
    rw [hr] at hrun'
    cases hx' : execBlock (.undisturbed lib) fuel' (.root file) p' ⟨.ofGlobals g', w'⟩ with
    | error e' m' =>
      rw [hx'] at hrun'
      cases hrun'
    | ok flow' m' =>
      rw [hx'] at hrun'
      cases hrun'
      exact ⟨rfl, hended.2.globals, hw₁⟩

theorem evaluate_lockstep (hfuel : fuel ≤ fuel') {e e' : Expr} (he : e.mapPos π = e'.mapPos π)
    (hg : Globals.Rel (Stands π) g g') (hw : World.Rel (Stands π) w w') {v : Value} {w₁ : World}
    (h : evaluate (.undisturbed lib) fuel file g e w = .ok v w₁) :
    ∃ v' w₁', evaluate (.undisturbed lib) fuel' file g' e' w' = .ok v' w₁' ∧
      World.Rel (Stands π) w₁ w₁' := by
  have hgap : fuel + 0 ≤ fuel' := hfuel
  have hcourse := (Course.parametric π 0 fuel file true hgap le_rfl).eval renaming_stands
    (.root file) (.ofGlobals hg) he
  unfold evaluate at h ⊢
  rw [eval_eq_run] at h ⊢
  obtain ⟨v', w₁', hv', -, hw₁⟩ := lockstep_undisturbed hcourse.poll hw h
  exact ⟨v', w₁', hv', hw₁⟩

end

/-! ## One statement after the other -/

theorem bind_ok {σ α β : Type} {x : EStateM Halt σ α} {f : α → EStateM Halt σ β} {s s' : σ} {b : β}
    (h : (x >>= f) s = .ok b s') : ∃ a s₁, x s = .ok a s₁ ∧ f a s₁ = .ok b s' := by
  change EStateM.bind x f s = _ at h
  rw [EStateM.bind] at h
  cases hx : x s with
  | error e s₁ =>
    rw [hx] at h
    cases h
  | ok a s₁ =>
    rw [hx] at h
    exact ⟨a, s₁, rfl, h⟩

/-- Is it an expression, an assignment or a load statement? -/
def Stmt.isDirect : Stmt → Bool
  | .expr .. | .assign .. | .load .. => true
  | _ => false

section
variable {ctx : Context} {fuel : Nat} {chain : CallChain} {m m' : Machine}

theorem onWorld_ok {α : Type} {x : EvalM α} {a : α} (h : onWorld x m = .ok a m') :
    x m.world = .ok a m'.world ∧ m'.scope = m.scope := by
  unfold onWorld at h
  cases hx : x m.world <;> rw [hx] at h <;> cases h
  exact ⟨rfl, rfl⟩

theorem bindName_locals {p : Pos} {name : String} {v : Value} (hm : m.scope.locals = none)
    (h : bindName chain p name v m = .ok () m') : m'.scope.locals = none := by
  unfold bindName Scope.bind at h
  rw [hm] at h
  dsimp only at h
  cases hs : m.scope.globals.set name v with
  | error f =>
    rw [hs] at h
    cases h
  | ok g =>
    rw [hs] at h
    cases h
    rfl

theorem bindImports_locals {p : Pos} {module : String} {exports : Globals Value}
    {is : List Import} (hm : m.scope.locals = none)
    (h : bindImports chain p module exports is m = .ok () m') : m'.scope.locals = none := by
  induction is generalizing m with
  | nil =>
    cases h
    exact hm
  | cons i is ih =>
    rw [bindImports] at h
    split at h
    · cases h
    · cases hv : exports.get? i.exported with
      | none =>
        rw [hv] at h
        cases h
      | some v =>
        rw [hv] at h
        obtain ⟨_, m₁, hbind, h⟩ := bind_ok h
        exact ih (bindName_locals hm hbind) h

/-- Such a statement does not return, and leaves no locals. -/
theorem execStmt_direct {s : Stmt} (hs : s.isDirect = true) {flow : Flow}
    (hm : m.scope.locals = none) (h : execStmt ctx fuel chain s m = .ok flow m') :
    flow = .next ∧ m'.scope.locals = none := by
  cases fuel with
  | zero => cases h
  | succ fuel =>
    cases s with
    | expr e p =>
      simp only [execStmt] at h
      obtain ⟨_, m₁, hpoll, h⟩ := bind_ok h
      have hm₁ : m₁.scope.locals = none := by rw [(onWorld_ok hpoll).2, hm]
      obtain ⟨_, m₂, heval, h⟩ := bind_ok h
      cases h
      exact ⟨rfl, by rw [(onWorld_ok heval).2, hm₁]⟩
    | assign name e p =>
      simp only [execStmt] at h
      obtain ⟨_, m₁, hpoll, h⟩ := bind_ok h
      have hm₁ : m₁.scope.locals = none := by rw [(onWorld_ok hpoll).2, hm]
      obtain ⟨_, m₂, heval, h⟩ := bind_ok h
      obtain ⟨_, m₃, hbind, h⟩ := bind_ok h
      cases h
      exact ⟨rfl, bindName_locals (by rw [(onWorld_ok heval).2, hm₁]) hbind⟩
    | load module imports p =>
      simp only [execStmt] at h
      obtain ⟨_, m₁, hpoll, h⟩ := bind_ok h
      have hm₁ : m₁.scope.locals = none := by rw [(onWorld_ok hpoll).2, hm]
      obtain ⟨_, m₂, hload, h⟩ := bind_ok h
      obtain ⟨_, m₃, hbind, h⟩ := bind_ok h
      cases h
      exact ⟨rfl, bindImports_locals (by rw [(onWorld_ok hload).2, hm₁]) hbind⟩
    | _ => cases hs

end

section
variable {ctx : Context} {fuel : Nat} {file : String} {g : Globals Value} {w : World}

theorem machine_eq {m : Machine} (hm : m.scope.locals = none) :
    m = ⟨.ofGlobals m.scope.globals, m.world⟩ := by
  obtain ⟨⟨g, l⟩, w⟩ := m
  cases hm
  rfl

/-- Executing statements is executing the first and then the others. -/
theorem execute_cons {s : Stmt} (hs : s.isDirect = true) {ss : List Stmt}
    (h : (execute ctx fuel file g (s :: ss) w).outcome = .ok ()) :
    (execute ctx fuel file g [s] w).outcome = .ok () ∧
      ∃ n ≤ fuel, execute ctx n file (execute ctx fuel file g [s] w).globals ss
        (execute ctx fuel file g [s] w).world = execute ctx fuel file g (s :: ss) w := by
  cases fuel with
  | zero => cases h
  | succ n =>
    cases hstmt : execStmt ctx n (.root file) s ⟨.ofGlobals g, w⟩ with
    | error e m =>
      have hx : execBlock ctx (n + 1) (.root file) (s :: ss) ⟨.ofGlobals g, w⟩ = .error e m := by
        simp only [execBlock]
        change EStateM.bind _ _ _ = _
        rw [EStateM.bind, hstmt]
      rw [execute, hx] at h
      cases h
    | ok flow m =>
      obtain ⟨rfl, hm⟩ := execStmt_direct hs rfl hstmt
      have hx : ∀ ss, execBlock ctx (n + 1) (.root file) (s :: ss) ⟨.ofGlobals g, w⟩ =
          execBlock ctx n (.root file) ss m := by
        intro ss
        simp only [execBlock]
        change EStateM.bind _ _ _ = _
        rw [EStateM.bind, hstmt]
      have hone : execute ctx (n + 1) file g [s] w = ⟨.ok (), m.scope.globals, m.world⟩ := by
        cases n with
        | zero => cases hstmt
        | succ n =>
          rw [execute, hx, execBlock]
          rfl
      rw [hone]
      refine ⟨rfl, n, Nat.le_succ n, ?_⟩
      rw [execute, execute, hx]
      rw [← machine_eq hm]

/-- Executing an expression is evaluating it. -/
theorem execute_expr {e : Expr} {p : Pos}
    (h : (execute ctx fuel file g [.expr e p] w).outcome = .ok ()) :
    (execute ctx fuel file g [.expr e p] w).globals = g ∧ ∃ n ≤ fuel, ∃ v,
      evaluate ctx n file g e w = .ok v (execute ctx fuel file g [.expr e p] w).world := by
  cases hx : execBlock ctx fuel (.root file) [.expr e p] ⟨.ofGlobals g, w⟩ with
  | error f m =>
    rw [execute, hx] at h
    cases h
  | ok flow m =>
    have hexec : execute ctx fuel file g [.expr e p] w = ⟨.ok (), m.scope.globals, m.world⟩ := by
      rw [execute, hx]
    rw [hexec]
    rcases fuel with _ | _ | n
    · cases hx
    · cases hx
    · simp only [execBlock] at hx
      obtain ⟨flow', m', hstmt, hrest⟩ := bind_ok hx
      simp only [execStmt] at hstmt
      obtain ⟨_, m₁, hpoll, hstmt⟩ := bind_ok hstmt
      obtain ⟨v, m₂, heval, hstmt⟩ := bind_ok hstmt
      cases hstmt
      cases hrest
      obtain ⟨hpoll', hscope₁⟩ := onWorld_ok hpoll
      obtain ⟨heval', hscope⟩ := onWorld_ok heval
      refine ⟨by rw [hscope, hscope₁]; rfl, n, by omega, v, ?_⟩
      rw [hscope₁] at heval'
      change EStateM.bind _ _ _ = _
      rw [EStateM.bind, hpoll']
      exact heval'

end

end ScriptShell
