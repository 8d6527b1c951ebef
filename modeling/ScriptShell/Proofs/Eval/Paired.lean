import ScriptShell.Proofs.Eval.Parametric
import ScriptShell.Proofs.Loader.Sound

/-!
# ScriptShell.Proofs.Eval.Paired

Two runs of one program side by side, with one allowance. The functions and the shared states of
the one belong to those of the other, and what belongs together may grow as the runs go on. If
polls, new functions, homes and loads keep to that, everything does.

* `Pairing`: what belongs together.
* `Ends`: the two have come to the same.
* `Pairing.Lawful`: what polls, new functions, homes and loads have to keep.
* `Pairing.Lawful.alike`: what evaluations and executions keep then.
-/

namespace ScriptShell

/-! ## Failures -/

/-- Active calls in files that belong together, at the same place of the same function. -/
structure Frame.Rel (F : String → String → Prop) (f f' : Frame) : Prop where
  file : F f.location.file f'.location.file
  pos : f.location.pos = f'.location.pos
  function : f.function = f'.function

/-- Failures that differ in the files of the active calls alone. -/
inductive Error.Rel (F : String → String → Prop) : Error → Error → Prop where
  | refl (e : Error) : Rel F e e
  | eval (text : String) {fs fs' : List Frame} (h : List.Forall₂ (Frame.Rel F) fs fs') :
      Rel F (.eval text (some fs)) (.eval text (some fs'))

/-- Chains of active calls that differ in the files alone. -/
structure CallChain.Paired (F : String → String → Prop) (c c' : CallChain) : Prop where
  file : F c.file c'.file
  function : c.function = c'.function
  callers : List.Forall₂ (Frame.Rel F) c.callers c'.callers

namespace CallChain.Paired

variable {F : String → String → Prop} {c c' : CallChain}

theorem root {file file' : String} (h : F file file') :
    (CallChain.root file).Paired F (.root file') :=
  ⟨h, rfl, .nil⟩

theorem frame (h : c.Paired F c') (p : Pos) : (c.frame p).Rel F (c'.frame p) :=
  ⟨h.file, rfl, h.function⟩

theorem depth_eq (h : c.Paired F c') : c.depth = c'.depth := by
  rw [CallChain.depth, CallChain.depth, h.callers.length_eq]

theorem stackAt (h : c.Paired F c') (p : Pos) :
    List.Forall₂ (Frame.Rel F) (c.stackAt p) (c'.stackAt p) :=
  List.rel_reverse (.cons (h.frame p) h.callers)

theorem enter (h : c.Paired F c') (p : Pos) {f f' : Function} (hfile : F f.file f'.file)
    (hdefinition : f.definition = f'.definition) : (c.enter p f).Paired F (c'.enter p f') :=
  ⟨hfile, congrArg Definition.name hdefinition, .cons (h.frame p) h.callers⟩

end CallChain.Paired

/-! ## Coming to the same -/

variable {ι : Type} [Preorder ι] {σ α β : Type}

/-- Two runs that began at the stage `κ` have come to the same: results that belong together,
failures that do, or both have used up the allowance. Either way the states belong together. -/
inductive Ends (F : String → String → Prop) (S : ι → σ → σ → Prop) (κ : ι)
    (A : ι → α → α → Prop) : EStateM.Result Halt σ α → EStateM.Result Halt σ α → Prop where
  | ok {κ' : ι} {a a' : α} {s s' : σ} (hle : κ ≤ κ') (hs : S κ' s s') (ha : A κ' a a') :
      Ends F S κ A (.ok a s) (.ok a' s')
  | failed {κ' : ι} {e e' : Error} {s s' : σ} (hle : κ ≤ κ') (hs : S κ' s s')
      (he : Error.Rel F e e') :
      Ends F S κ A (.error (.failed e) s) (.error (.failed e') s')
  | outOfFuel {κ' : ι} {s s' : σ} (hle : κ ≤ κ') (hs : S κ' s s') :
      Ends F S κ A (.error .outOfFuel s) (.error .outOfFuel s')

namespace Ends

variable {F : String → String → Prop} {S : ι → σ → σ → Prop} {κ κ' : ι}
  {A : ι → α → α → Prop} {B : ι → β → β → Prop}

theorem of_le {r r' : EStateM.Result Halt σ α} (hle : κ ≤ κ') (h : Ends F S κ' A r r') :
    Ends F S κ A r r' := by
  cases h with
  | ok hle' hs ha => exact .ok (hle.trans hle') hs ha
  | failed hle' hs he => exact .failed (hle.trans hle') hs he
  | outOfFuel hle' hs => exact .outOfFuel (hle.trans hle') hs

theorem bind {x x' : EStateM Halt σ α} {f f' : α → EStateM Halt σ β} {s s' : σ}
    (h : Ends F S κ A (x s) (x' s'))
    (hf : ∀ {κ' a a' t t'}, κ ≤ κ' → S κ' t t' → A κ' a a' →
      Ends F S κ' B (f a t) (f' a' t')) :
    Ends F S κ B ((x >>= f) s) ((x' >>= f') s') := by
  change Ends F S κ B (EStateM.bind x f s) (EStateM.bind x' f' s')
  rw [EStateM.bind, EStateM.bind]
  generalize x s = r at h
  generalize x' s' = r' at h
  cases h with
  | ok hle hs ha => exact (hf hle hs ha).of_le hle
  | failed hle hs he => exact .failed hle hs he
  | outOfFuel hle hs => exact .outOfFuel hle hs

variable {chain chain' : CallChain} {s s' : σ}

theorem failAt (hc : chain.Paired F chain') (p : Pos) (f : EvalFault) (hs : S κ s s') :
    Ends F S κ A (ScriptShell.failAt chain p f s) (ScriptShell.failAt chain' p f s') :=
  .failed le_rfl hs (.eval f.message (hc.stackAt p))

theorem orFailAt {r r' : Except EvalFault α} (hc : chain.Paired F chain') (p : Pos)
    (hr : SameFault (A κ) r r') (hs : S κ s s') :
    Ends F S κ A (ScriptShell.orFailAt chain p r s) (ScriptShell.orFailAt chain' p r' s') := by
  cases hr with
  | ok ha => exact .ok le_rfl hs ha
  | error f => exact .failAt hc p f hs

end Ends

/-! ## Pairings -/

/-- What belongs together in two runs: files, and at each stage functions and shared states. -/
structure Pairing (ι : Type) where
  file : String → String → Prop
  fn : ι → FunRel
  world : ι → World → World → Prop

namespace Pairing

variable (L : Pairing ι)

/-- The states of statements belong together. -/
structure Machines (κ : ι) (m m' : Machine) : Prop where
  scope : Scope.Rel (L.fn κ) m.scope m'.scope
  world : L.world κ m.world m'.world

/-- Evaluations have come to the same. -/
abbrev Evals (κ : ι) (A : ι → α → α → Prop) :=
  Ends L.file L.world κ A

/-- Executions of statements have come to the same. -/
abbrev Execs (κ : ι) (A : ι → α → α → Prop) :=
  Ends L.file L.Machines κ A

/-- What is kept by all that a run does with the shared state; by loads with an allowance below the
bound. -/
structure Lawful (ctx : Context) (bound : Nat) : Prop where
  mono : ∀ {κ κ'}, κ ≤ κ' → L.fn κ ≤ L.fn κ'
  id_eq : ∀ {κ f f'}, L.fn κ f f' → f.id = f'.id
  definition_eq : ∀ {κ f f'}, L.fn κ f f' → f.definition = f'.definition
  fn_file : ∀ {κ f f'}, L.fn κ f f' → L.file f.file f'.file
  poll : ∀ {κ w w'}, L.world κ w w' → L.Evals κ (fun _ _ _ => True) (poll ctx w) (poll ctx w')
  new : ∀ {κ w w' file file'} (d : Definition), L.world κ w w' → L.file file file' →
    L.Evals κ L.fn (newFunction d file w) (newFunction d file' w')
  home : ∀ {κ w w' f f'}, L.world κ w w' → L.fn κ f f' →
    Option.Rel (Globals.Rel (L.fn κ)) (w.engine.home? f.id) (w'.engine.home? f'.id)
  load : ∀ fuel < bound, ∀ {κ w w'} (m : String), L.world κ w w' →
    L.Evals κ (fun κ => Globals.Rel (L.fn κ)) (load (fun m => execFile ctx fuel m m) m w)
      (load (fun m => execFile ctx fuel m m) m w')

/-- What evaluations and executions with an allowance keep. -/
structure Alike (ctx : Context) (fuel : Nat) : Prop where
  eval : ∀ {κ chain chain' scope scope' w w'} (e : Expr), chain.Paired L.file chain' →
    Scope.Rel (L.fn κ) scope scope' → L.world κ w w' →
    L.Evals κ (fun κ => Value.Rel (L.fn κ)) (eval ctx fuel chain scope e w)
      (eval ctx fuel chain' scope' e w')
  evalArgs : ∀ {κ chain chain' scope scope' w w'} (es : List Expr), chain.Paired L.file chain' →
    Scope.Rel (L.fn κ) scope scope' → L.world κ w w' →
    L.Evals κ (fun κ => List.Forall₂ (Value.Rel (L.fn κ))) (evalArgs ctx fuel chain scope es w)
      (evalArgs ctx fuel chain' scope' es w')
  call : ∀ {κ chain chain' scope scope' v v' vs vs' w w'} (p : Pos),
    chain.Paired L.file chain' → Scope.Rel (L.fn κ) scope scope' → Value.Rel (L.fn κ) v v' →
    List.Forall₂ (Value.Rel (L.fn κ)) vs vs' → L.world κ w w' →
    L.Evals κ (fun κ => Value.Rel (L.fn κ)) (call ctx fuel chain scope v vs p w)
      (call ctx fuel chain' scope' v' vs' p w')
  exec : ∀ {κ chain chain' m m'} (s : Stmt), chain.Paired L.file chain' → L.Machines κ m m' →
    L.Execs κ (fun κ => Flow.Rel (L.fn κ)) (execStmt ctx fuel chain s m)
      (execStmt ctx fuel chain' s m')
  execBlock : ∀ {κ chain chain' m m'} (ss : List Stmt), chain.Paired L.file chain' →
    L.Machines κ m m' → L.Execs κ (fun κ => Flow.Rel (L.fn κ)) (execBlock ctx fuel chain ss m)
      (execBlock ctx fuel chain' ss m')
  execLoop : ∀ {κ chain chain' m m'} (cond : Expr) (body : List Stmt),
    chain.Paired L.file chain' → L.Machines κ m m' →
    L.Execs κ (fun κ => Flow.Rel (L.fn κ)) (execLoop ctx fuel chain cond body m)
      (execLoop ctx fuel chain' cond body m')

variable {L} {ctx : Context} {bound fuel : Nat} {κ : ι} {chain chain' : CallChain}

theorem Lawful.sameCode (h : L.Lawful ctx bound) (κ : ι) : SameCode id (L.fn κ) where
  definition hf := by rw [h.definition_eq hf]
  id_iff hf hg := by rw [h.id_eq hf, h.id_eq hg]

/-! ## Statements and the shared state -/

section
variable {A : ι → α → α → Prop} {B : ι → β → β → Prop} {m m' : Machine}

theorem execs_onWorld {x x' : EvalM α} (hm : L.Machines κ m m') (hL : L.Lawful ctx bound)
    (h : L.Evals κ A (x m.world) (x' m'.world)) :
    L.Execs κ A (onWorld x m) (onWorld x' m') := by
  rw [onWorld, onWorld]
  generalize x m.world = r at h
  generalize x' m'.world = r' at h
  cases h with
  | ok hle hw ha => exact .ok hle ⟨hm.scope.mono (hL.mono hle), hw⟩ ha
  | failed hle hw he => exact .failed hle ⟨hm.scope.mono (hL.mono hle), hw⟩ he
  | outOfFuel hle hw => exact .outOfFuel hle ⟨hm.scope.mono (hL.mono hle), hw⟩

theorem evals_within {x x' : ExecM α} {scope scope' : Scope} {w w' : World}
    (h : L.Execs κ A (x ⟨scope, w⟩) (x' ⟨scope', w'⟩)) :
    L.Evals κ A (within scope x w) (within scope' x' w') := by
  rw [within, within]
  generalize x ⟨scope, w⟩ = r at h
  generalize x' ⟨scope', w'⟩ = r' at h
  cases h with
  | ok hle hm ha => exact .ok hle hm.world ha
  | failed hle hm he => exact .failed hle hm.world he
  | outOfFuel hle hm => exact .outOfFuel hle hm.world

theorem execs_bindName (hc : chain.Paired L.file chain') (p : Pos) (name : String) {v v' : Value}
    (hm : L.Machines κ m m') (hv : Value.Rel (L.fn κ) v v') :
    L.Execs κ (fun _ _ _ => True) (bindName chain p name v m) (bindName chain' p name v' m') := by
  have hbind := hm.scope.bind name hv
  rw [bindName, bindName]
  generalize m.scope.bind name v = r at hbind
  generalize m'.scope.bind name v' = r' at hbind
  cases hbind with
  | ok hs => exact .ok le_rfl ⟨hs, hm.world⟩ trivial
  | error f => exact .failAt hc p f hm

theorem execs_bindImports (hL : L.Lawful ctx bound) (hc : chain.Paired L.file chain') (p : Pos)
    (module : String) {g g' : Globals Value} (is : List Import) (hm : L.Machines κ m m')
    (hg : Globals.Rel (L.fn κ) g g') :
    L.Execs κ (fun _ _ _ => True) (bindImports chain p module g is m)
      (bindImports chain' p module g' is m') := by
  induction is generalizing κ m m' with
  | nil => exact .ok le_rfl hm trivial
  | cons i is ih =>
    rw [bindImports, bindImports]
    split
    · exact .failAt hc p _ hm
    · have hv : Option.Rel (Value.Rel (L.fn κ)) (g.get? i.exported) (g'.get? i.exported) :=
        hg.bindings.get? i.exported
      generalize g.get? i.exported = o at hv
      generalize g'.get? i.exported = o' at hv
      cases hv with
      | none => exact .failAt hc p _ hm
      | some hv =>
        refine (execs_bindName hc p i.target hm hv).bind fun hle hm _ => ?_
        exact ih hm (hg.mono (hL.mono hle))

end

/-! ## One step of the allowance -/

namespace Alike

theorem zero : L.Alike ctx 0 where
  eval _ _ _ hw := by
    simp only [ScriptShell.eval]
    exact .outOfFuel le_rfl hw
  evalArgs _ _ _ hw := by
    simp only [ScriptShell.evalArgs]
    exact .outOfFuel le_rfl hw
  call _ _ _ _ _ hw := by
    simp only [ScriptShell.call]
    exact .outOfFuel le_rfl hw
  exec _ _ hm := by
    simp only [execStmt]
    exact .outOfFuel le_rfl hm
  execBlock _ _ hm := by
    simp only [ScriptShell.execBlock]
    exact .outOfFuel le_rfl hm
  execLoop _ _ _ hm := by
    simp only [ScriptShell.execLoop]
    exact .outOfFuel le_rfl hm

variable {scope scope' : Scope} {w w' : World} {m m' : Machine}

/-- Both operands are evaluated before an operator is applied that is neither `and` nor `or`. -/
theorem operands (h : L.Alike ctx fuel) (hL : L.Lawful ctx bound) (op : BinaryOp) {l r : Expr}
    {p : Pos} (hc : chain.Paired L.file chain') (hs : Scope.Rel (L.fn κ) scope scope')
    (hw : L.world κ w w') :
    L.Evals κ (fun κ => Value.Rel (L.fn κ))
      ((ScriptShell.eval ctx fuel chain scope l >>= fun v =>
        ScriptShell.eval ctx fuel chain scope r >>= fun u => orFailAt chain p (op.apply v u)) w)
      ((ScriptShell.eval ctx fuel chain' scope' l >>= fun v =>
        ScriptShell.eval ctx fuel chain' scope' r >>= fun u =>
          orFailAt chain' p (op.apply v u)) w') := by
  refine (h.eval l hc hs hw).bind fun hle hw hv => ?_
  refine (h.eval r hc (hs.mono (hL.mono hle)) hw).bind fun {κ'} _ _ _ _ hle' hw hu => ?_
  exact .orFailAt hc p (op.rel_apply (hL.sameCode κ') (hv.mono (hL.mono hle')) hu) hw

theorem eval_succ (h : L.Alike ctx fuel) (hL : L.Lawful ctx bound) (e : Expr)
    (hc : chain.Paired L.file chain') (hs : Scope.Rel (L.fn κ) scope scope')
    (hw : L.world κ w w') :
    L.Evals κ (fun κ => Value.Rel (L.fn κ)) (ScriptShell.eval ctx (fuel + 1) chain scope e w)
      (ScriptShell.eval ctx (fuel + 1) chain' scope' e w') := by
  cases e with
  | none =>
    simp only [ScriptShell.eval]
    exact .ok le_rfl hw .none
  | bool b =>
    simp only [ScriptShell.eval]
    exact .ok le_rfl hw (.bool b)
  | int i =>
    simp only [ScriptShell.eval]
    exact .ok le_rfl hw (.int i)
  | str s =>
    simp only [ScriptShell.eval]
    exact .ok le_rfl hw (.str s)
  | name id p =>
    simp only [ScriptShell.eval]
    have hv := hs.lookup id
    generalize scope.lookup id = v at hv
    generalize scope'.lookup id = v' at hv
    cases hv with
    | none => exact .failAt hc p _ hw
    | some hv => exact .ok le_rfl hw hv
  | unary op e p =>
    simp only [ScriptShell.eval]
    refine (h.eval e hc hs hw).bind fun _ hw hv => ?_
    exact .orFailAt hc p (op.rel_apply hv) hw
  | binary op l r p =>
    cases op
    case and =>
      simp only [ScriptShell.eval]
      refine (h.eval l hc hs hw).bind fun hle hw hv => ?_
      rw [hv.truth_eq]
      split
      · exact h.eval r hc (hs.mono (hL.mono hle)) hw
      · exact .ok le_rfl hw hv
    case or =>
      simp only [ScriptShell.eval]
      refine (h.eval l hc hs hw).bind fun hle hw hv => ?_
      rw [hv.truth_eq]
      split
      · exact .ok le_rfl hw hv
      · exact h.eval r hc (hs.mono (hL.mono hle)) hw
    all_goals
      simp only [ScriptShell.eval]
      exact h.operands hL _ hc hs hw
  | call f args p =>
    simp only [ScriptShell.eval]
    refine (h.eval f hc hs hw).bind fun hle hw hv => ?_
    refine (h.evalArgs args hc (hs.mono (hL.mono hle)) hw).bind fun hle' hw hvs => ?_
    exact h.call p hc (hs.mono (hL.mono (hle.trans hle'))) (hv.mono (hL.mono hle')) hvs hw

theorem evalArgs_succ (h : L.Alike ctx fuel) (hL : L.Lawful ctx bound) (es : List Expr)
    (hc : chain.Paired L.file chain') (hs : Scope.Rel (L.fn κ) scope scope')
    (hw : L.world κ w w') :
    L.Evals κ (fun κ => List.Forall₂ (Value.Rel (L.fn κ)))
      (ScriptShell.evalArgs ctx (fuel + 1) chain scope es w)
      (ScriptShell.evalArgs ctx (fuel + 1) chain' scope' es w') := by
  cases es with
  | nil =>
    simp only [ScriptShell.evalArgs]
    exact .ok le_rfl hw .nil
  | cons e es =>
    simp only [ScriptShell.evalArgs]
    refine (h.eval e hc hs hw).bind fun hle hw hv => ?_
    refine (h.evalArgs es hc (hs.mono (hL.mono hle)) hw).bind fun hle' hw hvs => ?_
    exact .ok le_rfl hw (.cons (hv.mono (hL.mono hle')) hvs)

theorem call_succ (h : L.Alike ctx fuel) (hL : L.Lawful ctx bound) {v v' : Value}
    {vs vs' : List Value} (p : Pos) (hc : chain.Paired L.file chain')
    (hs : Scope.Rel (L.fn κ) scope scope') (hv : Value.Rel (L.fn κ) v v')
    (hvs : List.Forall₂ (Value.Rel (L.fn κ)) vs vs') (hw : L.world κ w w') :
    L.Evals κ (fun κ => Value.Rel (L.fn κ)) (ScriptShell.call ctx (fuel + 1) chain scope v vs p w)
      (ScriptShell.call ctx (fuel + 1) chain' scope' v' vs' p w') := by
  simp only [ScriptShell.call]
  refine (hL.poll hw).bind fun {κ₁} _ _ t t' hle hw _ => ?_
  cases hv with
  | builtin b =>
    refine .orFailAt hc p (b.rel_apply (hL.sameCode κ₁) ?_) hw
    exact hvs.imp fun _ _ => .mono (hL.mono hle)
  | @function f f' hf =>
    have hdefinition := hL.definition_eq hf
    simp only [hdefinition, hvs.length_eq, hc.depth_eq]
    split
    · exact .failAt hc p _ hw
    · split
      · exact .failAt hc p _ hw
      · have hf₁ := hL.mono hle _ _ hf
        have hhome := hL.home hw hf₁
        have hs₁ := hs.mono (hL.mono hle)
        have hglobals : Globals.Rel (L.fn κ₁) ((t.engine.home? f.id).getD scope.globals)
            ((t'.engine.home? f'.id).getD scope'.globals) := by
          generalize t.engine.home? f.id = o at hhome
          generalize t'.engine.home? f'.id = o' at hhome
          cases hhome with
          | none => exact hs₁.globals
          | some hg => exact hg
        have hlocals := Table.Rel.ofList (Course.Parametric.forall₂_zip_names f'.definition.params
          (hvs.imp fun _ _ => .mono (hL.mono hle)))
        have hbody := h.execBlock f'.definition.body (hc.enter p (hL.fn_file hf) hdefinition)
          (⟨⟨hglobals, .some hlocals⟩, hw⟩ : L.Machines κ₁ ⟨⟨_, _⟩, t⟩ ⟨⟨_, _⟩, t'⟩)
        exact (evals_within hbody).bind fun _ hw hflow => .ok le_rfl hw hflow.value
  | none | bool b | int i | str s => exact .failAt hc p _ hw

theorem exec_succ (h : L.Alike ctx fuel) (hL : L.Lawful ctx bound) (hbound : fuel ≤ bound)
    (s : Stmt) (hc : chain.Paired L.file chain') (hm : L.Machines κ m m') :
    L.Execs κ (fun κ => Flow.Rel (L.fn κ)) (execStmt ctx (fuel + 1) chain s m)
      (execStmt ctx (fuel + 1) chain' s m') := by
  have heval : ∀ {κ m m'} (e : Expr), L.Machines κ m m' →
      L.Execs κ (fun κ => Value.Rel (L.fn κ))
        (inScope (fun scope => ScriptShell.eval ctx fuel chain scope e) m)
        (inScope (fun scope => ScriptShell.eval ctx fuel chain' scope e) m') :=
    fun e hm => execs_onWorld hm hL (h.eval e hc hm.scope hm.world)
  simp only [execStmt]
  refine (execs_onWorld hm hL (hL.poll hm.world)).bind fun _ hm _ => ?_
  cases s with
  | pass => exact .ok le_rfl hm .next
  | expr e p => exact (heval e hm).bind fun _ hm _ => .ok le_rfl hm .next
  | assign name e p =>
    refine (heval e hm).bind fun _ hm hv => ?_
    exact (execs_bindName hc p name hm hv).bind fun _ hm _ => .ok le_rfl hm .next
  | define name params body p =>
    refine (execs_onWorld hm hL (hL.new ⟨name, params, body, p⟩ hm.world hc.file)).bind
      fun _ hm hf => ?_
    exact (execs_bindName hc p name hm (.function hf)).bind fun _ hm _ => .ok le_rfl hm .next
  | return_ o p =>
    cases o with
    | none => exact .ok le_rfl hm (.return_ .none)
    | some e => exact (heval e hm).bind fun _ hm hv => .ok le_rfl hm (.return_ hv)
  | if_ cond thenPart elsePart p =>
    refine (heval cond hm).bind fun _ hm hv => ?_
    rw [hv.truth_eq]
    exact h.execBlock _ hc hm
  | while_ cond body p => exact h.execLoop cond body hc hm
  | load module imports p =>
    have hload : ∀ {κ m m'}, L.Machines κ m m' → L.Execs κ (fun κ => Globals.Rel (L.fn κ))
        (onWorld (loadModule ctx fuel module) m) (onWorld (loadModule ctx fuel module) m') := by
      intro κ m m' hm
      refine execs_onWorld hm hL ?_
      cases fuel with
      | zero =>
        simp only [loadModule]
        exact .outOfFuel le_rfl hm.world
      | succ fuel =>
        simp only [loadModule]
        split
        · exact hL.load fuel (by omega) module hm.world
        · exact .failed le_rfl hm.world (.refl _)
    refine (hload hm).bind fun _ hm hg => ?_
    exact (execs_bindImports hL hc p module imports hm hg).bind fun _ hm _ => .ok le_rfl hm .next

theorem execBlock_succ (h : L.Alike ctx fuel) (ss : List Stmt) (hc : chain.Paired L.file chain')
    (hm : L.Machines κ m m') :
    L.Execs κ (fun κ => Flow.Rel (L.fn κ)) (ScriptShell.execBlock ctx (fuel + 1) chain ss m)
      (ScriptShell.execBlock ctx (fuel + 1) chain' ss m') := by
  cases ss with
  | nil =>
    simp only [ScriptShell.execBlock]
    exact .ok le_rfl hm .next
  | cons s ss =>
    simp only [ScriptShell.execBlock]
    refine (h.exec s hc hm).bind fun _ hm hflow => ?_
    cases hflow with
    | next => exact h.execBlock ss hc hm
    | return_ hv => exact .ok le_rfl hm (.return_ hv)

theorem execLoop_succ (h : L.Alike ctx fuel) (hL : L.Lawful ctx bound) (cond : Expr)
    (body : List Stmt) (hc : chain.Paired L.file chain') (hm : L.Machines κ m m') :
    L.Execs κ (fun κ => Flow.Rel (L.fn κ)) (ScriptShell.execLoop ctx (fuel + 1) chain cond body m)
      (ScriptShell.execLoop ctx (fuel + 1) chain' cond body m') := by
  simp only [ScriptShell.execLoop]
  refine (execs_onWorld hm hL (h.eval cond hc hm.scope hm.world)).bind fun _ hm hv => ?_
  rw [hv.truth_eq]
  split
  · refine (h.execBlock body hc hm).bind fun _ hm hflow => ?_
    cases hflow with
    | return_ hv => exact .ok le_rfl hm (.return_ hv)
    | next =>
      refine (execs_onWorld hm hL (hL.poll hm.world)).bind fun _ hm _ => ?_
      exact h.execLoop cond body hc hm
  · exact .ok le_rfl hm .next

end Alike

/-- What belongs together at the beginning does so at the end, and so do the results. -/
theorem Lawful.alike (hL : L.Lawful ctx bound) (hfuel : fuel ≤ bound) : L.Alike ctx fuel := by
  induction fuel with
  | zero => exact .zero
  | succ fuel ih =>
    have h := ih (by omega)
    exact {
      eval := h.eval_succ hL
      evalArgs := h.evalArgs_succ hL
      call := h.call_succ hL
      exec := h.exec_succ hL (by omega)
      execBlock := h.execBlock_succ
      execLoop := h.execLoop_succ hL }

end Pairing
end ScriptShell
