import ScriptShell.Proofs.Eval.Course
import ScriptShell.Proofs.Eval.Renaming

/-!
# ScriptShell.Proofs.Eval.Parametric

What a program does does not depend on the numbers its functions get, on the places in its text, or
on the allowance, as long as this is not used up: alike programs have alike courses, whatever alike
answers they get.

* `Course.Rel`: alike courses.
* `Course.parametric`: alike programs in alike scopes have alike courses.
-/

namespace ScriptShell

/-- The file is the outermost one, or a function that is known stands in it. -/
def KnownFile (file₀ : String) (R : FunRel) (file : String) : Prop :=
  file = file₀ ∨ ∃ f f', R f f' ∧ f.file = file

theorem KnownFile.mono {file₀ file : String} {R R' : FunRel} (hR : R ≤ R')
    (h : KnownFile file₀ R file) : KnownFile file₀ R' file := by
  rcases h with h | ⟨f, f', hf, hfile⟩
  · exact .inl h
  · exact .inr ⟨f, f', hR _ _ hf, hfile⟩

/-- Chains of active calls that differ in the places alone. -/
structure CallChain.Rel (π : Pos → Pos) (file₀ : String) (R : FunRel) (c c' : CallChain) :
    Prop where
  mapPos : c.mapPos π = c'.mapPos π
  known : KnownFile file₀ R c.file

namespace CallChain.Rel

variable {π : Pos → Pos} {file₀ : String} {R R' : FunRel} {c c' : CallChain}

theorem mono (hR : R ≤ R') (h : c.Rel π file₀ R c') : c.Rel π file₀ R' c' :=
  ⟨h.mapPos, h.known.mono hR⟩

theorem root (file : String) : (CallChain.root file).Rel π file R (.root file) :=
  ⟨rfl, .inl rfl⟩

theorem file_eq (h : c.Rel π file₀ R c') : c.file = c'.file := by
  have hf := congrArg CallChain.file h.mapPos
  exact hf

theorem depth_eq (h : c.Rel π file₀ R c') : c.depth = c'.depth := by
  rw [← c.depth_mapPos π, h.mapPos, c'.depth_mapPos]

theorem enter (h : c.Rel π file₀ R c') (hR : Renaming π R) {p p' : Pos} (hp : π p = π p')
    {f f' : Function} (hf : R f f') : (c.enter p f).Rel π file₀ R (c'.enter p' f') := by
  have hfile := h.file_eq
  have hfunction := congrArg CallChain.function h.mapPos
  have hcallers := congrArg CallChain.callers h.mapPos
  simp only [CallChain.mapPos] at hfunction hcallers
  refine ⟨?_, .inr ⟨f, f', hf, rfl⟩⟩
  simp only [CallChain.enter, CallChain.mapPos, CallChain.frame, List.map_cons, Frame.mapPos,
    hfile, hfunction, hcallers, hp, hR.file hf, hR.name hf]

end CallChain.Rel

inductive Flow.Rel (R : FunRel) : Flow → Flow → Prop where
  | next : Rel R .next .next
  | return_ {v v' : Value} (h : Value.Rel R v v') : Rel R (.return_ v) (.return_ v')

theorem Flow.Rel.value {R : FunRel} {f f' : Flow} (h : Flow.Rel R f f') :
    Value.Rel R f.value f'.value := by
  cases h with
  | next => exact .none
  | return_ h => exact h

/-- How statements end, and the scope they leave. -/
def Ended (R : FunRel) (r r' : Flow × Scope) : Prop :=
  Flow.Rel R r.1 r'.1 ∧ Scope.Rel R r.2 r'.2

/-- A failure of the program itself, not one that depends on what else is going on. -/
def Error.Plain : Error → Prop
  | .cycle _ => False
  | .cancelled => False
  | _ => True

namespace Course

/-- Courses that ask alike questions, and go on alike if the answers are. The second has an
allowance that is greater by `gap` at least; the first loads with less than `bound`. The relation
grows with the functions that come to be known. -/
inductive Rel (π : Pos → Pos) (gap bound : Nat) (file₀ : String) {β γ : Type}
    (A : FunRel → β → γ → Prop) : FunRel → Course β → Course γ → Prop where
  | value {R : FunRel} {b : β} {c : γ} (h : A R b c) :
      Rel π gap bound file₀ A R (.value b) (.value c)
  | fail {R : FunRel} {e e' : Error} (h : e.mapPos π = e'.mapPos π) (hplain : e.Plain) :
      Rel π gap bound file₀ A R (.fail e) (.fail e')
  | stuck {R : FunRel} {c : Course γ} : Rel π gap bound file₀ A R .stuck c
  | poll {R : FunRel} {c : Course β} {c' : Course γ} (h : Rel π gap bound file₀ A R c c') :
      Rel π gap bound file₀ A R (.poll c) (.poll c')
  | new {R : FunRel} {d d' : Definition} {file : String} {k : Function → Course β}
      {k' : Function → Course γ} (hd : d.mapPos π = d'.mapPos π) (hfile : KnownFile file₀ R file)
      (h : ∀ R' id id', R ≤ R' → Renaming π R' → R' ⟨id, d, file⟩ ⟨id', d', file⟩ →
        Rel π gap bound file₀ A R' (k ⟨id, d, file⟩) (k' ⟨id', d', file⟩)) :
      Rel π gap bound file₀ A R (.new d file k) (.new d' file k')
  | home {R : FunRel} {f f' : Function} {k : Option (Globals Value) → Course β}
      {k' : Option (Globals Value) → Course γ} (hf : R f f')
      (h : ∀ R' o o', R ≤ R' → Renaming π R' → Option.Rel (Globals.Rel R') o o' →
        Rel π gap bound file₀ A R' (k o) (k' o')) :
      Rel π gap bound file₀ A R (.home f k) (.home f' k')
  | load {R : FunRel} {fuel fuel' : Nat} {m : String} {k : Globals Value → Course β}
      {k' : Globals Value → Course γ} (hfuel : fuel + gap ≤ fuel') (hbound : fuel < bound)
      (h : ∀ R' g g', R ≤ R' → Renaming π R' → Globals.Rel R' g g' →
        Rel π gap bound file₀ A R' (k g) (k' g')) :
      Rel π gap bound file₀ A R (.load fuel m k) (.load fuel' m k')

section
variable {π : Pos → Pos} {gap bound : Nat} {file₀ : String} {β γ β' γ' : Type}
  {A : FunRel → β → γ → Prop} {B : FunRel → β' → γ' → Prop} {R : FunRel}

theorem Rel.bind {c : Course β} {c' : Course γ} {f : β → Course β'} {f' : γ → Course γ'}
    (hc : Rel π gap bound file₀ A R c c') (hR : Renaming π R)
    (hf : ∀ R' b b', R ≤ R' → Renaming π R' → A R' b b' →
      Rel π gap bound file₀ B R' (f b) (f' b')) :
    Rel π gap bound file₀ B R (c >>= f) (c' >>= f') := by
  induction hc with
  | value h => exact hf _ _ _ le_rfl hR h
  | fail h hplain => exact .fail h hplain
  | stuck => exact .stuck
  | poll _ ih => exact .poll (ih hR hf)
  | new hd hfile _ ih =>
    refine .new hd hfile fun R' id id' hle hR' hg => ?_
    exact ih R' id id' hle hR' hg hR' fun R'' b b' hle' => hf R'' b b' (hle.trans hle')
  | home hg _ ih =>
    refine .home hg fun R' o o' hle hR' ho => ?_
    exact ih R' o o' hle hR' ho hR' fun R'' b b' hle' => hf R'' b b' (hle.trans hle')
  | load hfuel hbound _ ih =>
    refine .load hfuel hbound fun R' g g' hle hR' hg => ?_
    exact ih R' g g' hle hR' hg hR' fun R'' b b' hle' => hf R'' b b' (hle.trans hle')

variable {chain chain' : CallChain} {p p' : Pos}

theorem rel_failAt (hc : chain.Rel π file₀ R chain') (hp : π p = π p') (f : EvalFault) :
    Rel π gap bound file₀ A R (failAt chain p f) (failAt chain' p' f) := by
  refine .fail ?_ trivial
  simp only [Error.mapPos, Option.map_some, CallChain.stackAt_mapPos, hc.mapPos, hp]

theorem rel_orFailAt (hc : chain.Rel π file₀ R chain') (hp : π p = π p')
    {r : Except EvalFault β} {r' : Except EvalFault γ} (h : SameFault (A R) r r') :
    Rel π gap bound file₀ A R (orFailAt chain p r) (orFailAt chain' p' r') := by
  cases h with
  | ok h => exact .value h
  | error f => exact rel_failAt hc hp f

theorem rel_bindName (hc : chain.Rel π file₀ R chain') (hp : π p = π p') (name : String)
    {v v' : Value} (hv : Value.Rel R v v') {scope scope' : Scope} (hs : Scope.Rel R scope scope') :
    Rel π gap bound file₀ Scope.Rel R (bindName chain p name v scope)
      (bindName chain' p' name v' scope') :=
  rel_orFailAt hc hp (hs.bind name hv)

theorem rel_bindImports (hR : Renaming π R) (hc : chain.Rel π file₀ R chain') (hp : π p = π p')
    (module : String) {exports exports' : Globals Value} (he : Globals.Rel R exports exports')
    (is : List Import) {scope scope' : Scope} (hs : Scope.Rel R scope scope') :
    Rel π gap bound file₀ Scope.Rel R (bindImports chain p module exports is scope)
      (bindImports chain' p' module exports' is scope') := by
  induction is generalizing R scope scope' with
  | nil => exact .value hs
  | cons i is ih =>
    rw [bindImports, bindImports]
    split
    · exact rel_failAt hc hp _
    · have hv : Option.Rel (Value.Rel R) (exports.get? i.exported) (exports'.get? i.exported) :=
        he.bindings.get? i.exported
      generalize exports.get? i.exported = v, exports'.get? i.exported = v' at hv
      cases hv with
      | none => exact rel_failAt hc hp _
      | some hv =>
        refine (rel_bindName hc hp i.target hv hs).bind hR fun R' s s' hle hR' hs' => ?_
        exact ih hR' (hc.mono hle) (he.mono hle) hs'

end

/-- Alike programs have alike courses, the second with an allowance that is greater by `gap` at
least. -/
structure Parametric (π : Pos → Pos) (gap bound : Nat) (file₀ : String) (canLoad : Bool)
    (fuel fuel' : Nat) : Prop where
  eval : ∀ {R chain chain' scope scope' e e'}, Renaming π R → chain.Rel π file₀ R chain' →
    Scope.Rel R scope scope' → e.mapPos π = e'.mapPos π →
    Rel π gap bound file₀ Value.Rel R (eval canLoad fuel chain scope e)
      (eval canLoad fuel' chain' scope' e')
  evalArgs : ∀ {R chain chain' scope scope' es es'}, Renaming π R → chain.Rel π file₀ R chain' →
    Scope.Rel R scope scope' → es.map (Expr.mapPos π) = es'.map (Expr.mapPos π) →
    Rel π gap bound file₀ (fun R => List.Forall₂ (Value.Rel R)) R
      (evalArgs canLoad fuel chain scope es) (evalArgs canLoad fuel' chain' scope' es')
  call : ∀ {R chain chain' scope scope' v v' vs vs' p p'}, Renaming π R →
    chain.Rel π file₀ R chain' → Scope.Rel R scope scope' → Value.Rel R v v' →
    List.Forall₂ (Value.Rel R) vs vs' → π p = π p' →
    Rel π gap bound file₀ Value.Rel R (call canLoad fuel chain scope v vs p)
      (call canLoad fuel' chain' scope' v' vs' p')
  exec : ∀ {R chain chain' scope scope' s s'}, Renaming π R → chain.Rel π file₀ R chain' →
    Scope.Rel R scope scope' → s.mapPos π = s'.mapPos π →
    Rel π gap bound file₀ Ended R (exec canLoad fuel chain s scope)
      (exec canLoad fuel' chain' s' scope')
  execBlock : ∀ {R chain chain' scope scope' ss ss'}, Renaming π R → chain.Rel π file₀ R chain' →
    Scope.Rel R scope scope' → ss.map (Stmt.mapPos π) = ss'.map (Stmt.mapPos π) →
    Rel π gap bound file₀ Ended R (execBlock canLoad fuel chain ss scope)
      (execBlock canLoad fuel' chain' ss' scope')
  execLoop : ∀ {R chain chain' scope scope' e e' ss ss'}, Renaming π R →
    chain.Rel π file₀ R chain' → Scope.Rel R scope scope' → e.mapPos π = e'.mapPos π →
    ss.map (Stmt.mapPos π) = ss'.map (Stmt.mapPos π) →
    Rel π gap bound file₀ Ended R (execLoop canLoad fuel chain e ss scope)
      (execLoop canLoad fuel' chain' e' ss' scope')

namespace Parametric

variable {π : Pos → Pos} {gap bound : Nat} {file₀ : String} {canLoad : Bool} {fuel fuel' : Nat}
  {R : FunRel} {chain chain' : CallChain} {scope scope' : Scope}

theorem zero (fuel' : Nat) : Parametric π gap bound file₀ canLoad 0 fuel' where
  eval := by
    intros
    rw [Course.eval]
    exact .stuck
  evalArgs := by
    intros
    rw [Course.evalArgs]
    exact .stuck
  call := by
    intros
    rw [Course.call]
    exact .stuck
  exec := by
    intros
    rw [Course.exec]
    exact .stuck
  execBlock := by
    intros
    rw [Course.execBlock]
    exact .stuck
  execLoop := by
    intros
    rw [Course.execLoop]
    exact .stuck

/-- Both operands are evaluated before an operator is applied that is neither `and` nor `or`. -/
theorem operands (h : Parametric π gap bound file₀ canLoad fuel fuel') (op : BinaryOp)
    {l r l' r' : Expr} {p p' : Pos} (hR : Renaming π R) (hc : chain.Rel π file₀ R chain')
    (hs : Scope.Rel R scope scope') (hl : l.mapPos π = l'.mapPos π)
    (hr : r.mapPos π = r'.mapPos π) (hp : π p = π p') :
    Rel π gap bound file₀ Value.Rel R
      (Course.eval canLoad fuel chain scope l >>= fun v =>
        Course.eval canLoad fuel chain scope r >>= fun u => orFailAt chain p (op.apply v u))
      (Course.eval canLoad fuel' chain' scope' l' >>= fun v =>
        Course.eval canLoad fuel' chain' scope' r' >>= fun u =>
          orFailAt chain' p' (op.apply v u)) := by
  refine (h.eval hR hc hs hl).bind hR fun R₁ v v' hle₁ hR₁ hv => ?_
  refine (h.eval hR₁ (hc.mono hle₁) (hs.mono hle₁) hr).bind hR₁ fun R₂ u u' hle₂ hR₂ hu => ?_
  exact rel_orFailAt (hc.mono (hle₁.trans hle₂)) hp
    (op.rel_apply hR₂.toSameCode (hv.mono hle₂) hu)

theorem eval_succ (h : Parametric π gap bound file₀ canLoad fuel fuel') {e e' : Expr}
    (hR : Renaming π R) (hc : chain.Rel π file₀ R chain') (hs : Scope.Rel R scope scope')
    (he : e.mapPos π = e'.mapPos π) :
    Rel π gap bound file₀ Value.Rel R (Course.eval canLoad (fuel + 1) chain scope e)
      (Course.eval canLoad (fuel' + 1) chain' scope' e') := by
  cases e with
  | none =>
    cases e' <;> simp only [Expr.mapPos, reduceCtorEq] at he
    simp only [Course.eval]
    exact .value .none
  | bool b =>
    cases e' <;> simp only [Expr.mapPos, reduceCtorEq, Expr.bool.injEq] at he
    subst he
    simp only [Course.eval]
    exact .value (.bool b)
  | int i =>
    cases e' <;> simp only [Expr.mapPos, reduceCtorEq, Expr.int.injEq] at he
    subst he
    simp only [Course.eval]
    exact .value (.int i)
  | str s =>
    cases e' <;> simp only [Expr.mapPos, reduceCtorEq, Expr.str.injEq] at he
    subst he
    simp only [Course.eval]
    exact .value (.str s)
  | name id p =>
    cases e' <;> simp only [Expr.mapPos, reduceCtorEq, Expr.name.injEq] at he
    obtain ⟨rfl, hp⟩ := he
    simp only [Course.eval]
    have hv := hs.lookup id
    generalize scope.lookup id = v, scope'.lookup id = v' at hv
    cases hv with
    | none => exact rel_failAt hc hp _
    | some hv => exact .value hv
  | unary op e p =>
    cases e' <;> simp only [Expr.mapPos, reduceCtorEq, Expr.unary.injEq] at he
    obtain ⟨rfl, he, hp⟩ := he
    simp only [Course.eval]
    refine (h.eval hR hc hs he).bind hR fun R' v v' hle hR' hv => ?_
    exact rel_orFailAt (hc.mono hle) hp (op.rel_apply hv)
  | binary op l r p =>
    cases e' <;> simp only [Expr.mapPos, reduceCtorEq, Expr.binary.injEq] at he
    obtain ⟨rfl, hl, hr, hp⟩ := he
    cases op
    case and =>
      simp only [Course.eval]
      refine (h.eval hR hc hs hl).bind hR fun R' v v' hle hR' hv => ?_
      rw [hv.truth_eq]
      split
      · exact h.eval hR' (hc.mono hle) (hs.mono hle) hr
      · exact .value hv
    case or =>
      simp only [Course.eval]
      refine (h.eval hR hc hs hl).bind hR fun R' v v' hle hR' hv => ?_
      rw [hv.truth_eq]
      split
      · exact .value hv
      · exact h.eval hR' (hc.mono hle) (hs.mono hle) hr
    all_goals
      simp only [Course.eval]
      exact h.operands _ hR hc hs hl hr hp
  | call f args p =>
    cases e' <;>
      simp only [Expr.mapPos, reduceCtorEq, Expr.call.injEq, Expr.mapArgs_eq_map] at he
    obtain ⟨hf, hargs, hp⟩ := he
    simp only [Course.eval]
    refine (h.eval hR hc hs hf).bind hR fun R₁ v v' hle₁ hR₁ hv => ?_
    refine (h.evalArgs hR₁ (hc.mono hle₁) (hs.mono hle₁) hargs).bind hR₁
      fun R₂ vs vs' hle₂ hR₂ hvs => ?_
    exact h.call hR₂ (hc.mono (hle₁.trans hle₂)) (hs.mono (hle₁.trans hle₂)) (hv.mono hle₂) hvs hp

theorem evalArgs_succ (h : Parametric π gap bound file₀ canLoad fuel fuel') {es es' : List Expr}
    (hR : Renaming π R) (hc : chain.Rel π file₀ R chain') (hs : Scope.Rel R scope scope')
    (hes : es.map (Expr.mapPos π) = es'.map (Expr.mapPos π)) :
    Rel π gap bound file₀ (fun R => List.Forall₂ (Value.Rel R)) R
      (Course.evalArgs canLoad (fuel + 1) chain scope es)
      (Course.evalArgs canLoad (fuel' + 1) chain' scope' es') := by
  cases es with
  | nil =>
    cases es' with
    | nil =>
      simp only [Course.evalArgs]
      exact .value .nil
    | cons e' es' => exact absurd hes (by simp)
  | cons e es =>
    cases es' with
    | nil => exact absurd hes (by simp)
    | cons e' es' =>
      rw [List.map_cons, List.map_cons, List.cons.injEq] at hes
      simp only [Course.evalArgs]
      refine (h.eval hR hc hs hes.1).bind hR fun R₁ v v' hle₁ hR₁ hv => ?_
      refine (h.evalArgs hR₁ (hc.mono hle₁) (hs.mono hle₁) hes.2).bind hR₁
        fun R₂ vs vs' hle₂ hR₂ hvs => ?_
      exact .value (.cons (hv.mono hle₂) hvs)

theorem forall₂_zip_names (names : List String) {vs vs' : List Value}
    (h : List.Forall₂ (Value.Rel R) vs vs') :
    List.Forall₂ (fun e e' => e.1 = e'.1 ∧ Value.Rel R e.2 e'.2) (names.zip vs)
      (names.zip vs') := by
  induction h generalizing names with
  | nil =>
    rw [List.zip_nil_right]
    exact .nil
  | cons hv _ ih =>
    cases names with
    | nil => exact .nil
    | cons name names => exact .cons ⟨rfl, hv⟩ (ih names)

theorem call_succ (h : Parametric π gap bound file₀ canLoad fuel fuel') {v v' : Value}
    {vs vs' : List Value} {p p' : Pos} (hR : Renaming π R) (hc : chain.Rel π file₀ R chain')
    (hs : Scope.Rel R scope scope') (hv : Value.Rel R v v')
    (hvs : List.Forall₂ (Value.Rel R) vs vs') (hp : π p = π p') :
    Rel π gap bound file₀ Value.Rel R (Course.call canLoad (fuel + 1) chain scope v vs p)
      (Course.call canLoad (fuel' + 1) chain' scope' v' vs' p') := by
  simp only [Course.call]
  refine .poll ?_
  cases hv with
  | builtin b => exact rel_orFailAt hc hp (b.rel_apply hR.toSameCode hvs)
  | @function f f' hf =>
    have hname := hR.name hf
    have hparams := hR.params hf
    simp only [hname, hparams, hvs.length_eq, hc.depth_eq]
    split
    · exact rel_failAt hc hp _
    · split
      · exact rel_failAt hc hp _
      · refine .home hf fun R₁ o o' hle₁ hR₁ ho => ?_
        have hglobals : Globals.Rel R₁ (o.getD scope.globals) (o'.getD scope'.globals) := by
          cases ho with
          | none => exact hs.globals.mono hle₁
          | some hg => exact hg
        have hlocals := Table.Rel.ofList
          (forall₂_zip_names f'.definition.params (hvs.imp fun _ _ => .mono hle₁))
        refine (h.execBlock hR₁ ((hc.mono hle₁).enter hR₁ hp (hle₁ _ _ hf))
          ⟨hglobals, .some hlocals⟩ (hR.body hf)).bind hR₁ fun R₂ r r' _ _ hr => ?_
        exact .value hr.1.value
  | none => exact rel_failAt hc hp _
  | bool b => exact rel_failAt hc hp _
  | int i => exact rel_failAt hc hp _
  | str s => exact rel_failAt hc hp _

/-- A module is asked for with one less than what is left. -/
theorem rel_loadModule (canLoad : Bool) (hfuel : fuel + gap ≤ fuel') (hbound : fuel ≤ bound)
    (module : String) :
    Rel π gap bound file₀ Globals.Rel R (Course.loadModule canLoad fuel module)
      (Course.loadModule canLoad fuel' module) := by
  cases fuel with
  | zero => exact .stuck
  | succ fuel =>
    obtain ⟨k, rfl⟩ : ∃ k, fuel' = k + 1 := ⟨fuel' - 1, by omega⟩
    rw [Course.loadModule, Course.loadModule]
    split
    · exact .load (by omega) (by omega) fun R' g g' _ _ hg => .value hg
    · exact .fail rfl trivial

theorem exec_succ (h : Parametric π gap bound file₀ canLoad fuel fuel') (hfuel : fuel + gap ≤ fuel')
    (hbound : fuel ≤ bound) {s s' : Stmt} (hR : Renaming π R) (hc : chain.Rel π file₀ R chain')
    (hs : Scope.Rel R scope scope') (hstmt : s.mapPos π = s'.mapPos π) :
    Rel π gap bound file₀ Ended R (Course.exec canLoad (fuel + 1) chain s scope)
      (Course.exec canLoad (fuel' + 1) chain' s' scope') := by
  simp only [Course.exec]
  refine .poll ?_
  cases s with
  | pass =>
    cases s' <;> simp only [Stmt.mapPos, reduceCtorEq] at hstmt
    exact .value ⟨.next, hs⟩
  | expr e p =>
    cases s' <;> simp only [Stmt.mapPos, reduceCtorEq, Stmt.expr.injEq] at hstmt
    refine (h.eval hR hc hs hstmt.1).bind hR fun R' v v' hle hR' hv => ?_
    exact .value ⟨.next, hs.mono hle⟩
  | assign name e p =>
    cases s' <;> simp only [Stmt.mapPos, reduceCtorEq, Stmt.assign.injEq] at hstmt
    obtain ⟨rfl, he, hp⟩ := hstmt
    refine (h.eval hR hc hs he).bind hR fun R₁ v v' hle₁ hR₁ hv => ?_
    refine (rel_bindName (hc.mono hle₁) hp name hv (hs.mono hle₁)).bind hR₁
      fun R₂ t t' _ _ ht => ?_
    exact .value ⟨.next, ht⟩
  | define name params body p =>
    cases s' <;>
      simp only [Stmt.mapPos, reduceCtorEq, Stmt.define.injEq, Stmt.mapBlock_eq_map] at hstmt
    obtain ⟨rfl, rfl, hbody, hp⟩ := hstmt
    rw [hc.file_eq]
    refine .new ?_ (hc.file_eq ▸ hc.known) fun R₁ id id' hle₁ hR₁ hf => ?_
    · simp only [Definition.mapPos, hbody, hp]
    refine (rel_bindName (hc.mono hle₁) hp name (.function hf) (hs.mono hle₁)).bind hR₁
      fun R₂ t t' _ _ ht => ?_
    exact .value ⟨.next, ht⟩
  | return_ e p =>
    cases s' <;> simp only [Stmt.mapPos, reduceCtorEq, Stmt.return_.injEq] at hstmt
    rename_i e' p'
    cases e with
    | none =>
      cases e' with
      | none => exact .value ⟨.return_ .none, hs⟩
      | some e' => exact absurd hstmt.1 (by simp)
    | some e =>
      cases e' with
      | none => exact absurd hstmt.1 (by simp)
      | some e' =>
        have he : e.mapPos π = e'.mapPos π := by simpa using hstmt.1
        refine (h.eval hR hc hs he).bind hR fun R' v v' hle hR' hv => ?_
        exact .value ⟨.return_ hv, hs.mono hle⟩
  | if_ cond thenPart elsePart p =>
    cases s' <;>
      simp only [Stmt.mapPos, reduceCtorEq, Stmt.if_.injEq, Stmt.mapBlock_eq_map] at hstmt
    obtain ⟨hcond, hthen, helse, -⟩ := hstmt
    refine (h.eval hR hc hs hcond).bind hR fun R' v v' hle hR' hv => ?_
    rw [hv.truth_eq]
    refine h.execBlock hR' (hc.mono hle) (hs.mono hle) ?_
    split
    · exact hthen
    · exact helse
  | while_ cond body p =>
    cases s' <;>
      simp only [Stmt.mapPos, reduceCtorEq, Stmt.while_.injEq, Stmt.mapBlock_eq_map] at hstmt
    exact h.execLoop hR hc hs hstmt.1 hstmt.2.1
  | load module imports p =>
    cases s' <;> simp only [Stmt.mapPos, reduceCtorEq, Stmt.load.injEq] at hstmt
    obtain ⟨rfl, rfl, hp⟩ := hstmt
    refine (rel_loadModule canLoad hfuel hbound module).bind hR fun R₁ g g' hle₁ hR₁ hg => ?_
    refine (rel_bindImports hR₁ (hc.mono hle₁) hp module hg imports (hs.mono hle₁)).bind hR₁
      fun R₂ t t' _ _ ht => ?_
    exact .value ⟨.next, ht⟩

theorem execBlock_succ (h : Parametric π gap bound file₀ canLoad fuel fuel') {ss ss' : List Stmt}
    (hR : Renaming π R) (hc : chain.Rel π file₀ R chain') (hs : Scope.Rel R scope scope')
    (hss : ss.map (Stmt.mapPos π) = ss'.map (Stmt.mapPos π)) :
    Rel π gap bound file₀ Ended R (Course.execBlock canLoad (fuel + 1) chain ss scope)
      (Course.execBlock canLoad (fuel' + 1) chain' ss' scope') := by
  cases ss with
  | nil =>
    cases ss' with
    | nil =>
      simp only [Course.execBlock]
      exact .value ⟨.next, hs⟩
    | cons s' ss' => exact absurd hss (by simp)
  | cons s ss =>
    cases ss' with
    | nil => exact absurd hss (by simp)
    | cons s' ss' =>
      rw [List.map_cons, List.map_cons, List.cons.injEq] at hss
      simp only [Course.execBlock]
      refine (h.exec hR hc hs hss.1).bind hR fun R₁ r r' hle₁ hR₁ hr => ?_
      obtain ⟨flow, t⟩ := r
      obtain ⟨flow', t'⟩ := r'
      obtain ⟨hflow, ht⟩ := hr
      cases hflow with
      | return_ hv => exact .value ⟨.return_ hv, ht⟩
      | next => exact h.execBlock hR₁ (hc.mono hle₁) ht hss.2

theorem execLoop_succ (h : Parametric π gap bound file₀ canLoad fuel fuel') {e e' : Expr}
    {ss ss' : List Stmt} (hR : Renaming π R) (hc : chain.Rel π file₀ R chain')
    (hs : Scope.Rel R scope scope') (he : e.mapPos π = e'.mapPos π)
    (hss : ss.map (Stmt.mapPos π) = ss'.map (Stmt.mapPos π)) :
    Rel π gap bound file₀ Ended R (Course.execLoop canLoad (fuel + 1) chain e ss scope)
      (Course.execLoop canLoad (fuel' + 1) chain' e' ss' scope') := by
  simp only [Course.execLoop]
  refine (h.eval hR hc hs he).bind hR fun R₁ v v' hle₁ hR₁ hv => ?_
  rw [hv.truth_eq]
  split
  · refine (h.execBlock hR₁ (hc.mono hle₁) (hs.mono hle₁) hss).bind hR₁
      fun R₂ r r' hle₂ hR₂ hr => ?_
    obtain ⟨flow, t⟩ := r
    obtain ⟨flow', t'⟩ := r'
    obtain ⟨hflow, ht⟩ := hr
    cases hflow with
    | return_ hv => exact .value ⟨.return_ hv, ht⟩
    | next => exact .poll (h.execLoop hR₂ (hc.mono (hle₁.trans hle₂)) ht he hss)
  · exact .value ⟨.next, hs.mono hle₁⟩

theorem succ (h : Parametric π gap bound file₀ canLoad fuel fuel') (hfuel : fuel + gap ≤ fuel')
    (hbound : fuel ≤ bound) :
    Parametric π gap bound file₀ canLoad (fuel + 1) (fuel' + 1) where
  eval := h.eval_succ
  evalArgs := h.evalArgs_succ
  call := h.call_succ
  exec := h.exec_succ hfuel hbound
  execBlock := h.execBlock_succ
  execLoop := h.execLoop_succ

end Parametric

theorem parametric (π : Pos → Pos) (gap bound : Nat) (file₀ : String) (canLoad : Bool)
    {fuel fuel' : Nat} (hfuel : fuel + gap ≤ fuel') (hbound : fuel ≤ bound) :
    Parametric π gap bound file₀ canLoad fuel fuel' := by
  induction fuel generalizing fuel' with
  | zero => exact .zero fuel'
  | succ fuel ih =>
    obtain ⟨k, rfl⟩ : ∃ k, fuel' = k + 1 := ⟨fuel' - 1, by omega⟩
    have hk : fuel + gap ≤ k := by omega
    exact (ih hk (by omega)).succ hk (by omega)

end Course
end ScriptShell
