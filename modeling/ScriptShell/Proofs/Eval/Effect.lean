import ScriptShell.Eval

/-!
# ScriptShell.Proofs.Eval.Effect

What statements do to their scope, and how they end. Both can be read off the statements: which
names stand where names are bound, and whether there is a `return`, outside the functions that they
define.

* `Upholds`: what a computation comes to, and the state that it leaves, however it ends.
* `Stmt.Confined`: the names that a statement may bind, and whether it may return.
* `Stmt.targets`: these names.
* `effects`: of a scope, statements keep whatever binding those names keeps, and they end as they
  may.
-/

namespace ScriptShell

/-- However a computation ended, it left a state that is `P`; and what it came to is `Q`. -/
inductive Upholds {σ α : Type} (Q : α → Prop) (P : σ → Prop) : EStateM.Result Halt σ α → Prop where
  | ok {a : α} {s : σ} (ha : Q a) (hs : P s) : Upholds Q P (.ok a s)
  | error {e : Halt} {s : σ} (hs : P s) : Upholds Q P (.error e s)

theorem Upholds.bind {σ α β : Type} {Q : α → Prop} {R : β → Prop} {P : σ → Prop}
    {x : EStateM Halt σ α} {f : α → EStateM Halt σ β} {s : σ} (hx : Upholds Q P (x s))
    (hf : ∀ a {t}, Q a → P t → Upholds R P (f a t)) : Upholds R P ((x >>= f) s) := by
  change Upholds R P (EStateM.bind x f s)
  rw [EStateM.bind]
  cases hr : x s with
  | ok a t =>
    rw [hr] at hx
    cases hx with
    | ok ha ht => exact hf a ha ht
  | error e t =>
    rw [hr] at hx
    cases hx with
    | error ht => exact .error ht

/-- Outside the functions that it defines, the statement binds some of the given names and no
others, and it returns only if `returns`. -/
def Stmt.Confined (names : String → Prop) (returns : Prop) : Stmt → Prop
  | .expr .. | .pass => True
  | .assign name _ _ | .define name _ _ _ => names name
  | .load _ imports _ => ∀ i ∈ imports, names i.target
  | .return_ .. => returns
  | .if_ _ thenPart elsePart _ =>
    blockConfined names returns thenPart ∧ blockConfined names returns elsePart
  | .while_ _ body _ => blockConfined names returns body
where
  /-- So do all statements of a block. -/
  blockConfined (names : String → Prop) (returns : Prop) : List Stmt → Prop
    | [] => True
    | s :: ss => s.Confined names returns ∧ blockConfined names returns ss

/-- The names that the statement may bind, outside the functions that it defines: the targets of
assignments, of function definitions, and of load statements. -/
def Stmt.targets : Stmt → List String
  | .expr .. | .return_ .. | .pass => []
  | .assign name _ _ | .define name _ _ _ => [name]
  | .load _ imports _ => imports.map Import.target
  | .if_ _ thenPart elsePart _ => blockTargets thenPart ++ blockTargets elsePart
  | .while_ _ body _ => blockTargets body
where
  /-- Those of all statements of a block. -/
  blockTargets : List Stmt → List String
    | [] => []
    | s :: ss => s.targets ++ blockTargets ss

mutual

/-- Statements are confined to their targets. -/
theorem Stmt.confined_targets {names : String → Prop} : ∀ {s : Stmt},
    (∀ x ∈ s.targets, names x) → s.Confined names True
  | .expr .., _ | .return_ .., _ | .pass, _ => trivial
  | .assign .., h | .define .., h => h _ List.mem_cons_self
  | .load .., h => fun _ hi => h _ (List.mem_map_of_mem hi)
  | .if_ .., h => by
    rw [Stmt.targets, List.forall_mem_append] at h
    exact ⟨blockConfined_targets h.1, blockConfined_targets h.2⟩
  | .while_ .., h => blockConfined_targets h

theorem blockConfined_targets {names : String → Prop} : ∀ {ss : List Stmt},
    (∀ x ∈ Stmt.targets.blockTargets ss, names x) → Stmt.Confined.blockConfined names True ss
  | [], _ => trivial
  | s :: ss, h => by
    rw [Stmt.targets.blockTargets, List.forall_mem_append] at h
    exact ⟨Stmt.confined_targets h.1, blockConfined_targets h.2⟩

end

/-- May statements end so? -/
def Flow.Allowed (returns : Prop) : Flow → Prop
  | .next => True
  | .return_ _ => returns

/-- Binding one of the names keeps what a scope is. -/
def KeptByBinding (names : String → Prop) (P : Scope → Prop) : Prop :=
  ∀ ⦃s s' x v⦄, P s → names x → s.bind x v = .ok s' → P s'

section
variable {names : String → Prop} {P : Scope → Prop} {m : Machine}

theorem upholds_onWorld {α : Type} (x : EvalM α) (hm : P m.scope) :
    Upholds (fun _ => True) (fun m => P m.scope) (onWorld x m) := by
  rw [onWorld]
  cases x m.world with
  | ok a w => exact .ok trivial hm
  | error e w => exact .error hm

theorem upholds_bindName (hbind : KeptByBinding names P) (chain : CallChain) (p : Pos)
    {name : String} (v : Value) (hname : names name) (hm : P m.scope) :
    Upholds (fun _ => True) (fun m => P m.scope) (bindName chain p name v m) := by
  rw [bindName]
  cases hs : m.scope.bind name v with
  | ok s => exact .ok trivial (hbind hm hname hs)
  | error f => exact .error hm

theorem upholds_bindImports (hbind : KeptByBinding names P) (chain : CallChain) (p : Pos)
    (module : String) (exports : Globals Value) {is : List Import}
    (his : ∀ i ∈ is, names i.target) (hm : P m.scope) :
    Upholds (fun _ => True) (fun m => P m.scope) (bindImports chain p module exports is m) := by
  induction is generalizing m with
  | nil => exact .ok trivial hm
  | cons i is ih =>
    obtain ⟨hi, his⟩ := List.forall_mem_cons.1 his
    rw [bindImports]
    split
    · exact .error hm
    · cases exports.get? i.exported with
      | none => exact .error hm
      | some v => exact (upholds_bindName hbind chain p v hi hm).bind fun _ _ _ => ih his

end

/-- With the allowance, confined statements end as they may, and keep what a scope is. -/
structure Effects (names : String → Prop) (returns : Prop) (P : Scope → Prop) (ctx : Context)
    (fuel : Nat) : Prop where
  exec : ∀ {m : Machine} {s : Stmt} (chain : CallChain), s.Confined names returns → P m.scope →
    Upholds (Flow.Allowed returns) (fun m => P m.scope) (execStmt ctx fuel chain s m)
  execBlock : ∀ {m : Machine} {ss : List Stmt} (chain : CallChain),
    Stmt.Confined.blockConfined names returns ss → P m.scope →
    Upholds (Flow.Allowed returns) (fun m => P m.scope) (execBlock ctx fuel chain ss m)
  execLoop : ∀ {m : Machine} {body : List Stmt} (chain : CallChain) (cond : Expr),
    Stmt.Confined.blockConfined names returns body → P m.scope →
    Upholds (Flow.Allowed returns) (fun m => P m.scope) (execLoop ctx fuel chain cond body m)

namespace Effects

variable {names : String → Prop} {returns : Prop} {P : Scope → Prop} {ctx : Context} {fuel : Nat}
  {m : Machine}

theorem exec_succ (hf : Effects names returns P ctx fuel) (hbind : KeptByBinding names P)
    {s : Stmt} (chain : CallChain) (hs : s.Confined names returns) (hm : P m.scope) :
    Upholds (Flow.Allowed returns) (fun m => P m.scope) (execStmt ctx (fuel + 1) chain s m) := by
  have heval : ∀ {m : Machine} (e : Expr), P m.scope →
      Upholds (fun _ => True) (fun m => P m.scope)
        (inScope (fun scope => eval ctx fuel chain scope e) m) := fun e hm => upholds_onWorld _ hm
  simp only [execStmt]
  -- whether to stop is asked first
  refine (upholds_onWorld _ hm).bind fun _ {m} _ hm => ?_
  cases s with
  | pass => exact .ok trivial hm
  | expr e p => exact (heval e hm).bind fun _ _ _ hm => .ok trivial hm
  | assign name e p =>
    refine (heval e hm).bind fun v _ _ hm => ?_
    exact (upholds_bindName hbind chain p v hs hm).bind fun _ _ _ hm => .ok trivial hm
  | define name params body p =>
    refine (upholds_onWorld _ hm).bind fun f _ _ hm => ?_
    exact (upholds_bindName hbind chain p (.function f) hs hm).bind fun _ _ _ hm => .ok trivial hm
  | return_ o p =>
    cases o with
    | none => exact .ok hs hm
    | some e => exact (heval e hm).bind fun _ _ _ hm => .ok hs hm
  | if_ cond thenPart elsePart p =>
    refine (heval cond hm).bind fun v _ _ hm => ?_
    split
    · exact hf.execBlock chain hs.1 hm
    · exact hf.execBlock chain hs.2 hm
  | while_ cond body p => exact hf.execLoop chain cond hs hm
  | load module imports p =>
    refine (upholds_onWorld _ hm).bind fun g _ _ hm => ?_
    exact (upholds_bindImports hbind chain p module g hs hm).bind fun _ _ _ hm => .ok trivial hm

theorem execBlock_succ (hf : Effects names returns P ctx fuel) {ss : List Stmt}
    (chain : CallChain) (hss : Stmt.Confined.blockConfined names returns ss) (hm : P m.scope) :
    Upholds (Flow.Allowed returns) (fun m => P m.scope)
      (ScriptShell.execBlock ctx (fuel + 1) chain ss m) := by
  cases ss with
  | nil =>
    simp only [ScriptShell.execBlock]
    exact .ok trivial hm
  | cons s ss =>
    simp only [ScriptShell.execBlock]
    refine (hf.exec chain hss.1 hm).bind fun flow _ hflow hm => ?_
    cases flow with
    | next => exact hf.execBlock chain hss.2 hm
    | return_ v => exact .ok hflow hm

theorem execLoop_succ (hf : Effects names returns P ctx fuel) {body : List Stmt}
    (chain : CallChain) (cond : Expr) (hbody : Stmt.Confined.blockConfined names returns body)
    (hm : P m.scope) :
    Upholds (Flow.Allowed returns) (fun m => P m.scope)
      (ScriptShell.execLoop ctx (fuel + 1) chain cond body m) := by
  simp only [ScriptShell.execLoop]
  refine (upholds_onWorld _ hm).bind fun v _ _ hm => ?_
  split
  · refine (hf.execBlock chain hbody hm).bind fun flow _ hflow hm => ?_
    cases flow with
    | return_ v => exact .ok hflow hm
    | next => exact (upholds_onWorld _ hm).bind fun _ _ _ hm => hf.execLoop chain cond hbody hm
  · exact .ok trivial hm

end Effects

theorem effects {names : String → Prop} {P : Scope → Prop} (returns : Prop)
    (hbind : KeptByBinding names P) (ctx : Context) (fuel : Nat) :
    Effects names returns P ctx fuel := by
  induction fuel with
  | zero =>
    refine ⟨fun chain _ hm => ?_, fun chain _ hm => ?_, fun chain cond _ hm => ?_⟩
    · simp only [execStmt]
      exact .error hm
    · simp only [execBlock]
      exact .error hm
    · simp only [execLoop]
      exact .error hm
  | succ fuel ih => exact ⟨ih.exec_succ hbind, ih.execBlock_succ, ih.execLoop_succ⟩

/-! ## Functions -/

/-- A function is running whose globals are `h`. -/
def Scope.Inside (h : Globals Value) (s : Scope) : Prop :=
  ∃ t, s = ⟨h, some t⟩

/-- A function binds its locals. -/
theorem Scope.inside_bind (h : Globals Value) : KeptByBinding (fun _ => True) (Inside h) := by
  rintro _ s' x v ⟨t, rfl⟩ - hs
  cases hs
  exact ⟨t.insert x v, rfl⟩

end ScriptShell
