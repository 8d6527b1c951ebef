import Mathlib.Data.List.Forall2
import Mathlib.Order.Lattice
import ScriptShell.Proofs.Eval.MapPos

/-!
# ScriptShell.Proofs.Eval.Renaming

Values that differ in the numbers of functions, and functions that differ in the places of their
definitions. No operation can tell them apart.

* `SameCode`, `Renaming`: which function stands for which.
* `Value.Rel`, `Globals.Rel`, `Scope.Rel`: values, bindings and scopes that differ in that alone.
* `BinaryOp.rel_apply`, `Builtin.rel_apply`: the operations respect it.
-/

namespace ScriptShell

/-- A relation between the functions of two runs. -/
abbrev FunRel := Function → Function → Prop

/-- Functions that stand for each other have the same definition, the places in it aside, and their
numbers determine each other. That is all that operations see of them. -/
structure SameCode (π : Pos → Pos) (R : FunRel) : Prop where
  definition : ∀ {f g}, R f g → f.definition.mapPos π = g.definition.mapPos π
  id_iff : ∀ {f g f' g'}, R f g → R f' g' → (f.id = f'.id ↔ g.id = g'.id)

namespace SameCode

variable {π : Pos → Pos} {R : FunRel} {f g : Function}

theorem name (h : SameCode π R) (hfg : R f g) : f.definition.name = g.definition.name := by
  have hd := congrArg Definition.name (h.definition hfg)
  exact hd

theorem params (h : SameCode π R) (hfg : R f g) : f.definition.params = g.definition.params := by
  have hd := congrArg Definition.params (h.definition hfg)
  exact hd

theorem body (h : SameCode π R) (hfg : R f g) :
    f.definition.body.map (Stmt.mapPos π) = g.definition.body.map (Stmt.mapPos π) := by
  have hd := congrArg Definition.body (h.definition hfg)
  exact hd

end SameCode

/-- Functions that stand for each other have the same code and stand in the same file. -/
structure Renaming (π : Pos → Pos) (R : FunRel) : Prop extends SameCode π R where
  file : ∀ {f g}, R f g → f.file = g.file

namespace Renaming

variable {π : Pos → Pos} {R : FunRel}

theorem flip (h : Renaming π R) : Renaming π fun g f => R f g where
  definition hfg := (h.definition hfg).symm
  file hfg := (h.file hfg).symm
  id_iff hfg hfg' := (h.id_iff hfg hfg').symm

theorem comp {S : FunRel} (h : Renaming π R) (k : Renaming π S) :
    Renaming π fun f g => ∃ f', R f f' ∧ S f' g where
  definition := by
    rintro f g ⟨f', hf, hg⟩
    exact (h.definition hf).trans (k.definition hg)
  file := by
    rintro f g ⟨f', hf, hg⟩
    exact (h.file hf).trans (k.file hg)
  id_iff := by
    rintro f g f₁ g₁ ⟨f', hf, hg⟩ ⟨f₁', hf₁, hg₁⟩
    exact (h.id_iff hf hf₁).trans (k.id_iff hg hg₁)

end Renaming

inductive Value.Rel (R : FunRel) : Value → Value → Prop where
  | none : Rel R .none .none
  | bool (b : Bool) : Rel R (.bool b) (.bool b)
  | int (i : Integer) : Rel R (.int i) (.int i)
  | str (s : String) : Rel R (.str s) (.str s)
  | builtin (b : Builtin) : Rel R (.builtin b) (.builtin b)
  | function {f g : Function} (h : R f g) : Rel R (.function f) (.function g)

namespace Value.Rel

variable {π : Pos → Pos} {R R' : FunRel} {v v' u u' : Value}

theorem mono (hR : R ≤ R') (h : Value.Rel R v v') : Value.Rel R' v v' := by
  cases h with
  | function h => exact .function (hR _ _ h)
  | _ => constructor

theorem flip (h : Value.Rel R v v') : Value.Rel (fun g f => R f g) v' v := by
  cases h with
  | function h => exact .function h
  | _ => constructor

theorem comp {S : FunRel} (h : Value.Rel R v v') (k : Value.Rel S v' u) :
    Value.Rel (fun f g => ∃ f', R f f' ∧ S f' g) v u := by
  cases h with
  | function h =>
    cases k with
    | function k => exact .function ⟨_, h, k⟩
  | _ =>
    cases k
    constructor

theorem typeName_eq (h : Value.Rel R v v') : v.typeName = v'.typeName := by
  cases h <;> rfl

theorem truth_eq (h : Value.Rel R v v') : v.truth = v'.truth := by
  cases h <;> rfl

theorem text_eq (hR : SameCode π R) (h : Value.Rel R v v') : v.text = v'.text := by
  cases h with
  | @function f g h =>
    have hn : f.definition.name = g.definition.name := hR.name h
    change "<function " ++ f.definition.name ++ ">" = "<function " ++ g.definition.name ++ ">"
    rw [hn]
  | _ => rfl

theorem same_eq (hR : SameCode π R) (h : Value.Rel R v v') (k : Value.Rel R u u') :
    v.same u = v'.same u' := by
  cases h with
  | function h =>
    cases k with
    | function k =>
      rw [Value.same, Value.same, Bool.eq_iff_iff, beq_iff_eq, beq_iff_eq]
      exact hR.id_iff h k
    | _ => rfl
  | _ => cases k <;> rfl

theorem compare?_eq (h : Value.Rel R v v') (k : Value.Rel R u u') :
    v.compare? u = v'.compare? u' := by
  cases h <;> cases k <;> rfl

end Value.Rel

/-- Results that differ in what the relation allows, or equal failures. -/
inductive SameFault {α β : Type} (A : α → β → Prop) : Except EvalFault α → Except EvalFault β → Prop
  where
  | ok {a : α} {b : β} (h : A a b) : SameFault A (.ok a) (.ok b)
  | error (f : EvalFault) : SameFault A (.error f) (.error f)

section
variable {π : Pos → Pos} {R : FunRel} {v v' u u' : Value}

theorem rel_ofArithmetic (r : Except ArithmeticFault Integer) :
    SameFault (Value.Rel R) (ofArithmetic r) (ofArithmetic r) := by
  cases r with
  | ok i => exact .ok (.int i)
  | error f => exact .error _

theorem rel_onIntegers (op : BinaryOp)
    (f : Integer → Integer → Except ArithmeticFault Integer) (h : Value.Rel R v v')
    (k : Value.Rel R u u') :
    SameFault (Value.Rel R) (onIntegers op f v u) (onIntegers op f v' u') := by
  cases h with
  | int i =>
    cases k with
    | int j => exact rel_ofArithmetic (f i j)
    | _ => exact .error _
  | _ => cases k <;> exact .error _

theorem BinaryOp.rel_apply (hR : SameCode π R) (op : BinaryOp) (h : Value.Rel R v v')
    (k : Value.Rel R u u') : SameFault (Value.Rel R) (op.apply v u) (op.apply v' u') := by
  cases op
  case add =>
    cases h with
    | str s =>
      cases k with
      | str t => exact .ok (.str (s ++ t))
      | _ => exact .error _
    | int i => exact rel_onIntegers .add Integer.add (.int i) k
    | _ => cases k <;> exact .error _
  case sub => exact rel_onIntegers .sub Integer.sub h k
  case mul => exact rel_onIntegers .mul Integer.mul h k
  case floorDiv => exact rel_onIntegers .floorDiv Integer.floorDiv h k
  case mod => exact rel_onIntegers .mod Integer.mod h k
  case eq =>
    rw [BinaryOp.apply, BinaryOp.apply, h.same_eq hR k]
    exact .ok (.bool _)
  case notEq =>
    rw [BinaryOp.apply, BinaryOp.apply, h.same_eq hR k]
    exact .ok (.bool _)
  case and =>
    rw [BinaryOp.apply, BinaryOp.apply, h.typeName_eq, k.typeName_eq]
    exact .error _
  case or =>
    rw [BinaryOp.apply, BinaryOp.apply, h.typeName_eq, k.typeName_eq]
    exact .error _
  all_goals
    simp only [BinaryOp.apply, h.compare?_eq k, h.typeName_eq, k.typeName_eq]
    cases v'.compare? u' with
    | none => exact .error _
    | some o => exact .ok (.bool _)

theorem UnaryOp.rel_apply (op : UnaryOp) (h : Value.Rel R v v') :
    SameFault (Value.Rel R) (op.apply v) (op.apply v') := by
  cases op with
  | not =>
    rw [UnaryOp.apply, UnaryOp.apply, h.truth_eq]
    exact .ok (.bool _)
  | neg =>
    cases h with
    | int i => exact rel_ofArithmetic i.neg
    | _ => exact .error _

theorem Builtin.rel_apply (hR : SameCode π R) (b : Builtin) {vs vs' : List Value}
    (h : List.Forall₂ (Value.Rel R) vs vs') :
    SameFault (Value.Rel R) (b.apply vs) (b.apply vs') := by
  cases b with
  | fail =>
    have htext : vs.map Value.text = vs'.map Value.text := by
      induction h with
      | nil => rfl
      | cons hv _ ih => rw [List.map_cons, List.map_cons, hv.text_eq hR, ih]
    rw [Builtin.apply, Builtin.apply, htext]
    exact .error _
  | len =>
    cases h with
    | nil => exact .error _
    | cons hv ht =>
      cases ht with
      | nil =>
        cases hv with
        | str s => exact .ok (.int _)
        | _ => exact .error _
      | cons hu ht =>
        simp only [Builtin.apply, List.length_cons, ht.length_eq]
        exact .error _
  | str =>
    cases h with
    | nil => exact .error _
    | cons hv ht =>
      cases ht with
      | nil =>
        rw [Builtin.apply, Builtin.apply, hv.text_eq hR]
        exact .ok (.str _)
      | cons hu ht =>
        simp only [Builtin.apply, List.length_cons, ht.length_eq]
        exact .error _

end

/-! ## Tables, bindings, scopes -/

/-- Tables that bind the same names, to values in the relation. -/
def Table.Rel {α β : Type} (A : α → β → Prop) (t : Table α) (t' : Table β) : Prop :=
  List.Forall₂ (fun e e' => e.1 = e'.1 ∧ A e.2 e'.2) t.entries t'.entries

namespace Table.Rel

variable {α β : Type} {A B : α → β → Prop} {t : Table α} {t' : Table β}

theorem mono (hA : ∀ a b, A a b → B a b) (h : Table.Rel A t t') : Table.Rel B t t' :=
  h.imp fun _ _ he => ⟨he.1, hA _ _ he.2⟩

theorem empty : Table.Rel A (.empty : Table α) (.empty : Table β) := .nil

theorem get? (h : Table.Rel A t t') (k : String) : Option.Rel A (t.get? k) (t'.get? k) := by
  unfold Table.get?
  unfold Table.Rel at h
  generalize t.entries = es at h
  generalize t'.entries = es' at h
  induction h with
  | nil => exact .none
  | @cons e e' es es' he _ ih =>
    obtain ⟨n, a⟩ := e
    obtain ⟨n', a'⟩ := e'
    obtain ⟨rfl, ha⟩ := he
    rw [lookup_entry, lookup_entry]
    split
    · exact .some ha
    · exact ih

theorem insert (h : Table.Rel A t t') (k : String) {a : α} {b : β} (hab : A a b) :
    Table.Rel A (t.insert k a) (t'.insert k b) := by
  unfold Table.Rel Table.insert
  unfold Table.Rel at h
  change List.Forall₂ _ (insertSorted k a t.entries) (insertSorted k b t'.entries)
  generalize t.entries = es at h
  generalize t'.entries = es' at h
  induction h with
  | nil => exact .cons ⟨rfl, hab⟩ .nil
  | @cons e e' es es' he ht ih =>
    obtain ⟨n, c⟩ := e
    obtain ⟨n', c'⟩ := e'
    obtain ⟨rfl, hc⟩ := he
    rw [insertSorted, insertSorted]
    split
    · exact .cons ⟨rfl, hab⟩ (.cons ⟨rfl, hc⟩ ht)
    · split
      · exact .cons ⟨rfl, hab⟩ ht
      · exact .cons ⟨rfl, hc⟩ ih

theorem ofList {es : List (String × α)} {es' : List (String × β)}
    (h : List.Forall₂ (fun e e' => e.1 = e'.1 ∧ A e.2 e'.2) es es') :
    Table.Rel A (.ofList es) (.ofList es') := by
  unfold Table.ofList
  have hstart : Table.Rel A (.empty : Table α) (.empty : Table β) := .empty
  revert hstart
  generalize (Table.empty : Table α) = t
  generalize (Table.empty : Table β) = t'
  intro ht
  induction h generalizing t t' with
  | nil => exact ht
  | @cons e e' es es' he _ ih =>
    rw [List.foldl_cons, List.foldl_cons]
    refine ih _ _ ?_
    rw [he.1]
    exact ht.insert _ he.2

end Table.Rel

theorem Table.Rel.flip {α β : Type} {A : α → β → Prop} {t : Table α} {t' : Table β}
    (h : Table.Rel A t t') : Table.Rel (fun b a => A a b) t' t := by
  have hflip := h.imp fun _ _ he => (⟨he.1.symm, he.2⟩ : _ ∧ _)
  exact List.Forall₂.flip hflip

theorem Table.Rel.comp {α β γ : Type} {A : α → β → Prop} {B : β → γ → Prop} {t : Table α}
    {t' : Table β} {t'' : Table γ} (h : Table.Rel A t t') (k : Table.Rel B t' t'') :
    Table.Rel (fun a c => ∃ b, A a b ∧ B b c) t t'' := by
  unfold Table.Rel at h k ⊢
  generalize t.entries = es, t'.entries = es', t''.entries = es'' at h k
  induction h generalizing es'' with
  | nil =>
    cases k
    exact .nil
  | cons he _ ih =>
    cases k with
    | cons hk ht => exact .cons ⟨he.1.trans hk.1, _, he.2, hk.2⟩ (ih _ ht)

/-- Bindings that differ in the relation alone. -/
structure Globals.Rel (R : FunRel) (g g' : Globals Value) : Prop where
  frozen : g.frozen = g'.frozen
  bindings : Table.Rel (Value.Rel R) g.bindings g'.bindings

namespace Globals.Rel

variable {R R' : FunRel} {g g' : Globals Value} {v v' : Value}

theorem mono (hR : R ≤ R') (h : Globals.Rel R g g') : Globals.Rel R' g g' :=
  ⟨h.frozen, h.bindings.mono fun _ _ => .mono hR⟩

theorem flip (h : Globals.Rel R g g') : Globals.Rel (fun f' f => R f f') g' g :=
  ⟨h.frozen.symm, h.bindings.flip.mono fun _ _ => Value.Rel.flip⟩

theorem comp {S : FunRel} {g'' : Globals Value} (h : Globals.Rel R g g')
    (k : Globals.Rel S g' g'') : Globals.Rel (fun f f'' => ∃ f', R f f' ∧ S f' f'') g g'' := by
  refine ⟨h.frozen.trans k.frozen, (h.bindings.comp k.bindings).mono ?_⟩
  rintro v v'' ⟨v', hv, hv'⟩
  exact hv.comp hv'

theorem empty : Globals.Rel R .empty .empty := ⟨rfl, .empty⟩

theorem freeze (h : Globals.Rel R g g') : Globals.Rel R g.freeze g'.freeze := ⟨rfl, h.bindings⟩

theorem set (h : Globals.Rel R g g') (name : String) (hv : Value.Rel R v v') :
    SameFault (Globals.Rel R) (g.set name v) (g'.set name v') := by
  rw [Globals.set, Globals.set, h.frozen]
  split
  · exact .error _
  · exact .ok ⟨rfl, h.bindings.insert name hv⟩

end Globals.Rel

structure Scope.Rel (R : FunRel) (s s' : Scope) : Prop where
  globals : Globals.Rel R s.globals s'.globals
  locals : Option.Rel (Table.Rel (Value.Rel R)) s.locals s'.locals

namespace Scope.Rel

variable {R R' : FunRel} {s s' : Scope} {v v' : Value}

theorem mono (hR : R ≤ R') (h : Scope.Rel R s s') : Scope.Rel R' s s' := by
  obtain ⟨hg, hl⟩ := h
  refine ⟨hg.mono hR, ?_⟩
  generalize s.locals = l at hl ⊢
  generalize s'.locals = l' at hl ⊢
  cases hl with
  | none => exact .none
  | some ht => exact .some (ht.mono fun _ _ => .mono hR)

theorem ofGlobals {g g' : Globals Value} (h : Globals.Rel R g g') :
    Scope.Rel R (.ofGlobals g) (.ofGlobals g') := ⟨h, .none⟩

theorem lookup (h : Scope.Rel R s s') (name : String) :
    Option.Rel (Value.Rel R) (s.lookup name) (s'.lookup name) := by
  obtain ⟨hg, hl⟩ := h
  have hlocal : Option.Rel (Value.Rel R) (s.local? name) (s'.local? name) := by
    unfold Scope.local?
    generalize s.locals = l at hl
    generalize s'.locals = l' at hl
    cases hl with
    | none => exact .none
    | some ht => exact ht.get? name
  have hglobal : Option.Rel (Value.Rel R) (s.globals.get? name) (s'.globals.get? name) :=
    hg.bindings.get? name
  unfold Scope.lookup
  generalize s.local? name = v, s'.local? name = v' at hlocal
  generalize s.globals.get? name = u, s'.globals.get? name = u' at hglobal
  cases hlocal with
  | some hv => exact .some hv
  | none =>
    cases hglobal with
    | some hv => exact .some hv
    | none =>
      cases Builtin.ofName? name with
      | none => exact .none
      | some b => exact .some (.builtin b)

theorem bind (h : Scope.Rel R s s') (name : String) (hv : Value.Rel R v v') :
    SameFault (Scope.Rel R) (s.bind name v) (s'.bind name v') := by
  obtain ⟨g, l⟩ := s
  obtain ⟨g', l'⟩ := s'
  obtain ⟨hg, hl⟩ := h
  unfold Scope.bind
  cases hl with
  | some ht => exact .ok ⟨hg, .some (ht.insert name hv)⟩
  | none =>
    have hset := hg.set name hv
    simp only
    generalize g.set name v = x, g'.set name v' = x' at hset
    cases hset with
    | ok hg' => exact .ok ⟨hg', .none⟩
    | error f => exact .error f

end Scope.Rel
end ScriptShell
