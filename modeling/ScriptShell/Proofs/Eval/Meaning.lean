import Mathlib.Logic.Encodable.Basic
import Mathlib.Logic.Equiv.List
import ScriptShell.Proofs.Eval.Parametric
import ScriptShell.Proofs.Loader.Task

/-!
# ScriptShell.Proofs.Eval.Meaning

What a module comes to if nothing is remembered: every load executes the module anew, whatever is
going on, and the functions that the execution of a module makes are numbered by the module and by
their order. So the meaning of a module does not depend on a loader. A module whose loads lead back
to itself before it fails has none.

* `Course.ofModule`: the course of executing a module.
* `Leads`: where a course leads, with every load answered by a meaning.
* `Meaning`, `Means`: the meaning of a module.
* `Cycles`: a module leads back to one that is being executed.
* `Means.unique`, `Cycles.not_means`: a module has one meaning at most, and none if it leads back.
-/

namespace ScriptShell

open Course (Rel)

def Course.ofModule (lib : Library) (canLoad : Bool) (fuel : Nat) (m : String) :
    Course (Globals Value) :=
  match lib.read m with
  | .error r => .fail (.load m r.message)
  | .ok text =>
    match parseProgram m text with
    | .error e => .fail e
    | .ok p =>
      Course.execBlock canLoad fuel (.root m) p (.ofGlobals .empty) >>= fun r =>
        pure r.2.globals.freeze

theorem execFile_succ (ctx : Context) (fuel : Nat) (m : String) (w : World) :
    execFile ctx (fuel + 1) m m w =
      match (Course.ofModule ctx.library ctx.canLoad fuel m).run ctx w with
      | .ok g w' => .ok g { w' with engine := w'.engine.settle m g }
      | .error e w' => .error e w' := by
  simp only [execFile, Course.ofModule]
  cases ctx.library.read m with
  | error r => rfl
  | ok text =>
    dsimp only
    cases parseProgram m text with
    | error e => rfl
    | ok p =>
      dsimp only
      rw [Course.run_bind]
      have hbind : ∀ (x : EvalM (Flow × Scope)) (f : Flow × Scope → EvalM (Globals Value)),
          (x >>= f) w = EStateM.bind x f w := fun _ _ => rfl
      rw [hbind, EStateM.bind, ← drop_execBlock]
      cases execBlock ctx fuel (.root m) p ⟨.ofGlobals .empty, w⟩ <;> rfl

theorem plain_of_parseProgram {file text : String} {e : Error}
    (h : parseProgram file text = .error e) : e.Plain := by
  unfold parseProgram at h
  cases hp : Program.parse text with
  | ok p => rw [hp] at h; exact nomatch h
  | error f =>
    rw [hp] at h
    cases h
    exact trivial

theorem rel_ofModule (π : Pos → Pos) {gap bound : Nat} (lib : Library) (canLoad : Bool)
    {fuel fuel' : Nat} (hfuel : fuel + gap ≤ fuel') (hbound : fuel ≤ bound) (m : String)
    {R : FunRel} (hR : Renaming π R) :
    Rel π gap bound m Globals.Rel R (.ofModule lib canLoad fuel m)
      (.ofModule lib canLoad fuel' m) := by
  unfold Course.ofModule
  cases lib.read m with
  | error r => exact .fail rfl trivial
  | ok text =>
    cases hp : parseProgram m text with
    | error e =>
      simp only [hp]
      exact .fail rfl (plain_of_parseProgram hp)
    | ok p =>
      simp only [hp]
      refine ((Course.parametric π gap bound m canLoad hfuel hbound).execBlock hR (.root m)
        (.ofGlobals .empty) rfl).bind hR fun R' r r' _ _ hr => ?_
      exact .value hr.2.globals.freeze

/-! ## Meanings -/

/-- The number of the function that the execution of a module makes after `k` others. -/
def code (m : String) (k : Nat) : Nat :=
  Encodable.encode (m.toList.map Char.toNat, k)

theorem code_inj {m m' : String} {k k' : Nat} : code m k = code m' k' ↔ m = m' ∧ k = k' := by
  constructor
  · intro h
    have hpair := Encodable.encode_injective h
    rw [Prod.mk.injEq] at hpair
    refine ⟨?_, hpair.2⟩
    have hinj : Function.Injective Char.toNat := fun a b hab => Char.ext (UInt32.toNat_inj.1 hab)
    exact String.toList_inj.1 ((List.map_injective_iff.2 hinj) hpair.1)
  · rintro ⟨rfl, rfl⟩
    rfl

/-- Is the function bound in the globals? -/
def Globals.Holds (g : Globals Value) (f : Function) : Prop :=
  Value.function f ∈ g.toList.map Prod.snd

/-- The home of a function while `m` is being executed: the functions that a module leaves bound
have its globals as their home once it has ended. -/
inductive HomeIs (Q : String → Ending Value → Prop) (m : String) (f : Function) :
    Option (Globals Value) → Prop where
  | own (h : f.file = m) : HomeIs Q m f none
  | bound {g : Globals Value} (h : f.file ≠ m) (hg : Q f.file (.ok g)) (hf : g.Holds f) :
      HomeIs Q m f (some g)
  | loose {g : Globals Value} (h : f.file ≠ m) (hg : Q f.file (.ok g)) (hf : ¬ g.Holds f) :
      HomeIs Q m f none

/-- How far an execution has come: it has ended, or asks for a module. -/
inductive Stage where
  | ended (r : Ending Value)
  | asks (module : String)

/-- The course of executing `m` leads to the stage if modules come to what `Q` says. The execution
has made `k` functions. -/
inductive Leads (Q : String → Ending Value → Prop) (m : String) :
    Nat → Course (Globals Value) → Stage → Prop where
  | value {k : Nat} (g : Globals Value) : Leads Q m k (.value g) (.ended (.ok g))
  | fail {k : Nat} (e : Error) : Leads Q m k (.fail e) (.ended (.error e))
  | asks {k fuel : Nat} (z : String) (next : Globals Value → Course (Globals Value)) :
      Leads Q m k (.load fuel z next) (.asks z)
  | poll {k : Nat} {c : Course (Globals Value)} {s : Stage} (h : Leads Q m k c s) :
      Leads Q m k (.poll c) s
  | new {k : Nat} {d : Definition} {file : String} {next : Function → Course (Globals Value)}
      {s : Stage} (h : Leads Q m (k + 1) (next ⟨code m k, d, file⟩) s) :
      Leads Q m k (.new d file next) s
  | home {k : Nat} {f : Function} {o : Option (Globals Value)}
      {next : Option (Globals Value) → Course (Globals Value)} {s : Stage}
      (ho : HomeIs Q m f o) (h : Leads Q m k (next o) s) : Leads Q m k (.home f next) s
  | load {k fuel : Nat} {z : String} {g : Globals Value}
      {next : Globals Value → Course (Globals Value)} {s : Stage} (hg : Q z (.ok g))
      (h : Leads Q m k (next g) s) : Leads Q m k (.load fuel z next) s

/-- An execution that has come so far ends with this. A module that fails makes it fail. -/
inductive Stage.Ends (Q : String → Ending Value → Prop) : Stage → Ending Value → Prop where
  | ended (r : Ending Value) : Ends Q (.ended r) r
  | asks {z : String} {e : Error} (h : Q z (.error e)) : Ends Q (.asks z) (.error e)

/-- A module comes to this, with executions nested less than `d` deep. -/
def Meaning (lib : Library) : Nat → String → Ending Value → Prop
  | 0, _, _ => False
  | d + 1, m, r => ∃ fuel s, Leads (Meaning lib d) m 0 (.ofModule lib true fuel m) s ∧
      s.Ends (Meaning lib d) r

def Means (lib : Library) (m : String) (r : Ending Value) : Prop :=
  ∃ d, Meaning lib d m r

/-- Asking for a module while those of `P` are being executed leads back to one that is. -/
inductive Cycles (lib : Library) : Set String → String → Prop where
  | again {P : Set String} {m : String} (h : m ∈ P) : Cycles lib P m
  | onwards {P : Set String} {m z : String} {d fuel : Nat}
      (h : Leads (Meaning lib d) m 0 (.ofModule lib true fuel m) (.asks z))
      (hz : Cycles lib (insert m P) z) : Cycles lib P m

section
variable {Q Q' : String → Ending Value → Prop} {m : String} {k : Nat} {f : Function}
  {c : Course (Globals Value)} {s s' : Stage} {r r' : Ending Value} {lib : Library} {d d' : Nat}

theorem HomeIs.mono (hQ : Q ≤ Q') {o : Option (Globals Value)} (h : HomeIs Q m f o) :
    HomeIs Q' m f o := by
  cases h with
  | own h => exact .own h
  | bound h hg hf => exact .bound h (hQ _ _ hg) hf
  | loose h hg hf => exact .loose h (hQ _ _ hg) hf

theorem Leads.mono (hQ : Q ≤ Q') (h : Leads Q m k c s) : Leads Q' m k c s := by
  induction h with
  | value g => exact .value g
  | fail e => exact .fail e
  | asks z next => exact .asks z next
  | poll _ ih => exact .poll ih
  | new _ ih => exact .new ih
  | home ho _ ih => exact .home (ho.mono hQ) ih
  | load hg _ ih => exact .load (hQ _ _ hg) ih

theorem Stage.Ends.mono (hQ : Q ≤ Q') (h : s.Ends Q r) : s.Ends Q' r := by
  cases h with
  | ended r => exact .ended r
  | asks he => exact .asks (hQ _ _ he)

theorem Meaning.succ (h : Meaning lib d m r) : Meaning lib (d + 1) m r := by
  induction d generalizing m r with
  | zero => exact h.elim
  | succ d ih =>
    obtain ⟨fuel, s, hs, hr⟩ := h
    exact ⟨fuel, s, hs.mono fun _ _ => ih, hr.mono fun _ _ => ih⟩

theorem Meaning.mono (hd : d ≤ d') (h : Meaning lib d m r) : Meaning lib d' m r := by
  induction hd with
  | refl => exact h
  | step _ ih => exact ih.succ

/-! ## One meaning at most -/

theorem renaming_eq (π : Pos → Pos) : Renaming π (· = ·) where
  definition := by
    rintro f _ rfl
    rfl
  file := by
    rintro f _ rfl
    rfl
  id_iff := by
    rintro f _ f' _ rfl rfl
    exact Iff.rfl

theorem Globals.rel_refl (g : Globals Value) : Globals.Rel (· = ·) g g := by
  refine ⟨rfl, List.forall₂_same.2 fun e _ => ⟨rfl, ?_⟩⟩
  cases e.2 with
  | function f => exact .function rfl
  | none => exact .none
  | bool b => exact .bool b
  | int i => exact .int i
  | str s => exact .str s
  | builtin b => exact .builtin b

theorem Globals.eq_of_rel {g g' : Globals Value} (h : Globals.Rel (· = ·) g g') : g = g' := by
  obtain ⟨hfrozen, hbindings⟩ := h
  obtain ⟨⟨es, hes⟩, b⟩ := g
  obtain ⟨⟨es', hes'⟩, b'⟩ := g'
  have heq : List.Forall₂ (· = ·) es es' := by
    refine List.Forall₂.imp ?_ hbindings
    rintro ⟨n, v⟩ ⟨n', v'⟩ ⟨hn, hv⟩
    rw [Prod.mk.injEq]
    refine ⟨hn, ?_⟩
    cases hv with
    | function h => rw [h]
    | _ => rfl
  rw [List.forall₂_eq_eq_eq] at heq
  subst heq
  cases hfrozen
  rfl

theorem Globals.optionRel_refl (o : Option (Globals Value)) :
    Option.Rel (Globals.Rel (· = ·)) o o := by
  cases o with
  | none => exact .none
  | some g => exact .some g.rel_refl

/-- A greater allowance leads to the same stages. -/
theorem Leads.of_rel {gap bound : Nat} {c' : Course (Globals Value)}
    (hc : Rel id gap bound m Globals.Rel (· = ·) c c') (h : Leads Q m k c s) :
    Leads Q m k c' s := by
  induction h generalizing c' with
  | value g =>
    cases hc with
    | value hg => exact Globals.eq_of_rel hg ▸ .value g
  | fail e =>
    cases hc with
    | @fail _ _ e' he _ =>
      rw [e.mapPos_id, e'.mapPos_id] at he
      exact he ▸ .fail e
  | asks z next =>
    cases hc with
    | load _ _ _ => exact .asks z _
  | poll _ ih =>
    cases hc with
    | poll hc => exact .poll (ih hc)
  | @new k d file next s _ ih =>
    cases hc with
    | @new _ _ d' _ _ _ hd _ hc =>
      rw [d.mapPos_id, d'.mapPos_id] at hd
      subst hd
      exact .new (ih (hc _ _ _ le_rfl (renaming_eq id) rfl))
  | @home k f o next s ho _ ih =>
    cases hc with
    | home hf hc =>
      subst hf
      exact .home ho (ih (hc _ _ _ le_rfl (renaming_eq id) (Globals.optionRel_refl o)))
  | load hg _ ih =>
    cases hc with
    | load _ _ hc => exact .load hg (ih (hc _ _ _ le_rfl (renaming_eq id) (Globals.rel_refl _)))

theorem Leads.ofModule_mono {fuel fuel' : Nat} (hfuel : fuel ≤ fuel')
    (h : Leads Q m k (.ofModule lib true fuel m) s) :
    Leads Q m k (.ofModule lib true fuel' m) s := by
  have hgap : fuel + 0 ≤ fuel' := hfuel
  exact h.of_rel (rel_ofModule id lib true hgap le_rfl m (renaming_eq id))

theorem HomeIs.unique (hQ : ∀ z r r', Q z r → Q' z r' → r = r') {o o' : Option (Globals Value)}
    (h : HomeIs Q m f o) (h' : HomeIs Q' m f o') : o = o' := by
  cases h with
  | own h =>
    cases h' with
    | own h' => rfl
    | bound h' _ _ => exact absurd h h'
    | loose h' _ _ => exact absurd h h'
  | bound h hg hf =>
    cases h' with
    | own h' => exact absurd h' h
    | bound h' hg' hf' =>
      cases hQ _ _ _ hg hg'
      rfl
    | loose h' hg' hf' =>
      cases hQ _ _ _ hg hg'
      exact absurd hf hf'
  | loose h hg hf =>
    cases h' with
    | own h' => rfl
    | bound h' hg' hf' =>
      cases hQ _ _ _ hg hg'
      exact absurd hf' hf
    | loose h' hg' hf' => rfl

/-- Of two stages of a course, one comes after the other only if the other asks for a module that
can be had. -/
theorem Leads.stage_eq (hQ : ∀ z r r', Q z r → Q' z r' → r = r') (h : Leads Q m k c s)
    (h' : Leads Q' m k c s') :
    s = s' ∨ (∃ z g, s = .asks z ∧ Q' z (.ok g)) ∨ ∃ z g, s' = .asks z ∧ Q z (.ok g) := by
  induction h with
  | value g =>
    cases h'
    exact .inl rfl
  | fail e =>
    cases h'
    exact .inl rfl
  | asks z next =>
    cases h' with
    | asks _ _ => exact .inl rfl
    | load hg' _ => exact .inr (.inl ⟨z, _, rfl, hg'⟩)
  | poll _ ih =>
    cases h' with
    | poll h' => exact ih h'
  | new _ ih =>
    cases h' with
    | new h' => exact ih h'
  | home ho _ ih =>
    cases h' with
    | home ho' h' =>
      cases ho.unique hQ ho'
      exact ih h'
  | @load _ _ z g _ _ hg _ ih =>
    cases h' with
    | asks _ _ => exact .inr (.inr ⟨z, g, rfl, hg⟩)
    | load hg' h' =>
      cases hQ _ _ _ hg hg'
      exact ih h'

theorem Meaning.unique (h : Meaning lib d m r) (h' : Meaning lib d' m r') : r = r' := by
  induction d generalizing d' m r r' with
  | zero => exact h.elim
  | succ d ih =>
    cases d' with
    | zero => exact h'.elim
    | succ d' =>
      obtain ⟨fuel, s, hs, hr⟩ := h
      obtain ⟨fuel', s', hs', hr'⟩ := h'
      have hQ : ∀ z r r', Meaning lib d z r → Meaning lib d' z r' → r = r' := fun _ _ _ => ih
      replace hs := hs.ofModule_mono (Nat.le_max_left fuel fuel')
      replace hs' := hs'.ofModule_mono (Nat.le_max_right fuel fuel')
      rcases hs.stage_eq hQ hs' with rfl | ⟨z, g, rfl, hg⟩ | ⟨z, g, rfl, hg⟩
      · cases hr with
        | ended r =>
          cases hr'
          rfl
        | asks he =>
          cases hr' with
          | asks he' => exact hQ _ _ _ he he'
      · cases hr with
        | asks he => exact nomatch hQ _ _ _ he hg
      · cases hr' with
        | asks he => exact nomatch hQ _ _ _ hg he

theorem Means.unique (h : Means lib m r) (h' : Means lib m r') : r = r' := by
  obtain ⟨d, h⟩ := h
  obtain ⟨d', h'⟩ := h'
  exact h.unique h'

/-! ## No meaning -/

theorem Cycles.mono {P P' : Set String} (hP : P ⊆ P') (h : Cycles lib P m) : Cycles lib P' m := by
  induction h generalizing P' with
  | again h => exact .again (hP h)
  | onwards h _ ih => exact .onwards h (ih (Set.insert_subset_insert hP))

/-- A module that leads back need not be counted among those that are being executed. -/
theorem Cycles.of_insert {P : Set String} {z : String} (hm : Cycles lib P m)
    (h : Cycles lib (insert m P) z) : Cycles lib P z := by
  generalize hP' : insert m P = P' at h
  induction h generalizing P with
  | again h =>
    subst hP'
    rcases h with rfl | h
    · exact hm
    · exact .again h
  | @onwards _ z y _ _ h _ ih =>
    subst hP'
    exact .onwards h (ih (hm.mono (Set.subset_insert z P)) (Set.insert_comm m z P))

/-- What an execution asks for on its way has a meaning if the execution has one. -/
theorem Meaning.of_asks {z : String} {fuel : Nat} (h : Meaning lib (d + 1) m r)
    (hz : Leads (Meaning lib d') m 0 (.ofModule lib true fuel m) (.asks z)) :
    ∃ r', Meaning lib d z r' := by
  obtain ⟨fuel', s, hs, hr⟩ := h
  replace hs := hs.ofModule_mono (Nat.le_max_left fuel' fuel)
  replace hz := hz.ofModule_mono (Nat.le_max_right fuel' fuel)
  have hQ : ∀ z r r', Meaning lib d z r → Meaning lib d' z r' → r = r' := fun _ _ _ hr hr' =>
    hr.unique hr'
  rcases hs.stage_eq hQ hz with rfl | ⟨y, g, rfl, hg⟩ | ⟨y, g, hy, hg⟩
  · cases hr with
    | asks he => exact ⟨_, he⟩
  · cases hr with
    | asks he => exact nomatch he.unique hg
  · cases hy
    exact ⟨_, hg⟩

/-- A module that leads back to one that is being executed has a meaning only if that one has,
nested no deeper. -/
theorem Cycles.meaning {P : Set String} (h : Cycles lib P m) (hr : Meaning lib d m r) :
    ∃ p ∈ P, ∃ r', Meaning lib d p r' := by
  induction h generalizing d r with
  | again h => exact ⟨_, h, r, hr⟩
  | onwards h _ ih =>
    induction d generalizing r with
    | zero => exact hr.elim
    | succ d ihd =>
      obtain ⟨r', hz⟩ := hr.of_asks h
      obtain ⟨p, rfl | hp, r'', hr''⟩ := ih hz
      · obtain ⟨p, hp, r', hr'⟩ := ihd hr''
        exact ⟨p, hp, r', hr'.succ⟩
      · exact ⟨p, hp, r'', hr''.succ⟩

theorem Cycles.not_means (h : Cycles lib ∅ m) : ¬ Means lib m r := by
  rintro ⟨d, hr⟩
  obtain ⟨p, hp, -⟩ := h.meaning hr
  exact hp

end

end ScriptShell
