import ScriptShell.Proofs.Eval.Meaning
import ScriptShell.Proofs.Loader.Discipline

/-!
# ScriptShell.Proofs.Loader.Sound

What a loader remembers is what modules mean. The functions it knows are related to those of the
meanings, and this relation grows while modules are being executed.

* `Faithful`: an outcome agrees with the meaning of a module.
* `Sound`: what the loader remembers does.
* `Making`: the same while a module is being executed, whose own functions are kept apart until it
  has ended.
* `Grows`: what a stretch of an execution adds.
-/

namespace ScriptShell

/-! ## Homes -/

namespace Store

theorem lookup_settleValue_of_some {m : String} {g : Globals Value} {s : Store} {id : Nat}
    {h : Option (Globals Value)} (hs : s.homes.lookup id = some h) (v : Value) :
    (settleValue m g s v).homes.lookup id = some h := by
  unfold settleValue
  cases v with
  | function f =>
    dsimp only
    split
    · rename_i hf
      have hne : id ≠ f.id := by
        rintro rfl
        rw [hs] at hf
        exact absurd hf.2 (by simp)
      rw [List.lookup_cons, beq_false_of_ne hne]
      exact hs
    · exact hs
  | _ => exact hs

theorem lookup_settleValue_of_ne {m : String} {g : Globals Value} {s : Store} {id : Nat} {v : Value}
    (hv : ∀ f, v = .function f → f.file = m → f.id ≠ id) :
    (settleValue m g s v).homes.lookup id = s.homes.lookup id := by
  unfold settleValue
  cases v with
  | function f =>
    dsimp only
    split
    · rename_i hf
      rw [List.lookup_cons, beq_false_of_ne (hv f rfl hf.1).symm]
    · rfl
  | _ => rfl

theorem lookup_settleValue_self {m : String} {g : Globals Value} {s : Store} {f : Function}
    (hf : f.file = m) (hs : s.homes.lookup f.id = none) :
    (settleValue m g s (.function f)).homes.lookup f.id = some (some g) := by
  simp [settleValue, hf, hs]

theorem lookup_settle_of_ne {m : String} {g : Globals Value} (s : Store) {id : Nat}
    (h : ∀ f, g.Holds f → f.file = m → f.id ≠ id) :
    (s.settle m g).homes.lookup id = s.homes.lookup id := by
  unfold settle
  unfold Globals.Holds at h
  generalize g.toList.map Prod.snd = vs at h ⊢
  induction vs generalizing s with
  | nil => rfl
  | cons v vs ih =>
    rw [List.foldl_cons, ih _ fun f hf => h f (List.mem_cons_of_mem _ hf)]
    exact lookup_settleValue_of_ne fun f hf => h f (hf ▸ List.mem_cons_self)

theorem lookup_settle_of_holds {m : String} {g : Globals Value} {s : Store} {f : Function}
    (hg : g.Holds f) (hf : f.file = m) (hs : s.homes.lookup f.id = none) :
    (s.settle m g).homes.lookup f.id = some (some g) := by
  have hsome : ∀ (vs : List Value) (s : Store), s.homes.lookup f.id = some (some g) →
      (vs.foldl (settleValue m g) s).homes.lookup f.id = some (some g) := by
    intro vs
    induction vs with
    | nil => exact fun _ h => h
    | cons v vs ih => exact fun s h => ih _ (lookup_settleValue_of_some h v)
  unfold settle
  unfold Globals.Holds at hg
  generalize g.toList.map Prod.snd = vs at hg ⊢
  induction vs generalizing s with
  | nil => exact absurd hg (by simp)
  | cons v vs ih =>
    rw [List.foldl_cons]
    by_cases hv : v = .function f
    · subst hv
      exact hsome vs _ (lookup_settleValue_self hf hs)
    · have hmem : Value.function f ∈ vs := by
        rcases List.mem_cons.1 hg with h | h
        · exact absurd h.symm hv
        · exact h
      cases hl : (settleValue m g s v).homes.lookup f.id with
      | none => exact ih hl hmem
      | some h =>
        -- another function of the same number came first
        have : h = some g := by
          unfold settleValue at hl
          cases v with
          | function f' =>
            dsimp only at hl
            split at hl
            · rw [List.lookup_cons] at hl
              split at hl
              · exact (Option.some.inj hl).symm
              · rw [hs] at hl
                exact nomatch hl
            · rw [hs] at hl
              exact nomatch hl
          | _ =>
            rw [hs] at hl
            exact nomatch hl
        exact hsome vs _ (this ▸ hl)

/-- Only homes change by the end of a module. -/
theorem settle_eq (s : Store) (m : String) (g : Globals Value) :
    s.settle m g = { s with homes := (s.settle m g).homes } := by
  unfold settle
  generalize g.toList.map Prod.snd = vs
  induction vs generalizing s with
  | nil => rfl
  | cons v vs ih =>
    have hv : settleValue m g s v = { s with homes := (settleValue m g s v).homes } := by
      unfold settleValue
      cases v with
      | function f =>
        dsimp only
        split <;> rfl
      | _ => rfl
    rw [List.foldl_cons, ih, hv]

@[simp] theorem settle_nextFunction (s : Store) (m : String) (g : Globals Value) :
    (s.settle m g).nextFunction = s.nextFunction := by
  rw [settle_eq]

@[simp] theorem settle_polls (s : Store) (m : String) (g : Globals Value) :
    (s.settle m g).polls = s.polls := by
  rw [settle_eq]

end Store

theorem Globals.Rel.holds {R : FunRel} {g g' : Globals Value} (h : Globals.Rel R g g')
    {f : Function} (hf : g.Holds f) : ∃ f', R f f' ∧ g'.Holds f' := by
  have hrel : List.Forall₂ (Value.Rel R) (g.toList.map Prod.snd) (g'.toList.map Prod.snd) := by
    rw [List.forall₂_map_left_iff, List.forall₂_map_right_iff]
    exact h.bindings.imp fun _ _ he => he.2
  unfold Globals.Holds at hf ⊢
  generalize g.toList.map Prod.snd = vs, g'.toList.map Prod.snd = vs' at hrel hf ⊢
  induction hrel with
  | nil => exact absurd hf (by simp)
  | cons hv _ ih =>
    rcases List.mem_cons.1 hf with rfl | hf
    · cases hv with
      | function hf' => exact ⟨_, hf', List.mem_cons_self⟩
    · obtain ⟨f', hf', hmem⟩ := ih hf
      exact ⟨f', hf', List.mem_cons_of_mem _ hmem⟩

/-! ## Soundness -/

/-- The modules that are being executed. -/
def Hosted.pendings {α σ : Type} (s : Hosted α σ) : Set String :=
  {p | s.cache.get? p = some .pending}

/-- What came of asking for a module agrees with its meaning, up to a relation between functions of
the loader and those of meanings. -/
inductive Faithful (lib : Library) (w : World) (R : FunRel) (z : String) : Ending Value → Prop where
  | ok {g g' : Globals Value} (hz : Means lib z (.ok g')) (hg : Globals.Rel R g g') :
      Faithful lib w R z (.ok g)
  | plain {e : Error} (hz : Means lib z (.error e)) (he : e.Plain) : Faithful lib w R z (.error e)
  | cycle {y : String} (hz : Cycles lib w.pendings z) : Faithful lib w R z (.error (.cycle y))

/-- What the loader remembers is what modules mean. -/
structure Sound (lib : Library) (w : World) (B : FunRel) : Prop where
  renames : Renaming id B
  eq_of_id : ∀ {f f' g g'}, B f f' → B g g' → f.id = g.id → f = g
  lt : ∀ {f f'}, B f f' → f.id < w.engine.nextFunction
  owner : ∀ {f f'}, B f f' → ∃ z k g, f'.id = code z k ∧ w.cache.get? z = some (.loaded g)
  file : ∀ {f f'}, B f f' → ∃ g, w.cache.get? f.file = some (.loaded g)
  home : ∀ {f f' g}, B f f' → w.cache.get? f.file = some (.loaded g) → g.Holds f →
    w.engine.home? f.id = some g
  loose : ∀ {f f' g}, B f f' → w.cache.get? f.file = some (.loaded g) → ¬ g.Holds f →
    w.engine.home? f.id = none
  homeless : ∀ {id}, (∀ f f', B f f' → f.id ≠ id) → w.engine.homes.lookup id = none
  faithful : ∀ {z e}, w.cache.get? z = some e → Faithful lib w B z (e.recall z)

/-- The functions `O` are those that the execution of `m` has made, `k` of them. -/
structure Making (lib : Library) (w : World) (B O : FunRel) (m : String) (k : Nat) : Prop
    extends Sound lib w B where
  pending : w.cache.get? m = some .pending
  own_definition : ∀ {f f'}, O f f' → f.definition = f'.definition
  own_file_eq : ∀ {f f'}, O f f' → f.file = f'.file
  own_iff : ∀ {f f' g g'}, O f f' → O g g' → (f.id = g.id ↔ f'.id = g'.id)
  own_eq : ∀ {f f' g g'}, O f f' → O g g' → f.id = g.id → f = g
  own_lt : ∀ {f f'}, O f f' → f.id < w.engine.nextFunction
  own_new : ∀ {f f' g g'}, O f f' → B g g' → f.id ≠ g.id
  own_code : ∀ {f f'}, O f f' → ∃ i < k, f'.id = code m i
  own_file : ∀ {f f'}, O f f' → f.file = m ∨ ∃ g, w.cache.get? f.file = some (.loaded g)

/-- What a stretch of an execution adds to what the loader knows. -/
structure Grows (w : World) (B : FunRel) (w' : World) (B' : FunRel) : Prop where
  entry : ∀ {k e}, w.cache.get? k = some e → w'.cache.get? k = some e
  pending : ∀ {k}, w'.cache.get? k = some .pending → w.cache.get? k = some .pending
  next : w.engine.nextFunction ≤ w'.engine.nextFunction
  le : B ≤ B'
  fresh : ∀ {f f'}, B' f f' → B f f' ∨ w.engine.nextFunction ≤ f.id

/-- The loader remembers no more cycles than before. -/
def Calm (w w' : World) : Prop :=
  ∀ z y, w'.cache.get? z = some (.failed (.cycle y)) → w.cache.get? z = some (.failed (.cycle y))

/-- Poll the given number of times. -/
def Hosted.polled (w : World) (n : Nat) : World :=
  { w with engine := { w.engine with polls := n } }

/-- Give the next function its number. -/
def Hosted.numbered (w : World) : World :=
  { w with engine := { w.engine with nextFunction := w.engine.nextFunction + 1 } }

theorem poll_ok {ctx : Context} {w w' : World} (h : poll ctx w = .ok () w') :
    w' = w.polled (w.engine.polls + 1) ∧ ctx.cancelledAt (w.engine.polls + 1) = false := by
  unfold poll at h
  dsimp only at h
  split at h
  · cases h
  · rename_i hnot
    cases h
    exact ⟨rfl, Bool.eq_false_iff.2 hnot⟩

namespace Grows

variable {w w' w'' : World} {B B' B'' : FunRel}

theorem refl (w : World) (B : FunRel) : Grows w B w B :=
  ⟨id, id, le_rfl, le_rfl, .inl⟩

theorem trans (h : Grows w B w' B') (h' : Grows w' B' w'' B'') : Grows w B w'' B'' where
  entry hk := h'.entry (h.entry hk)
  pending hk := h.pending (h'.pending hk)
  next := h.next.trans h'.next
  le := h.le.trans h'.le
  fresh := by
    intro f f' hf
    rcases h'.fresh hf with hf | hf
    · exact h.fresh hf
    · exact .inr (h.next.trans hf)

theorem polled (w : World) (B : FunRel) (n : Nat) : Grows w B (w.polled n) B :=
  ⟨id, id, le_rfl, le_rfl, .inl⟩

theorem numbered (w : World) (B : FunRel) : Grows w B w.numbered B :=
  ⟨id, id, Nat.le_succ _, le_rfl, .inl⟩

end Grows

namespace Faithful

variable {lib : Library} {w w' : World} {R R' : FunRel} {z : String} {r : Ending Value}

theorem mono (h : Faithful lib w R z r) (hw : w.pendings ⊆ w'.pendings) (hR : R ≤ R') :
    Faithful lib w' R' z r := by
  cases h with
  | ok hz hg => exact .ok hz (hg.mono hR)
  | plain hz he => exact .plain hz he
  | cycle hz => exact .cycle (hz.mono hw)

/-- No functions come out of a failure. -/
theorem of_error {e : Error} (h : Faithful lib w R z (.error e)) :
    Faithful lib w R' z (.error e) := by
  cases h with
  | plain hz he => exact .plain hz he
  | cycle hz => exact .cycle hz

end Faithful

namespace Sound

variable {lib : Library} {w : World} {B : FunRel}

theorem empty (lib : Library) : Sound lib World.empty ⊥ where
  renames := ⟨⟨nofun, nofun⟩, nofun⟩
  eq_of_id := nofun
  lt := nofun
  owner := nofun
  file := nofun
  home := nofun
  loose := nofun
  homeless _ := rfl
  faithful := nofun

theorem polled (h : Sound lib w B) (n : Nat) : Sound lib (w.polled n) B where
  renames := h.renames
  eq_of_id := h.eq_of_id
  lt := h.lt
  owner := h.owner
  file := h.file
  home := h.home
  loose := h.loose
  homeless := h.homeless
  faithful hz := (h.faithful hz).mono (fun _ hp => hp) le_rfl

theorem numbered (h : Sound lib w B) : Sound lib w.numbered B where
  renames := h.renames
  eq_of_id := h.eq_of_id
  lt hf := (h.lt hf).trans (Nat.lt_succ_self _)
  owner := h.owner
  file := h.file
  home := h.home
  loose := h.loose
  homeless := h.homeless
  faithful hz := (h.faithful hz).mono (fun _ hp => hp) le_rfl

theorem loaded (h : Sound lib w B) {z : String} {g : Globals Value}
    (hz : w.cache.get? z = some (.loaded g)) :
    ∃ g', Means lib z (.ok g') ∧ Globals.Rel B g g' := by
  cases h.faithful hz with
  | ok hmeans hg => exact ⟨_, hmeans, hg⟩

/-- Functions of meanings that one function stands for are the same. -/
theorem right_unique (h : Renaming id B) {f f' g' : Function} (hf : B f f') (hg : B f g') :
    f' = g' := by
  have hd := (h.definition hf).symm.trans (h.definition hg)
  rw [Definition.mapPos_id, Definition.mapPos_id] at hd
  have hfile := (h.file hf).symm.trans (h.file hg)
  have hid := (h.id_iff hf hg).1 rfl
  cases f'
  cases g'
  simp only at hd hfile hid
  subst hd hfile hid
  rfl

end Sound

namespace Making

variable {lib : Library} {w w' : World} {B B' O : FunRel} {m : String} {k : Nat}

/-- A module of which nothing is known begins. -/
theorem start (h : Sound lib w B) (hm : w.cache.get? m = none) :
    Making lib (w.record m .pending) B ⊥ m 0 := by
  have hkeep : ∀ {z e}, w.cache.get? z = some e →
      (w.record m .pending).cache.get? z = some e :=
    Hosted.get?_record_of_known hm .pending
  have hback : ∀ {z g}, (w.record m .pending).cache.get? z = some (.loaded g) →
      w.cache.get? z = some (.loaded g) := by
    intro z g hz
    rw [Hosted.get?_record] at hz
    split at hz
    · exact nomatch hz
    · exact hz
  have hfaithful : ∀ {z e}, (w.record m .pending).cache.get? z = some e →
      Faithful lib (w.record m .pending) B z (e.recall z) := by
    intro z e hz
    rw [Hosted.get?_record] at hz
    split at hz
    · rename_i hzm
      cases hz
      refine .cycle (.again ?_)
      change (w.record m .pending).cache.get? z = _
      rw [Hosted.get?_record, if_pos hzm]
    · exact (h.faithful hz).mono (fun p hp => hkeep hp) le_rfl
  exact {
    renames := h.renames
    eq_of_id := h.eq_of_id
    lt := h.lt
    owner := by
      intro f f' hf
      obtain ⟨z, i, g, hz, hg⟩ := h.owner hf
      exact ⟨z, i, g, hz, hkeep hg⟩
    file := by
      intro f f' hf
      obtain ⟨g, hg⟩ := h.file hf
      exact ⟨g, hkeep hg⟩
    home := fun hf hg => h.home hf (hback hg)
    loose := fun hf hg => h.loose hf (hback hg)
    homeless := h.homeless
    faithful := hfaithful
    pending := by rw [Hosted.get?_record, if_pos rfl]
    own_definition := nofun
    own_file_eq := nofun
    own_iff := nofun
    own_eq := nofun
    own_lt := nofun
    own_new := nofun
    own_code := nofun
    own_file := nofun }

theorem ne_of_loaded (h : Making lib w B O m k) {z : String} {g : Globals Value}
    (hz : w.cache.get? z = some (.loaded g)) : z ≠ m := by
  rintro rfl
  rw [h.pending] at hz
  exact nomatch hz

/-- Numbers of own functions in the meaning are not those of functions known before. -/
theorem own_ne (h : Making lib w B O m k) {f f' g g' : Function} (hf : O f f') (hg : B g g') :
    f'.id ≠ g'.id := by
  intro heq
  obtain ⟨i, -, hi⟩ := h.own_code hf
  obtain ⟨z, j, u, hj, hu⟩ := h.owner hg
  rw [hi, hj, code_inj] at heq
  exact h.ne_of_loaded hu heq.1.symm

theorem renames_sup (h : Making lib w B O m k) : Renaming id (B ⊔ O) where
  definition := by
    rintro f f' (hf | hf)
    · exact h.renames.definition hf
    · rw [h.own_definition hf]
  file := by
    rintro f f' (hf | hf)
    · exact h.renames.file hf
    · exact h.own_file_eq hf
  id_iff := by
    rintro f f' g g' (hf | hf) (hg | hg)
    · exact h.renames.id_iff hf hg
    · exact iff_of_false (h.own_new hg hf).symm (h.own_ne hg hf).symm
    · exact iff_of_false (h.own_new hf hg) (h.own_ne hf hg)
    · exact h.own_iff hf hg

theorem eq_of_id_sup (h : Making lib w B O m k) {f f' g g' : Function} (hf : (B ⊔ O) f f')
    (hg : (B ⊔ O) g g') (hid : f.id = g.id) : f = g := by
  rcases hf with hf | hf
  · rcases hg with hg | hg
    · exact h.eq_of_id hf hg hid
    · exact absurd hid.symm (h.own_new hg hf)
  · rcases hg with hg | hg
    · exact absurd hid (h.own_new hf hg)
    · exact h.own_eq hf hg hid

theorem polled (h : Making lib w B O m k) (n : Nat) : Making lib (w.polled n) B O m k :=
  { h with toSound := h.toSound.polled n }

theorem grow (h : Making lib w B O m k) (hs : Sound lib w' B') (hg : Grows w B w' B') :
    Making lib w' B' O m k := by
  exact {
    toSound := hs
    pending := hg.entry h.pending
    own_definition := h.own_definition
    own_file_eq := h.own_file_eq
    own_iff := h.own_iff
    own_eq := h.own_eq
    own_lt := fun hf => (h.own_lt hf).trans_le hg.next
    own_new := by
      intro f f' g g' hf hg' heq
      rcases hg.fresh hg' with hg' | hg'
      · exact h.own_new hf hg' heq
      · have := h.own_lt hf
        omega
    own_code := h.own_code
    own_file := by
      intro f f' hf
      rcases h.own_file hf with hm | ⟨g, hg'⟩
      · exact .inl hm
      · exact .inr ⟨g, hg.entry hg'⟩ }

/-- The next function that the execution makes, and the one that its meaning makes. -/
def Next (w : World) (m : String) (k : Nat) (d : Definition) (file : String) : FunRel :=
  fun f f' => f = ⟨w.engine.nextFunction, d, file⟩ ∧ f' = ⟨code m k, d, file⟩

theorem new (h : Making lib w B O m k) (d : Definition) {file : String}
    (hfile : KnownFile m (B ⊔ O) file) :
    Making lib w.numbered B (O ⊔ Next w m k d file) m (k + 1) := by
  have hlt : ∀ {f f'}, O f f' → f.id ≠ w.engine.nextFunction := fun hf =>
    (h.own_lt hf).ne
  have hcode : ∀ {f f'}, O f f' → f'.id ≠ code m k := by
    intro f f' hf heq
    obtain ⟨i, hi, hf'⟩ := h.own_code hf
    rw [hf', code_inj] at heq
    omega
  exact {
    toSound := h.toSound.numbered
    pending := h.pending
    own_definition := by
      rintro f f' (hf | ⟨rfl, rfl⟩)
      · exact h.own_definition hf
      · rfl
    own_file_eq := by
      rintro f f' (hf | ⟨rfl, rfl⟩)
      · exact h.own_file_eq hf
      · rfl
    own_iff := by
      rintro f f' g g' (hf | ⟨rfl, rfl⟩) (hg | ⟨rfl, rfl⟩)
      · exact h.own_iff hf hg
      · exact iff_of_false (hlt hf) (hcode hf)
      · exact iff_of_false (hlt hg).symm (hcode hg).symm
      · exact iff_of_true rfl rfl
    own_eq := by
      rintro f f' g g' (hf | ⟨rfl, rfl⟩) (hg | ⟨rfl, rfl⟩) heq
      · exact h.own_eq hf hg heq
      · exact absurd heq (hlt hf)
      · exact absurd heq.symm (hlt hg)
      · rfl
    own_lt := by
      rintro f f' (hf | ⟨rfl, rfl⟩)
      · exact (h.own_lt hf).trans (Nat.lt_succ_self _)
      · exact Nat.lt_succ_self _
    own_new := by
      rintro f f' g g' (hf | ⟨rfl, rfl⟩) hg
      · exact h.own_new hf hg
      · exact (h.lt hg).ne'
    own_code := by
      rintro f f' (hf | ⟨rfl, rfl⟩)
      · obtain ⟨i, hi, hf'⟩ := h.own_code hf
        exact ⟨i, by omega, hf'⟩
      · exact ⟨k, by omega, rfl⟩
    own_file := by
      rintro f f' (hf | ⟨rfl, rfl⟩)
      · exact h.own_file hf
      · rcases hfile with hm | ⟨g, g', hg | hg, hgf⟩
        · exact .inl hm
        · obtain ⟨u, hu⟩ := h.file hg
          exact .inr ⟨u, hgf ▸ hu⟩
        · have hg' := h.own_file hg
          rw [hgf] at hg'
          exact hg' }

/-- The functions of an execution that goes on have no home yet. -/
theorem own_homeless (h : Making lib w B O m k) {f f' : Function} (hf : O f f') :
    w.engine.homes.lookup f.id = none :=
  h.homeless fun _ _ hg => (h.own_new hf hg).symm

/-- The home of a function is that of the function of the meaning. -/
theorem home_rel (h : Making lib w B O m k) {f f' : Function} (hf : (B ⊔ O) f f') :
    ∃ o d, HomeIs (Meaning lib d) m f' o ∧
      Option.Rel (Globals.Rel (B ⊔ O)) (w.engine.home? f.id) o := by
  have hhomeless : ∀ {f f'}, O f f' → w.engine.home? f.id = none := by
    intro f f' hf
    rw [Store.home?, h.own_homeless hf]
    rfl
  have hfile := h.renames_sup.file hf
  have hloaded : f.file = m ∨ ∃ g, w.cache.get? f.file = some (.loaded g) := by
    rcases hf with hf | hf
    · exact .inr (h.file hf)
    · exact h.own_file hf
  by_cases hm : f.file = m
  · refine ⟨none, 0, .own (hfile ▸ hm), ?_⟩
    rcases hf with hf | hf
    · obtain ⟨g, hg⟩ := h.file hf
      exact absurd hm (h.ne_of_loaded hg)
    · rw [hhomeless hf]
      exact .none
  · obtain ⟨g, hg⟩ := hloaded.resolve_left hm
    obtain ⟨g', ⟨d, hmean⟩, hrel⟩ := h.loaded hg
    have hmean' : Meaning lib d f'.file (.ok g') := hfile ▸ hmean
    have hm' : f'.file ≠ m := hfile ▸ hm
    by_cases hholds : g.Holds f
    · obtain ⟨f'', hf'', hholds'⟩ := hrel.holds hholds
      have heq := Sound.right_unique h.renames_sup hf (.inl hf'')
      rw [h.home hf'' hg hholds]
      exact ⟨some g', d, .bound hm' hmean' (heq ▸ hholds'), .some (hrel.mono fun _ _ => .inl)⟩
    · refine ⟨none, d, .loose hm' hmean' fun hholds' => ?_, ?_⟩
      · obtain ⟨f₀, hf₀, hholds₀⟩ := hrel.flip.holds hholds'
        have hid := (h.renames_sup.id_iff hf (.inl hf₀)).2 rfl
        exact hholds (h.eq_of_id_sup hf (.inl hf₀) hid ▸ hholds₀)
      · rcases hf with hf | hf
        · rw [h.loose hf hg hholds]
          exact .none
        · rw [hhomeless hf]
          exact .none

end Making
end ScriptShell
