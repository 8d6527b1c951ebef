import ScriptShell.Proofs.Loader.Served

/-!
# ScriptShell.Proofs.Loader.Transparent

It makes no difference what a loader has been asked for before.

* `load_mono`: a greater allowance does not change what is answered.
* `Responds`: an execution comes to something with every allowance that is great enough.
* `Meaning.answers`, `Cycles.answers`: a module that has a meaning, or that leads back to itself, is
  answered by every loader.
* `Requested`: the states of a loader that has been asked for modules.
* `load_transparent`: the main theorem.
-/

namespace ScriptShell

open Course (Rel)

/-! ## Allowances -/

section
variable {ctx : Context} {gap bound : Nat} {m : String} {c c' : Course (Globals Value)}
  {r : Ending Value} {w w' : World}

/-- What is asked for with less than the bound is answered in the same way with a greater
allowance. -/
def Stable (ctx : Context) (bound : Nat) : Prop :=
  ∀ {fuel fuel' : Nat} {z : String} {r : Ending Value} {w w' : World}, fuel < bound →
    fuel ≤ fuel' → load (fun m => execFile ctx fuel m m) z w = answer r w' →
    load (fun m => execFile ctx fuel' m m) z w = answer r w'

theorem Stable.run (hstable : Stable ctx bound)
    (hc : Rel id gap bound m Globals.Rel (· = ·) c c') (h : c.run ctx w = answer r w') :
    c'.run ctx w = answer r w' := by
  generalize hR : (fun f f' : Function => f = f') = R at hc
  induction hc generalizing w with
  | value hg =>
    subst hR
    exact Globals.eq_of_rel hg ▸ h
  | @fail _ e e' he _ =>
    rw [e.mapPos_id, e'.mapPos_id] at he
    exact he ▸ h
  | stuck => exact absurd h (outOfFuel_ne_answer w w' r)
  | poll _ ih =>
    by_cases hcancel : ctx.cancelledAt (w.engine.polls + 1) = true
    · rw [Course.run_poll_of_cancelled hcancel] at h ⊢
      exact h
    · rw [Course.run_poll_of_not hcancel] at h ⊢
      exact ih h hR
  | @new _ d d' file next next' hd _ _ ih =>
    subst hR
    rw [d.mapPos_id, d'.mapPos_id] at hd
    subst hd
    exact ih _ w.engine.nextFunction w.engine.nextFunction le_rfl (renaming_eq id) rfl h rfl
  | @home _ f f' next next' hf _ ih =>
    subst hR hf
    exact ih _ _ _ le_rfl (renaming_eq id) (Globals.optionRel_refl _) h rfl
  | @load _ fuel fuel' z next next' hfuel hbound _ ih =>
    subst hR
    have hle : fuel ≤ fuel' := by omega
    rcases answer_or_outOfFuel (load (fun m => execFile ctx fuel m m) z w) with
      ⟨e | g, w₁, hload⟩ | ⟨w₁, hload⟩
    · have hload' := hstable hbound hle hload
      rw [Course.run_load_of_error hload] at h
      rw [Course.run_load_of_error hload']
      exact h
    · have hload' := hstable hbound hle (r := .ok g) hload
      rw [Course.run_load_of_ok hload] at h
      rw [Course.run_load_of_ok hload']
      exact ih _ g g le_rfl (renaming_eq id) g.rel_refl h rfl
    · rw [Course.run_load_of_error hload] at h
      exact absurd h (outOfFuel_ne_answer w₁ w' r)

/-- A greater allowance does not change what is answered. -/
theorem load_mono {fuel fuel' : Nat} {z : String} (hfuel : fuel ≤ fuel')
    (h : load (fun m => execFile ctx fuel m m) z w = answer r w') :
    load (fun m => execFile ctx fuel' m m) z w = answer r w' := by
  induction fuel using Nat.strong_induction_on generalizing fuel' z r w w' with
  | _ fuel ih =>
    cases hz : w.cache.get? z with
    | some e =>
      rw [load_of_some hz] at h ⊢
      exact h
    | none =>
      cases fuel with
      | zero =>
        exact absurd ((load_of_zero hz).symm.trans h) (outOfFuel_ne_answer _ _ _)
      | succ fuel =>
        obtain ⟨fuel', rfl⟩ : ∃ j, fuel' = j + 1 := ⟨fuel' - 1, by omega⟩
        have hstable : Stable ctx fuel := fun {j _ _ _ _ _} hj => ih j (by omega)
        rcases answer_or_outOfFuel ((Course.ofModule ctx.library ctx.canLoad fuel z).run ctx
            (w.record z .pending)) with ⟨r₁, w₁, hrun⟩ | ⟨w₁, hrun⟩
        · have hgap : fuel + 0 ≤ fuel' := by omega
          have hrun' := hstable.run
            (rel_ofModule id ctx.library ctx.canLoad hgap le_rfl z (renaming_eq id)) hrun
          rw [load_of_run hz hrun']
          exact (load_of_run hz hrun).symm.trans h
        · exact absurd ((load_of_run_outOfFuel hz hrun).symm.trans h) (outOfFuel_ne_answer _ _ _)

end

/-! ## Requests that are answered -/

/-- With some allowance, asking for the module is answered. -/
def Answered (ctx : Context) (z : String) (w : World) : Prop :=
  ∃ fuel r w', load (fun m => execFile ctx fuel m m) z w = answer r w'

section
variable {ctx : Context} {bound : Nat} {R B O : FunRel} {c : Course (Globals Value)}
  {m z : String} {k d : Nat} {w : World} {r : Ending Value} {s : Stage} {P : Set String}

theorem Globals.optionRel_flip {o o' : Option (Globals Value)}
    (h : Option.Rel (Globals.Rel R) o o') :
    Option.Rel (Globals.Rel fun f' f => R f f') o' o := by
  cases h with
  | none => exact .none
  | some hg => exact .some hg.flip

theorem Answered.of_some {e : Entry Value} (h : w.cache.get? z = some e) : Answered ctx z w :=
  ⟨0, e.recall z, w, load_of_some h⟩

/-- A module that is answered is served in the same way with every allowance that is great
enough. -/
theorem Answered.serves (hctx : ctx.canLoad = true) (h : Answered ctx z w)
    (hw : Sound ctx.library w B) : ∃ N r w₁ B₁, Served ctx w B z r w₁ B₁ ∧
      ∀ fuel ≥ N, load (fun m => execFile ctx fuel m m) z w = answer r w₁ := by
  obtain ⟨N, r, w₁, hload⟩ := h
  obtain ⟨B₁, hserved⟩ := ScriptShell.serves ctx hctx N hw hload
  exact ⟨N, r, w₁, B₁, hserved, fun _ hle => load_mono hle hload⟩

/-- With every allowance that is great enough, an execution comes to something if it does the same
as `c`, up to the functions that are related. -/
def Responds (ctx : Context) (bound : Nat) (m : String) (w : World) (R : FunRel)
    (c : Course (Globals Value)) : Prop :=
  ∃ N, ∀ gap ≥ N, ∀ {R₁ c'}, Rel id gap bound m Globals.Rel R₁ c c' →
    (∀ f f', R₁ f' f → R f f') → ∃ r w', c'.run ctx w = answer r w'

namespace Responds

theorem value (g : Globals Value) : Responds ctx bound m w R (.value g) := by
  refine ⟨0, fun gap _ R₁ c' hc _ => ?_⟩
  cases hc with
  | @value _ _ g' _ => exact ⟨.ok g', w, rfl⟩

theorem fail (e : Error) : Responds ctx bound m w R (.fail e) := by
  refine ⟨0, fun gap _ R₁ c' hc _ => ?_⟩
  cases hc with
  | @fail _ _ e' _ _ => exact ⟨.error e', w, rfl⟩

theorem poll (h : Responds ctx bound m (w.polled (w.engine.polls + 1)) R c) :
    Responds ctx bound m w R (.poll c) := by
  obtain ⟨N, hN⟩ := h
  refine ⟨N, fun gap hgap R₁ c' hc hR => ?_⟩
  cases hc with
  | @poll _ _ c' hc =>
    by_cases hcancel : ctx.cancelledAt (w.engine.polls + 1) = true
    · exact ⟨_, _, Course.run_poll_of_cancelled hcancel c'⟩
    · rw [Course.run_poll_of_not hcancel]
      exact hN gap hgap hc hR

/-- An execution makes functions of its own file, and of files that it knows. -/
theorem new {definition : Definition} {file : String} {next : Function → Course (Globals Value)}
    (hw : Making ctx.library w B O m k)
    (h : ∀ {O'}, Making ctx.library w.numbered B O' m (k + 1) →
      Responds ctx bound m w.numbered (B ⊔ O') (next ⟨code m k, definition, file⟩)) :
    Responds ctx bound m w (B ⊔ O) (.new definition file next) := by
  by_cases hfile : KnownFile m (B ⊔ O) file
  · have hw' := hw.new definition hfile
    obtain ⟨N, hN⟩ := h hw'
    refine ⟨N, fun gap hgap R₁ c' hc hR => ?_⟩
    cases hc with
    | @new _ _ d' _ _ next' hd _ hnext =>
      rw [definition.mapPos_id, d'.mapPos_id] at hd
      subst hd
      refine hN gap hgap (hnext _ (code m k) w.engine.nextFunction ?_ hw'.renames_sup.flip
        (.inr (.inr ⟨rfl, rfl⟩))) fun _ _ => id
      intro f' f hf
      exact (hR f f' hf).imp_right .inl
  · refine ⟨0, fun gap _ R₁ c' hc hR => absurd ?_ hfile⟩
    cases hc with
    | new _ hknown _ =>
      rcases hknown with hm | ⟨f', f, hf, hf'⟩
      · exact .inl hm
      · have hsup := hR f f' hf
        exact .inr ⟨f, f', hsup, (hw.renames_sup.file hsup).trans hf'⟩

theorem home {f' : Function} {o : Option (Globals Value)}
    {next : Option (Globals Value) → Course (Globals Value)}
    (hw : Making ctx.library w B O m k) (ho : HomeIs (Meaning ctx.library d) m f' o)
    (h : Responds ctx bound m w (B ⊔ O) (next o)) :
    Responds ctx bound m w (B ⊔ O) (.home f' next) := by
  obtain ⟨N, hN⟩ := h
  refine ⟨N, fun gap hgap R₁ c' hc hR => ?_⟩
  cases hc with
  | @home _ _ f _ next' hf hnext =>
    obtain ⟨o', d', ho', hrel⟩ := hw.home_rel (hR _ _ hf)
    obtain rfl := ho.unique (fun _ _ _ hz hz' => hz.unique hz') ho'
    have hnext' := hnext _ _ _ (fun f' f hf => hR f f' hf) hw.renames_sup.flip
      (Globals.optionRel_flip hrel)
    obtain ⟨r, w', hrun⟩ := hN gap hgap hnext' fun _ _ => id
    exact ⟨r, w', hrun⟩

/-- An execution goes on behind a module that is answered only if the module can be had. -/
theorem load {fuel : Nat} {next : Globals Value → Course (Globals Value)}
    (hctx : ctx.canLoad = true) (hw : Making ctx.library w B O m k) (hz : Answered ctx z w)
    (h : ∀ {w₁ B₁ g₁ g}, Making ctx.library w₁ B₁ O m k → Grows w B w₁ B₁ →
      Means ctx.library z (.ok g) → Globals.Rel B₁ g₁ g →
      Responds ctx bound m w₁ (B₁ ⊔ O) (next g)) :
    Responds ctx bound m w (B ⊔ O) (.load fuel z next) := by
  obtain ⟨N, r, w₁, B₁, hserved, hload⟩ := hz.serves hctx hw.toSound
  rcases r with e | g₁
  · refine ⟨N, fun gap hgap R₁ c' hc _ => ?_⟩
    cases hc with
    | @load _ _ fuel' _ _ next' hfuel _ _ =>
      exact ⟨.error e, w₁, Course.run_load_of_error (hload fuel' (by omega))⟩
  · rcases hserved.faithful with hfaithful | ⟨hstop, -⟩
    · cases hfaithful with
      | @ok _ g hmeans hg =>
        have hw₁ := hw.grow hserved.sound hserved.grows
        obtain ⟨N', hN'⟩ := h hw₁ hserved.grows hmeans hg
        refine ⟨max N N', fun gap hgap R₁ c' hc hR => ?_⟩
        cases hc with
        | @load _ _ fuel' _ _ next' hfuel _ hnext =>
          rw [Course.run_load_of_ok (hload fuel' (by omega))]
          refine hN' gap (by omega) (hnext _ g g₁ ?_ hw₁.renames_sup.flip
            (hg.mono le_sup_left).flip) fun _ _ => id
          intro f' f hf
          exact (hR f f' hf).imp_left (hserved.grows.le _ _)
    · exact nomatch hstop

end Responds

/-- An execution that asks for modules that are answered is answered with every allowance that is
great enough. It goes on at most until the stage of its meaning. -/
theorem Making.answers (hctx : ctx.canLoad = true)
    (hs : Leads (Meaning ctx.library d) m k c s)
    (hok : ∀ {z g w B}, Meaning ctx.library d z (.ok g) → Sound ctx.library w B → Answered ctx z w)
    (hasks : ∀ {z}, s = .asks z → (∀ g, ¬ Means ctx.library z (.ok g)) ∧
      ∀ {w B}, Sound ctx.library w B → P ⊆ w.pendings → Answered ctx z w)
    (hw : Making ctx.library w B O m k) (hP : P ⊆ w.pendings) :
    Responds ctx bound m w (B ⊔ O) c := by
  induction hs generalizing w B O with
  | value g => exact .value g
  | fail e => exact .fail e
  | asks z next =>
    obtain ⟨hnone, hz⟩ := hasks rfl
    exact .load hctx hw (hz hw.toSound hP) fun _ _ hmeans _ => absurd hmeans (hnone _)
  | poll _ ih => exact .poll (ih hasks (hw.polled _) hP)
  | new _ ih => exact .new hw fun hw' => ih hasks hw' hP
  | home ho _ ih => exact .home hw ho (ih hasks hw hP)
  | load hg _ ih =>
    refine .load hctx hw (hok hg hw.toSound) fun hw₁ hgrows hmeans _ => ?_
    cases hg.unique hmeans.choose_spec
    exact ih hasks hw₁ fun p hp => hgrows.entry (hP hp)

/-- A loader answers for a module that it does not know if the module leads to a stage at which it
ends or asks for a module that is answered but cannot be had. -/
theorem answers_of_leads (hctx : ctx.canLoad = true) {fuel : Nat}
    (hs : Leads (Meaning ctx.library d) m 0 (.ofModule ctx.library true fuel m) s)
    (hok : ∀ {z g w B}, Meaning ctx.library d z (.ok g) → Sound ctx.library w B → Answered ctx z w)
    (hasks : ∀ {z}, s = .asks z → (∀ g, ¬ Means ctx.library z (.ok g)) ∧
      ∀ {w B}, Sound ctx.library w B → insert m P ⊆ w.pendings → Answered ctx z w)
    (hw : Sound ctx.library w B) (hP : P ⊆ w.pendings) : Answered ctx m w := by
  cases hm : w.cache.get? m with
  | some e => exact .of_some hm
  | none =>
    have hP' : insert m P ⊆ (w.record m .pending).pendings := by
      intro p hp
      change (w.record m .pending).cache.get? p = _
      rw [Hosted.get?_record]
      rcases hp with rfl | hp
      · rw [if_pos rfl]
      · split
        · rfl
        · exact hP hp
    obtain ⟨N, hN⟩ := (Making.start hw hm).answers hctx hs hok hasks hP'
    have hc : Rel id N fuel m Globals.Rel ⊥ (.ofModule ctx.library true fuel m)
        (.ofModule ctx.library ctx.canLoad (fuel + N) m) := by
      rw [hctx]
      exact rel_ofModule id ctx.library true le_rfl le_rfl m ⟨⟨nofun, nofun⟩, nofun⟩
    obtain ⟨r, w', hrun⟩ := hN N le_rfl hc nofun
    exact ⟨fuel + N + 1, r, _, load_of_run hm hrun⟩

/-- A module that has a meaning is answered. -/
theorem Meaning.answers (ctx : Context) (hctx : ctx.canLoad = true) (h : Meaning ctx.library d z r)
    (hw : Sound ctx.library w B) : Answered ctx z w := by
  induction d generalizing z r w B with
  | zero => exact h.elim
  | succ d ih =>
    obtain ⟨fuel, s, hs, hr⟩ := h
    refine answers_of_leads (P := ∅) hctx hs ih ?_ hw (Set.empty_subset _)
    rintro z rfl
    cases hr with
    | asks he =>
      exact ⟨fun g hg => absurd (hg.unique ⟨d, he⟩) nofun, fun hw' _ => ih he hw'⟩

/-- A module that leads back to itself, or to one that is being executed, is answered. -/
theorem Cycles.answers (ctx : Context) (hctx : ctx.canLoad = true) (h : Cycles ctx.library P z)
    (hnone : ∀ p ∈ P, ∀ r, ¬ Means ctx.library p r) (hw : Sound ctx.library w B)
    (hP : P ⊆ w.pendings) : Answered ctx z w := by
  induction h generalizing w B with
  | again h => exact .of_some (hP h)
  | @onwards P m y d fuel hs hy ih =>
    have hinsert : ∀ p ∈ insert m P, ∀ r, ¬ Means ctx.library p r := by
      rintro p (rfl | hp) r
      · rintro ⟨d', hr⟩
        obtain ⟨q, hq, r', hr'⟩ := (Cycles.onwards hs hy).meaning hr
        exact hnone q hq r' ⟨d', hr'⟩
      · exact hnone p hp r
    refine answers_of_leads hctx hs (fun hg hw' => hg.answers ctx hctx hw') ?_ hw hP
    rintro z hz
    cases hz
    refine ⟨?_, fun hw' hP' => ih hinsert hw' hP'⟩
    rintro g ⟨d', hg⟩
    obtain ⟨q, hq, r', hr'⟩ := hy.meaning hg
    exact hinsert q hq r' ⟨d', hr'⟩

end

/-! ## Transparency -/

/-- Ask a loader for a module of the library. The request is cancelled from a poll on, or never. -/
def askFor (lib : Library) (cancelFrom : Option Nat) (fuel : Nat) (m : String) :
    HostM Value Store (Globals Value) := fun w =>
  load (fun m => execFile ⟨lib, true, cancelFrom⟩ fuel m m) m (World.begin w)

/-- The states of a loader that has been asked for modules, each request cancelled or not. -/
inductive Requested (lib : Library) : World → Prop where
  | fresh : Requested lib World.empty
  | request {w w' : World} {cancelFrom : Option Nat} {fuel : Nat} {m : String} {r : Ending Value}
      (h : Requested lib w) (hr : Returns (askFor lib cancelFrom fuel m) w r w') : Requested lib w'

/-- Outcomes that cannot be told apart: the same bindings, with functions that have the same
definition and file and are equal where those of the other are, or the same failure, or cycles. -/
inductive Alike : Ending Value → Ending Value → Prop where
  | ok {R : FunRel} {g g' : Globals Value} (hR : Renaming id R) (hg : Globals.Rel R g g') :
      Alike (.ok g) (.ok g')
  | error {e : Error} (he : ∀ y, e ≠ .cycle y) : Alike (.error e) (.error e)
  | cycle (y y' : String) : Alike (.error (.cycle y)) (.error (.cycle y'))

section
variable {lib : Library} {w w' : World} {m : String} {r : Ending Value}

theorem World.pendings_empty : World.empty.pendings = ∅ :=
  Set.eq_empty_of_forall_notMem fun _ hp => nomatch hp

theorem Requested.sound (h : Requested lib w) :
    w.pendings = ∅ ∧ ∃ B, Sound lib w B := by
  induction h with
  | fresh =>
    exact ⟨World.pendings_empty, ⊥, .empty lib⟩
  | @request w w' cancelFrom fuel m r _ hr ih =>
    obtain ⟨hpendings, B, hw⟩ := ih
    have hw₀ : Sound lib (World.begin w) B := hw.polled 0
    obtain ⟨B', hserved⟩ := serves ⟨lib, true, cancelFrom⟩ rfl fuel hw₀ hr
    refine ⟨?_, B', hserved.sound⟩
    rw [← hpendings]
    exact Set.Subset.antisymm (fun p hp => hserved.grows.pending hp)
      fun p hp => hserved.grows.entry hp

/-- What a loader that is not busy answers, if it is not stopped. -/
theorem Requested.faithful (h : Requested lib w) {fuel : Nat}
    (hr : Returns (askFor lib none fuel m) w r w') :
    ∃ B, Renaming id B ∧ Faithful lib World.empty B m r := by
  obtain ⟨hpendings, B, hw⟩ := h.sound
  have hw₀ : Sound lib (World.begin w) B := hw.polled 0
  obtain ⟨B', hserved⟩ := serves ⟨lib, true, none⟩ rfl fuel hw₀ hr
  rcases hserved.faithful with hfaithful | ⟨-, hstop⟩
  · refine ⟨B', hserved.sound.renames, hfaithful.mono (fun p hp => ?_) le_rfl⟩
    have hp' : p ∈ w.pendings := hserved.grows.pending hp
    rw [hpendings] at hp'
    exact hp'.elim
  · exact absurd rfl hstop

theorem Faithful.alike {B B' : FunRel} {r' : Ending Value} (hB : Renaming id B)
    (hB' : Renaming id B') (h : Faithful lib World.empty B m r)
    (h' : Faithful lib World.empty B' m r') : Alike r r' := by
  have hcycles : ∀ {r₁}, Cycles lib (World.empty).pendings m → ¬ Means lib m r₁ := by
    intro r₁ hm
    rw [World.pendings_empty] at hm
    exact hm.not_means
  cases h with
  | ok hm hg =>
    cases h' with
    | ok hm' hg' =>
      cases hm.unique hm'
      exact .ok (hB.comp hB'.flip) (hg.comp hg'.flip)
    | plain hm' _ => exact nomatch hm.unique hm'
    | cycle hm' => exact absurd hm (hcycles hm')
  | plain hm he =>
    cases h' with
    | ok hm' _ => exact nomatch hm.unique hm'
    | plain hm' _ =>
      cases hm.unique hm'
      refine .error ?_
      rintro y rfl
      exact he
    | cycle hm' => exact absurd hm (hcycles hm')
  | cycle hm =>
    cases h' with
    | ok hm' _ => exact absurd hm' (hcycles hm)
    | plain hm' _ => exact absurd hm' (hcycles hm)
    | cycle _ => exact .cycle _ _

/-- If a fresh loader answers for a module then so does one that has been asked for modules before,
and its answer cannot be told from that of the fresh one. -/
theorem load_transparent (hw : Requested lib w) {fuel : Nat} {r : Ending Value} {w₁ : World}
    (hfresh : Returns (askFor lib none fuel m) World.empty r w₁) :
    (∃ fuel' r' w', Returns (askFor lib none fuel' m) w r' w') ∧
      ∀ fuel' r' w', Returns (askFor lib none fuel' m) w r' w' → Alike r' r := by
  obtain ⟨B₀, hB₀, hm⟩ := Requested.fresh.faithful hfresh
  constructor
  · obtain ⟨-, B, hsound⟩ := hw.sound
    have hw₀ : Sound lib (World.begin w) B := hsound.polled 0
    cases hm with
    | ok hm _ =>
      obtain ⟨d, hm⟩ := hm
      exact hm.answers ⟨lib, true, none⟩ rfl hw₀
    | plain hm _ =>
      obtain ⟨d, hm⟩ := hm
      exact hm.answers ⟨lib, true, none⟩ rfl hw₀
    | cycle hm =>
      rw [World.pendings_empty] at hm
      exact hm.answers ⟨lib, true, none⟩ rfl (fun _ hp => hp.elim) hw₀
        (Set.empty_subset _)
  · intro fuel' r' w' hr
    obtain ⟨B, hB, hm'⟩ := hw.faithful hr
    exact hm'.alike hB hB₀ hm

end

/-- Two modules that ask for each other, and one that asks for none. -/
def loopAndLib : Library := .ofTexts <| .ofList
  [("a", "load('b', 'y')\nx = 1\n"), ("b", "load('a', 'x')\ny = 2\n"),
    ("lib", "def inc(n):\n    return n + 1\n")]

/-- A loader that has been asked for `lib`, which was stopped, and for `a`. -/
def askedTwice : World :=
  left (askFor loopAndLib none 9 "a" (left (askFor loopAndLib (some 1) 9 "lib" World.empty)))

theorem load_transparent_loop :
    Requested loopAndLib askedTwice ∧
    (∃ fuel' r' w', Returns (askFor loopAndLib none fuel' "b") askedTwice r' w') ∧
    ∀ fuel' r' w', Returns (askFor loopAndLib none fuel' "b") askedTwice r' w' →
      Alike r' (.error (.cycle "b")) := by
  have hlib : Returns (askFor loopAndLib (some 1) 9 "lib") World.empty (.error .cancelled)
      (left (askFor loopAndLib (some 1) 9 "lib" World.empty)) := by cbv
  have ha : Returns (askFor loopAndLib none 9 "a")
      (left (askFor loopAndLib (some 1) 9 "lib" World.empty)) (.error (.cycle "a"))
      askedTwice := by cbv
  have hfresh : Returns (askFor loopAndLib none 9 "b") World.empty (.error (.cycle "b"))
      (left (askFor loopAndLib none 9 "b" World.empty)) := by cbv
  have hw : Requested loopAndLib askedTwice := (Requested.fresh.request hlib).request ha
  exact ⟨hw, load_transparent hw hfresh⟩

end ScriptShell
