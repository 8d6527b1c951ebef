import ScriptShell.Proofs.Loader.Sound

/-!
# ScriptShell.Proofs.Loader.Served

Asking a sound loader for a module. The loader stays sound, whatever comes of it, and what comes of
it agrees with the meaning of the module.

* `Ran`: what the execution of a module does, up to a stage that its meaning comes to as well.
* `Making.run`: every execution does so if the modules that it asks for are served.
* `Served`, `served`: what asking for a module does.
-/

namespace ScriptShell

open Course (Rel)

/-- What came of an execution agrees with a stage of its meaning. -/
inductive Comes (lib : Library) (w : World) (R : FunRel) : Stage → Ending Value → Prop where
  | ok {g g' : Globals Value} (hg : Globals.Rel R g g') : Comes lib w R (.ended (.ok g')) (.ok g)
  | fail {e : Error} (he : e.Plain) : Comes lib w R (.ended (.error e)) (.error e)
  | asks {z : String} {e : Error} (hz : Faithful lib w R z (.error e)) :
      Comes lib w R (.asks z) (.error e)

/-- It was stopped from outside. -/
def Stopped (ctx : Context) (r : Ending Value) : Prop :=
  r = .error .cancelled ∧ ctx.cancelFrom ≠ none

/-- Asking for `z` came to this. -/
structure Served (ctx : Context) (w : World) (B : FunRel) (z : String) (r : Ending Value)
    (w' : World) (B' : FunRel) : Prop where
  sound : Sound ctx.library w' B'
  grows : Grows w B w' B'
  faithful : Faithful ctx.library w' B' z r ∨ Stopped ctx r
  calm : (∀ y, r ≠ .error (.cycle y)) → Calm w w'

/-- With the allowance, asking a sound loader for a module serves it. -/
def Serves (ctx : Context) (fuel : Nat) : Prop :=
  ∀ {w : World} {B : FunRel} {z : String} {r : Ending Value} {w' : World},
    Sound ctx.library w B → load (fun m => execFile ctx fuel m m) z w = answer r w' →
    ∃ B', Served ctx w B z r w' B'

/-- The execution of `m` came to this from the point where it had made the functions `O`. -/
structure Ran (ctx : Context) (w : World) (B O : FunRel) (m : String) (k : Nat)
    (c : Course (Globals Value)) (r : Ending Value) (w' : World) (B' O' : FunRel) (k' : Nat) :
    Prop where
  making : Making ctx.library w' B' O' m k'
  grows : Grows w B w' B'
  own_fresh : ∀ {f f'}, O' f f' → O f f' ∨ w.engine.nextFunction ≤ f.id
  comes : (∃ d s, Leads (Meaning ctx.library d) m k c s ∧ Comes ctx.library w' (B' ⊔ O') s r) ∨
    Stopped ctx r
  calm : (∀ y, r ≠ .error (.cycle y)) → Calm w w'

/-! ## Steps of a course -/

namespace Course

variable {β : Type} {ctx : Context} {w w' : World}

theorem run_poll_of_cancelled (h : ctx.cancelledAt (w.engine.polls + 1) = true) (c : Course β) :
    (poll c).run ctx w = answer (.error .cancelled) (w.polled (w.engine.polls + 1)) := by
  simp only [run]
  change EStateM.bind _ _ _ = _
  rw [EStateM.bind, ScriptShell.poll, if_pos h]
  rfl

theorem run_poll_of_not (h : ¬ ctx.cancelledAt (w.engine.polls + 1) = true) (c : Course β) :
    (poll c).run ctx w = c.run ctx (w.polled (w.engine.polls + 1)) := by
  simp only [run]
  change EStateM.bind _ _ _ = _
  rw [EStateM.bind, ScriptShell.poll, if_neg h]
  rfl

theorem run_load_of_ok {fuel : Nat} {z : String} {next : Globals Value → Course β}
    {g : Globals Value} (h : ScriptShell.load (fun m => execFile ctx fuel m m) z w = .ok g w') :
    (load fuel z next).run ctx w = (next g).run ctx w' := by
  simp only [run]
  change EStateM.bind _ _ _ = _
  rw [EStateM.bind, h]

theorem run_load_of_error {fuel : Nat} {z : String} {next : Globals Value → Course β} {e : Halt}
    (h : ScriptShell.load (fun m => execFile ctx fuel m m) z w = .error e w') :
    (load fuel z next).run ctx w = .error e w' := by
  simp only [run]
  change EStateM.bind _ _ _ = _
  rw [EStateM.bind, h]

end Course

theorem Context.cancelFrom_ne_none {ctx : Context} {n : Nat} (h : ctx.cancelledAt n = true) :
    ctx.cancelFrom ≠ none := by
  intro hnone
  rw [cancelledAt, hnone] at h
  exact nomatch h

theorem Calm.refl (w : World) : Calm w w :=
  fun _ _ => id

theorem Calm.trans {w w' w'' : World} (h : Calm w w') (h' : Calm w' w'') : Calm w w'' :=
  fun z y hz => h z y (h' z y hz)

/-! ## Executions -/

section
variable {ctx : Context} {gap bound : Nat} {R B O : FunRel} {c c' : Course (Globals Value)}
  {m : String} {k : Nat} {w w' : World} {r : Ending Value}

/-- What an execution comes to later on, it comes to. -/
theorem Ran.of_later {w₁ : World} {B₁ O₁ B' O' : FunRel} {c₁ : Course (Globals Value)} {k₁ k' : Nat}
    (h : Ran ctx w₁ B₁ O₁ m k₁ c₁ r w' B' O' k') (hgrows : Grows w B w₁ B₁)
    (hfresh : ∀ {f f'}, O₁ f f' → O f f' ∨ w.engine.nextFunction ≤ f.id)
    (hleads : ∀ d s, Leads (Meaning ctx.library d) m k₁ c₁ s →
      ∃ d', Leads (Meaning ctx.library d') m k c s) (hcalm : Calm w w₁) :
    Ran ctx w B O m k c r w' B' O' k' := by
  refine ⟨h.making, hgrows.trans h.grows, fun hf => ?_, ?_, fun hr => hcalm.trans (h.calm hr)⟩
  · rcases h.own_fresh hf with hf | hf
    · exact hfresh hf
    · exact .inr (hgrows.next.trans hf)
  · rcases h.comes with ⟨d, s, hs, hcomes⟩ | hstop
    · obtain ⟨d', hs'⟩ := hleads d s hs
      exact .inl ⟨d', s, hs', hcomes⟩
    · exact .inr hstop

theorem Ran.of_ended {s : Stage} (hw : Making ctx.library w B O m k)
    (hs : Leads (Meaning ctx.library 0) m k c s) (hcomes : Comes ctx.library w (B ⊔ O) s r) :
    Ran ctx w B O m k c r w B O k :=
  ⟨hw, .refl w B, .inl, .inl ⟨0, s, hs, hcomes⟩, fun _ => .refl w⟩

/-- Executions keep a loader sound if the modules that they ask for are served. -/
theorem Making.run (hserves : ∀ j < bound, Serves ctx j)
    (hc : Rel id gap bound m Globals.Rel R c c') (hR : R ≤ B ⊔ O)
    (hw : Making ctx.library w B O m k) (hrun : c.run ctx w = answer r w') :
    ∃ B' O' k', Ran ctx w B O m k c' r w' B' O' k' := by
  induction hc generalizing w B O k with
  | @value R g g' h =>
    obtain ⟨rfl, rfl⟩ := answer_inj (r := .ok g) (s := w) hrun
    exact ⟨B, O, k, .of_ended hw (.value g') (.ok (h.mono hR))⟩
  | @fail R e e' h hplain =>
    rw [e.mapPos_id, e'.mapPos_id] at h
    subst h
    obtain ⟨rfl, rfl⟩ := answer_inj (r := .error e) (s := w) hrun
    exact ⟨B, O, k, .of_ended hw (.fail e) (.fail hplain)⟩
  | stuck => exact absurd hrun (outOfFuel_ne_answer w w' r)
  | poll _ ih =>
    by_cases hcancel : ctx.cancelledAt (w.engine.polls + 1) = true
    · rw [Course.run_poll_of_cancelled hcancel] at hrun
      obtain ⟨rfl, rfl⟩ := answer_inj hrun
      exact ⟨B, O, k, hw.polled _, .polled w B _, .inl,
        .inr ⟨rfl, ctx.cancelFrom_ne_none hcancel⟩, fun _ => .refl w⟩
    · rw [Course.run_poll_of_not hcancel] at hrun
      obtain ⟨B', O', k', hran⟩ := ih hR (hw.polled _) hrun
      exact ⟨B', O', k', hran.of_later (.polled w B _) .inl (fun d s hs => ⟨d, .poll hs⟩) (.refl w)⟩
  | @new R d d' file next next' hd hfile _ ih =>
    rw [d.mapPos_id, d'.mapPos_id] at hd
    subst hd
    have hw' := hw.new d (hfile.mono hR)
    obtain ⟨B', O', k', hran⟩ := ih _ w.engine.nextFunction (code m k)
      (hR.trans (sup_le_sup_left le_sup_left B)) hw'.renames_sup (.inr (.inr ⟨rfl, rfl⟩))
      le_rfl hw' hrun
    refine ⟨B', O', k', hran.of_later (.numbered w B) ?_
      (fun d' s hs => ⟨d', .new hs⟩) (.refl w)⟩
    rintro f f' (hf | ⟨rfl, rfl⟩)
    · exact .inl hf
    · exact .inr le_rfl
  | @home R f f' next next' hf _ ih =>
    obtain ⟨o, d, ho, hrel⟩ := hw.home_rel (hR _ _ hf)
    obtain ⟨B', O', k', hran⟩ := ih _ _ _ hR hw.renames_sup hrel le_rfl hw hrun
    refine ⟨B', O', k', hran.of_later (.refl w B) .inl (fun d' s hs => ⟨max d d', ?_⟩) (.refl w)⟩
    exact .home (ho.mono fun _ _ => Meaning.mono (Nat.le_max_left d d'))
      (hs.mono fun _ _ => Meaning.mono (Nat.le_max_right d d'))
  | @load R fuel fuel' z next next' _ hbound _ ih =>
    rcases answer_or_outOfFuel (ScriptShell.load (fun m => execFile ctx fuel m m) z w) with
      ⟨e | g, w₁, hload⟩ | ⟨w₁, hload⟩
    · rw [Course.run_load_of_error hload] at hrun
      obtain ⟨rfl, rfl⟩ := answer_inj (r := .error e) (s := w₁) hrun
      obtain ⟨B₁, hserved⟩ := hserves fuel hbound hw.toSound hload
      refine ⟨B₁, O, k, hw.grow hserved.sound hserved.grows, hserved.grows, .inl, ?_, hserved.calm⟩
      exact hserved.faithful.imp_left fun hz =>
        ⟨0, .asks z, .asks z next', .asks (hz.mono (fun _ hp => hp) le_sup_left)⟩
    · rw [Course.run_load_of_ok hload] at hrun
      obtain ⟨B₁, hserved⟩ := hserves fuel hbound hw.toSound (r := .ok g) hload
      rcases hserved.faithful with hz | ⟨hstop, -⟩
      · cases hz with
        | @ok _ g' hz hg =>
          obtain ⟨d, hz⟩ := hz
          have hw₁ := hw.grow hserved.sound hserved.grows
          obtain ⟨B', O', k', hran⟩ := ih _ g g' (hR.trans (sup_le_sup_right hserved.grows.le O))
            hw₁.renames_sup (hg.mono le_sup_left) le_rfl hw₁ hrun
          refine ⟨B', O', k', hran.of_later hserved.grows .inl (fun d' s hs => ⟨max d d', ?_⟩)
            (hserved.calm nofun)⟩
          exact .load (hz.mono (Nat.le_max_left d d'))
            (hs.mono fun _ _ => Meaning.mono (Nat.le_max_right d d'))
      · exact nomatch hstop
    · rw [Course.run_load_of_error hload] at hrun
      exact absurd hrun (outOfFuel_ne_answer w₁ w' r)

end

/-! ## The end of an execution -/

/-- The state when the execution of `z` has ended with this. -/
def Hosted.close (w : World) (z : String) : Ending Value → World
  | .ok g => Hosted.settle { w with engine := w.engine.settle z g } z (.ok g)
  | .error e => w.settle z (.error e)

theorem Hosted.get?_close (w : World) (z y : String) (r : Ending Value) :
    (w.close z r).cache.get? y = if y = z then kept r else w.cache.get? y := by
  cases r with
  | ok g => exact get?_settle _ z y (.ok g)
  | error e => exact get?_settle _ z y (.error e)

theorem Hosted.close_nextFunction (w : World) (z : String) (r : Ending Value) :
    (w.close z r).engine.nextFunction = w.engine.nextFunction := by
  cases r with
  | ok g =>
    change (w.engine.settle z g).nextFunction = _
    rw [Store.settle_nextFunction]
  | error e =>
    rw [close, settle_engine]

section
variable {ctx : Context} {fuel : Nat} {z : String} {w w' : World}

theorem load_of_zero (hz : w.cache.get? z = none) :
    load (fun m => execFile ctx 0 m m) z w = .error .outOfFuel (w.record z .pending) :=
  load_of_outOfFuel hz rfl

theorem load_of_run {r : Ending Value} (hz : w.cache.get? z = none)
    (h : (Course.ofModule ctx.library ctx.canLoad fuel z).run ctx (w.record z .pending) =
      answer r w') :
    load (fun m => execFile ctx (fuel + 1) m m) z w = answer r (w'.close z r) := by
  have hexec := execFile_succ ctx fuel z (w.record z .pending)
  rw [h] at hexec
  cases r with
  | ok g => exact load_of_answer hz hexec
  | error e => exact load_of_answer hz hexec

theorem load_of_run_outOfFuel (hz : w.cache.get? z = none)
    (h : (Course.ofModule ctx.library ctx.canLoad fuel z).run ctx (w.record z .pending) =
      .error .outOfFuel w') :
    load (fun m => execFile ctx (fuel + 1) m m) z w = .error .outOfFuel w' := by
  have hexec := execFile_succ ctx fuel z (w.record z .pending)
  rw [h] at hexec
  exact load_of_outOfFuel hz hexec

end

/-- The whole execution of `z` came to this. -/
abbrev Concluded (ctx : Context) (w : World) (B : FunRel) (z : String) (fuel : Nat)
    (r : Ending Value) (w' : World) (B' O' : FunRel) (k : Nat) : Prop :=
  Ran ctx (w.record z .pending) B ⊥ z 0 (.ofModule ctx.library true fuel z) r w' B' O' k

namespace Concluded

variable {ctx : Context} {w w' : World} {B B' O' : FunRel} {z : String} {k fuel : Nat}
  {r : Ending Value} {g : Globals Value}

/-- What comes of the execution agrees with the meaning. -/
theorem faithful (h : Concluded ctx w B z fuel r w' B' O' k) {w'' : World}
    (hw : w.pendings ⊆ w''.pendings) :
    Faithful ctx.library w'' (B' ⊔ O') z r ∨ Stopped ctx r := by
  rcases h.comes with ⟨d, s, hs, hcomes⟩ | hstop
  · refine .inl ?_
    cases hcomes with
    | ok hg => exact .ok ⟨d + 1, fuel, _, hs, .ended _⟩ hg
    | fail he => exact .plain ⟨d + 1, fuel, _, hs, .ended _⟩ he
    | asks hy =>
      cases hy with
      | plain hy he =>
        obtain ⟨d', hy⟩ := hy
        refine .plain ⟨max d d' + 1, fuel, _, ?_, .asks (hy.mono (Nat.le_max_right d d'))⟩ he
        exact hs.mono fun _ _ => Meaning.mono (Nat.le_max_left d d')
      | cycle hy =>
        refine .cycle (.onwards hs (hy.mono fun p hp => ?_))
        have hp' := h.grows.pending hp
        rw [Hosted.get?_record] at hp'
        split at hp'
        · rename_i hpz
          exact .inl hpz
        · exact .inr (hw hp')
  · exact .inr hstop

theorem get?_close_of_some (h : Concluded ctx w B z fuel r w' B' O' k)
    (hz : w.cache.get? z = none) {y : String} {e : Entry Value} (hy : w.cache.get? y = some e) :
    (w'.close z r).cache.get? y = some e := by
  rw [Hosted.get?_close, if_neg (Hosted.ne_of_known hz hy)]
  exact h.grows.entry (Hosted.get?_record_of_known hz .pending hy)

theorem pending_of_close (h : Concluded ctx w B z fuel r w' B' O' k)
    {y : String} (hy : (w'.close z r).cache.get? y = some .pending) :
    w.cache.get? y = some .pending := by
  rw [Hosted.get?_close] at hy
  split at hy
  · exact absurd hy (kept_ne_pending r)
  · rename_i hne
    have hy' := h.grows.pending hy
    rw [Hosted.get?_record, if_neg hne] at hy'
    exact hy'

theorem grows_close (h : Concluded ctx w B z fuel r w' B' O' k)
    (hz : w.cache.get? z = none) : Grows w B (w'.close z r) B' where
  entry := h.get?_close_of_some hz
  pending := h.pending_of_close
  next := by
    rw [Hosted.close_nextFunction]
    exact h.grows.next
  le := h.grows.le
  fresh := h.grows.fresh

theorem calm_close (h : Concluded ctx w B z fuel r w' B' O' k)
    (hr : ∀ y, r ≠ .error (.cycle y)) : Calm w (w'.close z r) := by
  intro y q hy
  rw [Hosted.get?_close] at hy
  split at hy
  · rcases r with (_ | _ | q' | _ | _) | g
    case error.cycle => exact absurd rfl (hr q')
    all_goals simp [kept] at hy
  · rename_i hne
    have hy' := h.calm hr y q hy
    rw [Hosted.get?_record, if_neg hne] at hy'
    exact hy'

/-- The entries of other modules stay faithful when the execution has ended. -/
theorem faithful_close (h : Concluded ctx w B z fuel r w' B' O' k)
    (hw : Sound ctx.library w B) (hz : w.cache.get? z = none) {y : String} {e : Entry Value}
    (hne : y ≠ z) (hy : w'.cache.get? y = some e) :
    Faithful ctx.library (w'.close z r) B' y (e.recall y) := by
  have hpendings : w.pendings ⊆ (w'.close z r).pendings := fun p hp =>
    h.get?_close_of_some hz hp
  have hfaithful := h.making.faithful hy
  rcases e with _ | g | e
  · refine .cycle (.again ?_)
    change (w'.close z r).cache.get? y = _
    rw [Hosted.get?_close, if_neg hne]
    exact hy
  · cases hfaithful with
    | ok hmeans hg => exact .ok hmeans hg
  · cases hfaithful with
    | plain hmeans he => exact .plain hmeans he
    | @cycle q hcycles =>
      by_cases hr : ∃ q', r = .error (.cycle q')
      · -- the execution itself leads back, so nothing else leads to it alone
        obtain ⟨q', rfl⟩ := hr
        rcases h.faithful hpendings with hself | ⟨hstop, -⟩
        · cases hself with
          | plain _ he => exact he.elim
          | cycle hself =>
            refine .cycle (hself.of_insert (hcycles.mono fun p hp => ?_))
            have hp' := h.grows.pending hp
            rw [Hosted.get?_record] at hp'
            split at hp'
            · rename_i hpz
              exact .inl hpz
            · exact .inr (hpendings hp')
        · exact nomatch hstop
      · have hy' := h.calm (fun q' hq' => hr ⟨q', hq'⟩) y q hy
        rw [Hosted.get?_record, if_neg hne] at hy'
        exact (hw.faithful hy').mono hpendings h.grows.le

/-- What was known to be loaded when the execution ended still is. -/
theorem loaded_close (h : Concluded ctx w B z fuel r w' B' O' k) {y : String} {u : Globals Value}
    (hy : w'.cache.get? y = some (.loaded u)) :
    (w'.close z r).cache.get? y = some (.loaded u) := by
  rw [Hosted.get?_close, if_neg (h.making.ne_of_loaded hy)]
  exact hy

/-- The functions of an execution that has failed are forgotten. -/
theorem sound_of_error {e : Error} (h : Concluded ctx w B z fuel (.error e) w' B' O' k)
    (hw : Sound ctx.library w B) (hz : w.cache.get? z = none) :
    Sound ctx.library (w'.close z (.error e)) B' := by
  have hback : ∀ {y u}, (w'.close z (.error e)).cache.get? y = some (.loaded u) →
      w'.cache.get? y = some (.loaded u) := by
    intro y u hy
    rw [Hosted.get?_close] at hy
    split at hy
    · exact nomatch eq_failed_of_kept hy
    · exact hy
  have hengine : (w'.close z (.error e)).engine = w'.engine := w'.settle_engine z (.error e)
  exact {
    renames := h.making.renames
    eq_of_id := h.making.eq_of_id
    lt := by
      rw [hengine]
      exact h.making.lt
    owner := by
      intro f f' hf
      obtain ⟨y, i, u, hcode, hu⟩ := h.making.owner hf
      exact ⟨y, i, u, hcode, h.loaded_close hu⟩
    file := by
      intro f f' hf
      obtain ⟨u, hu⟩ := h.making.file hf
      exact ⟨u, h.loaded_close hu⟩
    home := by
      rw [hengine]
      exact fun hf hu => h.making.home hf (hback hu)
    loose := by
      rw [hengine]
      exact fun hf hu => h.making.loose hf (hback hu)
    homeless := by
      rw [hengine]
      exact h.making.homeless
    faithful := by
      intro y e' hy
      by_cases hne : y = z
      · subst hne
        rw [Hosted.get?_close, if_pos rfl] at hy
        rcases h.faithful fun _ hp => h.get?_close_of_some hz hp with hself | ⟨hstop, -⟩
        · obtain rfl := eq_failed_of_kept hy
          exact hself.of_error
        · cases hstop
          exact nomatch hy
      · rw [Hosted.get?_close, if_neg hne] at hy
        exact h.faithful_close hw hz hne hy }

/-! An execution that has ended well leaves its functions behind. Those that its globals hold have
got a home, and all others are as they were. -/

theorem faithful_of_ok (h : Concluded ctx w B z fuel (.ok g) w' B' O' k) {w'' : World}
    (hw : w.pendings ⊆ w''.pendings) : Faithful ctx.library w'' (B' ⊔ O') z (.ok g) :=
  (h.faithful hw).resolve_right fun hstop => nomatch hstop.1

/-- The functions that the globals hold are known. -/
theorem held (h : Concluded ctx w B z fuel (.ok g) w' B' O' k) {f : Function} (hf : g.Holds f) :
    ∃ f', (B' ⊔ O') f f' := by
  cases h.faithful_of_ok (Set.Subset.refl w.pendings) with
  | ok _ hg =>
    obtain ⟨f', hf', -⟩ := hg.holds hf
    exact ⟨f', hf'⟩

/-- Only what is bound in the globals has got a home. -/
theorem home?_close (h : Concluded ctx w B z fuel (.ok g) w' B' O' k) {f f' : Function}
    (hf : (B' ⊔ O') f f') (hnot : f.file = z → ¬ g.Holds f) :
    (w'.close z (.ok g)).engine.home? f.id = w'.engine.home? f.id := by
  change (w'.engine.settle z g).home? f.id = _
  rw [Store.home?, Store.lookup_settle_of_ne]
  · rfl
  · intro f₀ hf₀ hfile hid
    obtain ⟨f₀', hf₀'⟩ := h.held hf₀
    obtain rfl := h.making.eq_of_id_sup hf₀' hf hid
    exact hnot hfile hf₀

theorem home?_close_of_holds (h : Concluded ctx w B z fuel (.ok g) w' B' O' k) {f f' : Function}
    (hf : O' f f') (hfile : f.file = z) (hholds : g.Holds f) :
    (w'.close z (.ok g)).engine.home? f.id = some g := by
  change (w'.engine.settle z g).home? f.id = _
  rw [Store.home?, Store.lookup_settle_of_holds hholds hfile (h.making.own_homeless hf)]
  rfl

theorem homeless_close (h : Concluded ctx w B z fuel (.ok g) w' B' O' k) {id : Nat}
    (hid : ∀ f f', (B' ⊔ O') f f' → f.id ≠ id) :
    (w'.close z (.ok g)).engine.homes.lookup id = none := by
  change (w'.engine.settle z g).homes.lookup id = none
  rw [Store.lookup_settle_of_ne]
  · exact h.making.homeless fun f f' hf => hid f f' (.inl hf)
  · intro f hf _
    obtain ⟨f', hf'⟩ := h.held hf
    exact hid f f' hf'

/-- A module that was loaded before holds no function of the execution. -/
theorem not_holds_of_own (h : Concluded ctx w B z fuel r w' B' O' k) {f f' : Function}
    (hf : O' f f') {y : String} {u : Globals Value} (hu : w'.cache.get? y = some (.loaded u)) :
    ¬ u.Holds f := by
  intro hholds
  obtain ⟨u', -, hrel⟩ := h.making.loaded hu
  obtain ⟨f₀', hf₀', -⟩ := hrel.holds hholds
  exact h.making.own_new hf hf₀' rfl

/-- The functions of an execution that has ended well have their home and are known. -/
theorem sound_of_ok (h : Concluded ctx w B z fuel (.ok g) w' B' O' k)
    (hw : Sound ctx.library w B) (hz : w.cache.get? z = none) :
    Sound ctx.library (w'.close z (.ok g)) (B' ⊔ O') := by
  have hself : (w'.close z (.ok g)).cache.get? z = some (.loaded g) :=
    (w'.get?_close z z (.ok g)).trans (if_pos rfl)
  have hback : ∀ {y e}, y ≠ z → (w'.close z (.ok g)).cache.get? y = some e →
      w'.cache.get? y = some e := by
    intro y e hne hy
    rw [Hosted.get?_close, if_neg hne] at hy
    exact hy
  have hne : ∀ {f f'}, B' f f' → f.file ≠ z := by
    intro f f' hf
    obtain ⟨u, hu⟩ := h.making.file hf
    exact h.making.ne_of_loaded hu
  exact {
    renames := h.making.renames_sup
    eq_of_id := h.making.eq_of_id_sup
    lt := by
      rw [Hosted.close_nextFunction]
      rintro f f' (hf | hf)
      · exact h.making.lt hf
      · exact h.making.own_lt hf
    owner := by
      rintro f f' (hf | hf)
      · obtain ⟨y, i, u, hcode, hu⟩ := h.making.owner hf
        exact ⟨y, i, u, hcode, h.loaded_close hu⟩
      · obtain ⟨i, -, hcode⟩ := h.making.own_code hf
        exact ⟨z, i, g, hcode, hself⟩
    file := by
      rintro f f' (hf | hf)
      · obtain ⟨u, hu⟩ := h.making.file hf
        exact ⟨u, h.loaded_close hu⟩
      · rcases h.making.own_file hf with hfile | ⟨u, hu⟩
        · exact ⟨g, hfile ▸ hself⟩
        · exact ⟨u, h.loaded_close hu⟩
    home := by
      rintro f f' u (hf | hf) hu hholds
      · rw [h.home?_close (.inl hf) fun hfile => absurd hfile (hne hf)]
        exact h.making.home hf (hback (hne hf) hu) hholds
      · by_cases hfile : f.file = z
        · rw [hfile] at hu
          cases hself.symm.trans hu
          exact h.home?_close_of_holds hf hfile hholds
        · exact absurd hholds (h.not_holds_of_own hf (hback hfile hu))
    loose := by
      rintro f f' u (hf | hf) hu hholds
      · rw [h.home?_close (.inl hf) fun hfile => absurd hfile (hne hf)]
        exact h.making.loose hf (hback (hne hf) hu) hholds
      · rw [h.home?_close (.inr hf), Store.home?, h.making.own_homeless hf]
        · rfl
        · intro hfile hholds'
          rw [hfile] at hu
          cases hself.symm.trans hu
          exact hholds hholds'
    homeless := h.homeless_close
    faithful := by
      intro y e hy
      by_cases hyz : y = z
      · subst hyz
        cases hself.symm.trans hy
        exact h.faithful_of_ok fun _ hp => h.get?_close_of_some hz hp
      · exact (h.faithful_close hw hz hyz (hback hyz hy)).mono (fun _ hp => hp) le_sup_left }

theorem served_of_error {e : Error} (h : Concluded ctx w B z fuel (.error e) w' B' O' k)
    (hw : Sound ctx.library w B) (hz : w.cache.get? z = none) :
    Served ctx w B z (.error e) (w'.close z (.error e)) B' where
  sound := h.sound_of_error hw hz
  grows := h.grows_close hz
  faithful := (h.faithful fun _ hp => h.get?_close_of_some hz hp).imp_left Faithful.of_error
  calm := h.calm_close

theorem served_of_ok (h : Concluded ctx w B z fuel (.ok g) w' B' O' k)
    (hw : Sound ctx.library w B) (hz : w.cache.get? z = none) :
    Served ctx w B z (.ok g) (w'.close z (.ok g)) (B' ⊔ O') where
  sound := h.sound_of_ok hw hz
  grows := by
    have hgrows := h.grows_close hz
    refine ⟨hgrows.entry, hgrows.pending, hgrows.next, hgrows.le.trans le_sup_left, ?_⟩
    rintro f f' (hf | hf)
    · exact hgrows.fresh hf
    · exact .inr ((h.own_fresh hf).resolve_left id)
  faithful := h.faithful fun _ hp => h.get?_close_of_some hz hp
  calm := h.calm_close

end Concluded

/-- Asking a sound loader for a module serves it, with any allowance. -/
theorem serves (ctx : Context) (hctx : ctx.canLoad = true) (fuel : Nat) : Serves ctx fuel := by
  induction fuel using Nat.strong_induction_on with
  | _ fuel ih =>
    intro w B z r w' hw hload
    cases hz : w.cache.get? z with
    | some e =>
      rw [load_of_some hz] at hload
      obtain ⟨rfl, rfl⟩ := answer_inj hload
      exact ⟨B, hw, .refl w B, .inl (hw.faithful hz), fun _ => .refl w⟩
    | none =>
      cases fuel with
      | zero =>
        exact absurd ((load_of_zero hz).symm.trans hload) (outOfFuel_ne_answer _ _ _)
      | succ fuel =>
        have hc : Rel id 0 fuel z Globals.Rel ⊥ (.ofModule ctx.library ctx.canLoad fuel z)
            (.ofModule ctx.library true fuel z) := by
          rw [hctx]
          exact rel_ofModule id ctx.library true le_rfl le_rfl z ⟨⟨nofun, nofun⟩, nofun⟩
        have hserves : ∀ j < fuel, Serves ctx j := fun j hj => ih j (by omega)
        rcases answer_or_outOfFuel ((Course.ofModule ctx.library ctx.canLoad fuel z).run ctx
            (w.record z .pending)) with ⟨r₁, w₁, hrun⟩ | ⟨w₁, hrun⟩
        · obtain ⟨B', O', k, hran⟩ := (Making.start hw hz).run hserves hc bot_le hrun
          obtain ⟨rfl, rfl⟩ := answer_inj ((load_of_run hz hrun).symm.trans hload)
          have hend : Concluded ctx w B z fuel r₁ w₁ B' O' k := hran
          cases r₁ with
          | ok g => exact ⟨B' ⊔ O', hend.served_of_ok hw hz⟩
          | error e => exact ⟨B', hend.served_of_error hw hz⟩
        · exact absurd ((load_of_run_outOfFuel hz hrun).symm.trans hload)
            (outOfFuel_ne_answer _ _ _)

end ScriptShell
