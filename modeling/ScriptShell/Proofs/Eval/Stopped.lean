import ScriptShell.Proofs.Eval.Assured
import ScriptShell.Proofs.Loader.Served

/-!
# ScriptShell.Proofs.Eval.Stopped

Evaluations that are stopped at a poll, next to the same evaluations left alone.

* `Context.free`: the context in which nothing is stopped.
* `assured_of_cancelled`: what is stopped at some poll ends, since whatever recurs polls.
* `Onward`, `Course.onward`: polls are counted, what the loader knew it keeps, and what it did not
  know is not left in suspense.
* `Cut`, `Course.cut`: an evaluation was left alone, or it was stopped at a poll and left alone it
  gets as far.
-/

namespace ScriptShell

/-- The same context, but nothing is stopped. -/
def Context.free (ctx : Context) : Context :=
  { ctx with cancelFrom := none }

/-- The first poll that is stopped is the one from which polls are. -/
theorem Context.cancelFrom_eq {ctx : Context} {n : Nat} (h : ctx.cancelledAt n = false)
    (h' : ctx.cancelledAt (n + 1) = true) : ctx.cancelFrom = some (n + 1) := by
  unfold cancelledAt at h h'
  cases hc : ctx.cancelFrom with
  | none =>
    rw [hc] at h'
    exact nomatch h'
  | some k =>
    simp only [hc, decide_eq_false_iff_not, decide_eq_true_eq] at h h'
    congr
    omega

/-! ## What is stopped ends -/

theorem Value.all_true (v : Value) : v.All fun _ => True := by
  cases v <;> trivial

theorem Globals.all_true (g : Globals Value) : g.All fun _ => True :=
  fun e _ => e.2.all_true

/-- If a poll does not stop the evaluation, one poll fewer is left. -/
theorem polls_left {ctx : Context} {k n : Nat} (hctx : ctx.cancelFrom = some k) {w w' : World}
    (hw : k ≤ w.engine.polls + n) (h : poll ctx w = .ok () w') :
    ∃ j < n, k ≤ w'.engine.polls + j := by
  obtain ⟨rfl, hnot⟩ := poll_ok h
  have hk : w.engine.polls + 1 < k := by
    simpa only [Context.cancelledAt, hctx, decide_eq_false_iff_not, not_le] using hnot
  refine ⟨n - 1, by omega, ?_⟩
  change k ≤ w.engine.polls + 1 + (n - 1)
  omega

/-- Calls, loads and passes of a loop poll, and only so many polls are left. -/
theorem assured_of_cancelled (ctx : Context) {k : Nat} (hctx : ctx.cancelFrom = some k) (n : Nat)
    (chain : CallChain) :
    Assured ctx (fun _ => True) True (fun w => k ≤ w.engine.polls + n) chain := by
  induction n using Nat.strong_induction_on generalizing chain with
  | _ n ih =>
    refine ⟨?_, fun _ _ hw _ => ⟨trivial, hw⟩, fun _ _ _ => Globals.all_true _, ?_, ?_, ?_⟩
    · intro w w' hw hp
      obtain ⟨j, hj, hw'⟩ := polls_left hctx hw hp
      omega
    · intro w w' f scope p hw hp _ _ hs
      obtain ⟨j, hj, hw'⟩ := polls_left hctx hw hp
      refine ((ih j hj (chain.enter p f)).execBlock _ (.inl trivial) hs hw').mono ?_
      exact fun flow m hm => ⟨hm.1, hm.2.1, by have := hm.2.2; omega⟩
    · intro w w' module hw hp
      obtain ⟨j, hj, hw'⟩ := polls_left hctx hw hp
      refine .loadModule (fun g _ => ⟨g.all_true, by omega⟩) fun _ text p _ _ => ?_
      refine ((ih j hj (.root module)).execBlock p (.inl trivial)
        (m := ⟨.ofGlobals .empty, w'.record module .pending⟩) (.ofGlobals .empty) hw').mono ?_
      intro flow m hm
      refine ⟨Globals.all_true _, ?_⟩
      have hpolls : (m.world.remember module m.scope.globals.freeze).engine.polls =
          m.world.engine.polls := m.world.engine.settle_polls module _
      have := hm.2.2
      omega
    · intro _ cond body hcond hbody scope w hs hw
      refine .succ ?_
      simp only [execLoop]
      refine (hcond hs hw).inScope.bind fun v m₁ hv => ?_
      have hm₁ : m₁.scope.All fun _ => True := hv.1 ▸ hs
      split
      · refine (hbody hm₁ hv.2.2).bind fun flow m₂ hm₂ => ?_
        cases flow with
        | return_ v => exact .of_ok (fun _ => rfl) hm₂
        | next =>
          refine (Terminates.poll (w := m₂.world) (Q := fun _ w => poll ctx m₂.world = .ok () w)
            fun _ h => h).onWorld.bind fun _ m₃ hp => ?_
          obtain ⟨hscope, hp⟩ := hp
          obtain ⟨j, hj, hm₃⟩ := polls_left hctx hm₂.2.2 hp
          -- the next pass is one with fewer polls left
          have hnext := ih j hj chain
          refine (hnext.loop trivial (fun hs hw => hnext.eval cond hs hw)
            (fun hs hw => hnext.execBlock body (.inl trivial) hs hw) (hscope ▸ hm₂.2.1) hm₃).mono ?_
          exact fun flow m hm => ⟨hm.1, hm.2.1, by have := hm.2.2; omega⟩
      · exact .of_ok (fun _ => rfl) ⟨trivial, hm₁, hv.2.2⟩

/-! ## The loads of a course -/

/-- The allowances that a course leaves for its loads are so. -/
inductive Course.Asks (P : Nat → Prop) {β : Type} : Course β → Prop where
  | value (b : β) : Asks P (.value b)
  | fail (e : Error) : Asks P (.fail e)
  | stuck : Asks P .stuck
  | poll {next : Course β} (h : Asks P next) : Asks P (.poll next)
  | new {d : Definition} {file : String} {next : Function → Course β}
      (h : ∀ id, Asks P (next ⟨id, d, file⟩)) : Asks P (.new d file next)
  | home {f : Function} {next : Option (Globals Value) → Course β} (h : ∀ o, Asks P (next o)) :
      Asks P (.home f next)
  | load {fuel : Nat} {m : String} {next : Globals Value → Course β} (hfuel : P fuel)
      (h : ∀ g, Asks P (next g)) : Asks P (.load fuel m next)

namespace Course

section
variable {β : Type} {P : Nat → Prop}

theorem Asks.any (c : Course β) : c.Asks fun _ => True := by
  induction c with
  | value b => exact .value b
  | fail e => exact .fail e
  | stuck => exact .stuck
  | poll _ ih => exact .poll ih
  | new _ _ _ ih => exact .new fun _ => ih _
  | home _ _ ih => exact .home ih
  | load _ _ _ ih => exact .load trivial ih

/-- A course that is like another one, with functions that stand for themselves. -/
theorem Rel.asks {γ : Type} {gap bound : Nat} {file₀ : String} {A : FunRel → β → γ → Prop}
    {R : FunRel} (hR : R = (· = ·)) {c : Course β} {c' : Course γ}
    (h : Rel id gap bound file₀ A R c c') : c.Asks (· < bound) := by
  induction h with
  | value _ => exact .value _
  | fail _ _ => exact .fail _
  | stuck => exact .stuck
  | poll _ ih => exact .poll (ih hR)
  | @new R d d' _ _ _ hd _ _ ih =>
    rw [d.mapPos_id, d'.mapPos_id] at hd
    subst hd hR
    exact .new fun id => ih _ id id le_rfl (renaming_eq _) rfl rfl
  | home _ _ ih =>
    subst hR
    exact .home fun o => ih _ o o le_rfl (renaming_eq id) (Globals.optionRel_refl o) rfl
  | load _ hbound _ ih =>
    subst hR
    exact .load hbound fun g => ih _ g g le_rfl (renaming_eq id) g.rel_refl rfl

/-- A module leaves less to its loads than it has. -/
theorem asks_ofModule (lib : Library) (canLoad : Bool) (fuel : Nat) (z : String) :
    (ofModule lib canLoad fuel z).Asks (· < fuel) := by
  have hfuel : fuel + 0 ≤ fuel := le_rfl
  exact (rel_ofModule id lib canLoad hfuel le_rfl z (renaming_eq id)).asks rfl

end

end Course

/-- What comes of a module when its execution has ended so. -/
def conclude (z : String) : EStateM.Result Halt World (Globals Value) →
    EStateM.Result Halt World (Globals Value)
  | .ok g w => .ok g (w.close z (.ok g))
  | .error (.failed e) w => .error (.failed e) (w.close z (.error e))
  | .error .outOfFuel w => .error .outOfFuel w

section
variable {ctx : Context} {z : String} {w : World}

theorem left_conclude_polls (z : String) (r : EStateM.Result Halt World (Globals Value)) :
    (left (conclude z r)).engine.polls = (left r).engine.polls := by
  rcases r with ⟨g, w⟩ | ⟨e | _, w⟩
  · exact w.engine.settle_polls z g
  · change (w.settle z (.error e)).engine.polls = _
    rw [Hosted.settle_engine]
    rfl
  · rfl

theorem load_of_none {fuel : Nat} (hz : w.cache.get? z = none) :
    load (fun m => execFile ctx (fuel + 1) m m) z w =
      conclude z
        ((Course.ofModule ctx.library ctx.canLoad fuel z).run ctx (w.record z .pending)) := by
  rcases answer_or_outOfFuel ((Course.ofModule ctx.library ctx.canLoad fuel z).run ctx
    (w.record z .pending)) with ⟨r, w', hrun⟩ | ⟨w', hrun⟩
  · rw [load_of_run hz hrun, hrun]
    cases r <;> rfl
  · rw [load_of_run_outOfFuel hz hrun, hrun]
    rfl

end

/-! ## What every evaluation does to the shared state -/

/-- Polls are counted. What the loader knew it knows, and what it did not know it may know now,
but it neither waits for it nor remembers that it was stopped. -/
structure Keeps (w w' : World) : Prop where
  polls : w.engine.polls ≤ w'.engine.polls
  entry : ∀ {m e}, w.cache.get? m = some e → w'.cache.get? m = some e
  absent : ∀ {m e}, w.cache.get? m = none → w'.cache.get? m = some e →
    e ≠ .pending ∧ e ≠ .failed .cancelled

namespace Keeps

variable {w w' w'' : World}

theorem refl (w : World) : Keeps w w :=
  ⟨le_rfl, id, fun h h' => nomatch h.symm.trans h'⟩

theorem trans (h : Keeps w w') (h' : Keeps w' w'') : Keeps w w'' where
  polls := h.polls.trans h'.polls
  entry hm := h'.entry (h.entry hm)
  absent := by
    intro m e hm he
    cases hm' : w'.cache.get? m with
    | none => exact h'.absent hm' he
    | some e' =>
      cases (h'.entry hm').symm.trans he
      exact h.absent hm hm'

/-- The execution of a module that was not known, seen by one who has asked for it. -/
theorem close {z : String} {r : Ending Value} (h : Keeps (w.record z .pending) w')
    (hz : w.cache.get? z = none) (hpolls : (w'.close z r).engine.polls = w'.engine.polls) :
    Keeps w (w'.close z r) where
  polls := hpolls ▸ h.polls
  entry := by
    intro m e hm
    rw [Hosted.get?_close, if_neg (Hosted.ne_of_known hz hm)]
    exact h.entry (Hosted.get?_record_of_known hz .pending hm)
  absent := by
    intro m e hm he
    rw [Hosted.get?_close] at he
    split at he
    · refine ⟨fun hpending => kept_ne_pending r (hpending ▸ he), ?_⟩
      rintro rfl
      rcases r with (_ | _ | _ | _ | _) | g <;> simp [kept] at he
    · rename_i hne
      refine h.absent ?_ he
      rw [Hosted.get?_record, if_neg hne]
      exact hm

end Keeps

/-- What an evaluation that began in a state may come to. -/
inductive Onward {β : Type} (w : World) : EStateM.Result Halt World β → Prop where
  | ok {b : β} {w' : World} (h : Keeps w w') : Onward w (.ok b w')
  | failed {e : Error} {w' : World} (h : Keeps w w') : Onward w (.error (.failed e) w')
  | outOfFuel {w' : World} (h : w.engine.polls ≤ w'.engine.polls) :
      Onward w (.error .outOfFuel w')

namespace Onward

variable {β : Type} {w w' : World} {r : EStateM.Result Halt World β}

theorem after (h : Keeps w w') (hr : Onward w' r) : Onward w r := by
  cases hr with
  | ok hr => exact .ok (h.trans hr)
  | failed hr => exact .failed (h.trans hr)
  | outOfFuel hr => exact .outOfFuel (h.polls.trans hr)

theorem polls_le (h : Onward w r) : w.engine.polls ≤ (left r).engine.polls := by
  cases h with
  | ok h => exact h.polls
  | failed h => exact h.polls
  | outOfFuel h => exact h

theorem keeps {r : Except Error β} (h : Onward w (answer r w')) : Keeps w w' := by
  cases r with
  | ok b =>
    cases h with
    | ok h => exact h
  | error e =>
    cases h with
    | failed h => exact h

theorem conclude {z : String} {r : EStateM.Result Halt World (Globals Value)}
    (hz : w.cache.get? z = none) (h : Onward (w.record z .pending) r) :
    Onward w (ScriptShell.conclude z r) := by
  have hpolls := left_conclude_polls z r
  cases h with
  | ok h => exact .ok (h.close hz hpolls)
  | failed h => exact .failed (h.close hz hpolls)
  | outOfFuel h => exact .outOfFuel h

end Onward

namespace Course

variable {β : Type} {ctx : Context} {P : Nat → Prop}

theorem Asks.onward {c : Course β} (hc : c.Asks P)
    (hload : ∀ fuel, P fuel → ∀ z w,
      Onward w (ScriptShell.load (fun m => execFile ctx fuel m m) z w))
    (w : World) : Onward w (c.run ctx w) := by
  induction hc generalizing w with
  | value b => exact .ok (.refl w)
  | fail e => exact .failed (.refl w)
  | stuck => exact .outOfFuel le_rfl
  | poll _ ih =>
    have hpoll : Keeps w (w.polled (w.engine.polls + 1)) :=
      ⟨Nat.le_succ _, id, fun h h' => nomatch h.symm.trans h'⟩
    by_cases hcancel : ctx.cancelledAt (w.engine.polls + 1) = true
    · rw [run_poll_of_cancelled hcancel]
      exact .failed hpoll
    · rw [run_poll_of_not hcancel]
      exact (ih _).after hpoll
  | new _ ih =>
    refine Onward.after ?_ (ih w.engine.nextFunction _)
    exact ⟨le_rfl, id, fun h h' => nomatch h.symm.trans h'⟩
  | home _ ih => exact ih _ w
  | @load fuel z next hfuel _ ih =>
    have hserved := hload fuel hfuel z w
    cases hr : ScriptShell.load (fun m => execFile ctx fuel m m) z w with
    | ok g w' =>
      rw [run_load_of_ok hr]
      rw [hr] at hserved
      exact (ih g w').after (hserved.keeps (r := .ok g))
    | error e w' =>
      rw [run_load_of_error hr]
      rw [hr] at hserved
      cases hserved with
      | failed h => exact .failed h
      | outOfFuel h => exact .outOfFuel h

end Course

/-- Asking for a module does so, with any allowance. -/
theorem onward_load (ctx : Context) (fuel : Nat) (z : String) (w : World) :
    Onward w (load (fun m => execFile ctx fuel m m) z w) := by
  induction fuel using Nat.strong_induction_on generalizing z w with
  | _ fuel ih =>
    cases hz : w.cache.get? z with
    | some e =>
      rw [load_of_some hz]
      cases e with
      | loaded g => exact .ok (.refl w)
      | pending | failed e => exact .failed (.refl w)
    | none =>
      cases fuel with
      | zero =>
        rw [load_of_zero hz]
        exact .outOfFuel le_rfl
      | succ fuel =>
        rw [load_of_none hz]
        refine Onward.conclude hz ?_
        refine (Course.asks_ofModule ctx.library ctx.canLoad fuel z).onward ?_ _
        exact fun j hj => ih j (Nat.lt_succ_of_lt hj)

/-- Every evaluation does so. -/
theorem Course.onward {β : Type} (c : Course β) (ctx : Context) (w : World) :
    Onward w (c.run ctx w) :=
  (Asks.any c).onward (fun fuel _ => onward_load ctx fuel) w

/-! ## Stopped and left alone -/

/-- What an evaluation came to, and what the same evaluation came to when it was left alone: the
same, if it was never stopped, or else it was stopped at the first poll that it could be. -/
inductive Cut (ctx : Context) {β : Type} : EStateM.Result Halt World β →
    EStateM.Result Halt World β → Prop where
  | same {r : EStateM.Result Halt World β} (h : ctx.cancelledAt (left r).engine.polls = false) :
      Cut ctx r r
  | stopped {w : World} {r : EStateM.Result Halt World β}
      (h : ctx.cancelFrom = some w.engine.polls) (hr : w.engine.polls ≤ (left r).engine.polls) :
      Cut ctx (.error (.failed .cancelled) w) r

theorem Cut.conclude {ctx : Context} {z : String} {r r' : EStateM.Result Halt World (Globals Value)}
    (h : Cut ctx r r') : Cut ctx (ScriptShell.conclude z r) (ScriptShell.conclude z r') := by
  cases h with
  | same h =>
    refine .same ?_
    rw [left_conclude_polls]
    exact h
  | @stopped w r h hr =>
    have hpolls : (w.close z (.error .cancelled)).engine.polls = w.engine.polls :=
      left_conclude_polls z (.error (.failed .cancelled) w)
    refine .stopped (hpolls ▸ h) ?_
    rw [left_conclude_polls, hpolls]
    exact hr

namespace Course

variable {β : Type} {ctx : Context} {P : Nat → Prop}

theorem Asks.cut {c : Course β} (hc : c.Asks P)
    (hload : ∀ fuel, P fuel → ∀ z w, ctx.cancelledAt w.engine.polls = false →
      Cut ctx (ScriptShell.load (fun m => execFile ctx fuel m m) z w)
        (ScriptShell.load (fun m => execFile ctx.free fuel m m) z w))
    {w : World} (hw : ctx.cancelledAt w.engine.polls = false) :
    Cut ctx (c.run ctx w) (c.run ctx.free w) := by
  induction hc generalizing w with
  | value _ | fail _ | stuck => exact .same hw
  | @poll next _ ih =>
    have hfree : ¬ ctx.free.cancelledAt (w.engine.polls + 1) = true := Bool.false_ne_true
    rw [run_poll_of_not hfree]
    by_cases hcancel : ctx.cancelledAt (w.engine.polls + 1) = true
    · rw [run_poll_of_cancelled hcancel]
      exact .stopped (ctx.cancelFrom_eq hw hcancel) (next.onward ctx.free _).polls_le
    · rw [run_poll_of_not hcancel]
      exact ih (Bool.eq_false_iff.2 hcancel)
  | new _ ih => exact ih w.engine.nextFunction hw
  | home _ ih => exact ih _ hw
  | @load fuel z next hfuel _ ih =>
    have hserved := hload fuel hfuel z w hw
    generalize hr : ScriptShell.load (fun m => execFile ctx fuel m m) z w = r at hserved
    generalize hr' : ScriptShell.load (fun m => execFile ctx.free fuel m m) z w = r' at hserved
    cases hserved with
    | same h =>
      cases r with
      | ok g w' =>
        rw [run_load_of_ok hr, run_load_of_ok hr']
        exact ih g h
      | error e w' =>
        rw [run_load_of_error hr, run_load_of_error hr']
        exact .same h
    | stopped h hle =>
      rw [run_load_of_error hr]
      cases r' with
      | ok g w' =>
        rw [run_load_of_ok hr']
        exact .stopped h (hle.trans ((next g).onward ctx.free w').polls_le)
      | error e w' =>
        rw [run_load_of_error hr']
        exact .stopped h hle

end Course

theorem cut_load (ctx : Context) (fuel : Nat) (z : String) (w : World)
    (hw : ctx.cancelledAt w.engine.polls = false) :
    Cut ctx (load (fun m => execFile ctx fuel m m) z w)
      (load (fun m => execFile ctx.free fuel m m) z w) := by
  induction fuel using Nat.strong_induction_on generalizing z w with
  | _ fuel ih =>
    cases hz : w.cache.get? z with
    | some e =>
      rw [load_of_some hz, load_of_some hz]
      refine .same ?_
      rw [left_answer]
      exact hw
    | none =>
      cases fuel with
      | zero =>
        rw [load_of_zero hz, load_of_zero hz]
        exact .same hw
      | succ fuel =>
        rw [load_of_none hz, load_of_none hz]
        have hw' : ctx.cancelledAt (w.record z .pending).engine.polls = false := hw
        refine Cut.conclude ?_
        refine (Course.asks_ofModule ctx.library ctx.canLoad fuel z).cut ?_ hw'
        exact fun j hj => ih j (Nat.lt_succ_of_lt hj)

/-- Every evaluation was left alone or stopped at the first poll that it could be. -/
theorem Course.cut {β : Type} (c : Course β) {ctx : Context} {w : World}
    (hw : ctx.cancelledAt w.engine.polls = false) : Cut ctx (c.run ctx w) (c.run ctx.free w) :=
  (Asks.any c).cut (fun fuel _ => cut_load ctx fuel) hw

end ScriptShell
