import Mathlib
import ScriptShell.Proofs.Loader.Task

/-!
# ScriptShell.Proofs.Loader.Discipline

What a loader does whatever its engine does: `load` enters itself again through the engine, between
the moment it notes a module as pending and the moment it notes what came of it.

* `Effect`: what a stretch of an execution does to the loader.
* `Consistent`: the loader agrees with the executions of its whole life so far.
* `Life`: the states of a loader that began empty.
* `load_disciplined`: the main theorem.
-/

namespace ScriptShell

variable {α σ β : Type}

/-- What a loader answers when it knows something of the module. -/
def Entry.recall (m : String) : Entry α → Ending α
  | .pending => .error (.cycle m)
  | .loaded g => .ok g
  | .failed e => .error e

/-- What a loader keeps of an execution. -/
def kept : Ending α → Option (Entry α)
  | .ok g => some (.loaded g)
  | .error .cancelled => none
  | .error e => some (.failed e)

def Hosted.settle (s : Hosted α σ) (m : String) (r : Ending α) : Hosted α σ :=
  match kept r with
  | some e => s.record m e
  | none => s.forget m

theorem Hosted.get?_settle (s : Hosted α σ) (m k : String) (r : Ending α) :
    (s.settle m r).cache.get? k = if k = m then kept r else s.cache.get? k := by
  unfold Hosted.settle
  cases h : kept r with
  | none => exact s.get?_forget m k
  | some e => exact s.get?_record m k e

@[simp] theorem Hosted.settle_engine (s : Hosted α σ) (m : String) (r : Ending α) :
    (s.settle m r).engine = s.engine := by
  unfold Hosted.settle
  cases kept r <;> rfl

theorem kept_ne_pending (r : Ending α) : kept r ≠ some .pending := by
  rcases r with (_ | _ | _ | _ | _) | g <;> simp [kept]

theorem eq_failed_of_kept {e : Error} {e' : Entry α}
    (h : kept (.error e : Ending α) = some e') : e' = .failed e := by
  cases e <;> simp_all [kept]

/-! ## One request -/

section
variable {exec : String → HostM α σ (Globals α)} {m : String} {s s' : Hosted α σ}

theorem load_of_some {e : Entry α} (h : s.cache.get? m = some e) :
    load exec m s = answer (e.recall m) s := by
  rw [load, h]
  cases e <;> rfl

theorem load_of_answer {r : Ending α} (h : s.cache.get? m = none)
    (hexec : exec m (s.record m .pending) = answer r s') :
    load exec m s = answer r (s'.settle m r) := by
  rw [load, h]
  simp only [hexec]
  rcases r with (_ | _ | _ | _ | _) | g <;> rfl

theorem load_of_outOfFuel (h : s.cache.get? m = none)
    (hexec : exec m (s.record m .pending) = .error .outOfFuel s') :
    load exec m s = .error .outOfFuel s' := by
  rw [load, h]
  simp only [hexec]

end

section
variable {exec : String → HostM α (Watched α σ) (Globals α)} {m : String}
  {s s' : Hosted α (Watched α σ)} {next : Ending α → Task α σ}

theorem Task.run_ask_of_answer {r : Ending α}
    (h : load exec m (s.note (.moment s.cache)) = answer r s') :
    (Task.ask m next).run exec s = (next r).run exec s' := by
  rw [Task.run]
  simp only [h]
  cases r <;> rfl

theorem Task.run_ask_of_outOfFuel
    (h : load exec m (s.note (.moment s.cache)) = .error .outOfFuel s') :
    (Task.ask m next).run exec s = .error .outOfFuel s' := by
  rw [Task.run]
  simp only [h]

variable {engine : String → Task α σ} {fuel : Nat}

theorem conduct_of_answer {r : Ending α}
    (h : (engine m).run (conduct engine fuel) (s.note (.began m)) = answer r s') :
    conduct engine (fuel + 1) m s = answer r (s'.note (.ended m r)) := by
  rw [conduct]
  simp only [h]
  cases r <;> rfl

theorem conduct_of_outOfFuel
    (h : (engine m).run (conduct engine fuel) (s.note (.began m)) = .error .outOfFuel s') :
    conduct engine (fuel + 1) m s = .error .outOfFuel s' := by
  rw [conduct]
  simp only [h]

end

/-! ## What a stretch of an execution does -/

/-- A stretch of an execution that asked for modules and saw each of these requests answered. -/
structure Effect (s : Hosted α (Watched α σ)) (es : List (Event α))
    (s' : Hosted α (Watched α σ)) : Prop where
  log_eq : s'.engine.log = s.engine.log ++ es
  kept_entry : ∀ k e, s.cache.get? k = some e → s'.cache.get? k = some e
  no_new_pending : ∀ k, s.cache.get? k = none → s'.cache.get? k ≠ some .pending
  only_absent : ∀ k e, s.cache.get? k = some e → ∀ x ∈ es, x.module? ≠ some k
  balanced : ∀ chain, unfinished chain es = chain
  pending_is_chain : ∀ chain, (∀ k, s.cache.get? k = some .pending ↔ k ∈ chain) →
    PendingIsChain chain es

namespace Effect

variable {s s' s'' : Hosted α (Watched α σ)} {es es' : List (Event α)}

theorem refl (s : Hosted α (Watched α σ)) : Effect s [] s where
  log_eq := by rw [List.append_nil]
  kept_entry := fun _ _ h => h
  no_new_pending := fun _ h => by rw [h]; exact nofun
  only_absent := fun _ _ _ _ h => nomatch h
  balanced := fun _ => rfl
  pending_is_chain := fun _ _ => trivial

theorem pending_iff (h : Effect s es s') (k : String) :
    s'.cache.get? k = some .pending ↔ s.cache.get? k = some .pending := by
  constructor
  · intro hp
    cases hk : s.cache.get? k with
    | none => exact absurd hp (h.no_new_pending k hk)
    | some e => rw [← hp, h.kept_entry k e hk]
  · exact h.kept_entry k .pending

theorem trans (h : Effect s es s') (h' : Effect s' es' s'') : Effect s (es ++ es') s'' where
  log_eq := by rw [h'.log_eq, h.log_eq, List.append_assoc]
  kept_entry := fun k e hk => h'.kept_entry k e (h.kept_entry k e hk)
  no_new_pending := by
    intro k hk hp
    exact h.no_new_pending k hk ((h'.pending_iff k).1 hp)
  only_absent := by
    intro k e hk x hx
    rcases List.mem_append.1 hx with hx | hx
    · exact h.only_absent k e hk x hx
    · exact h'.only_absent k e (h.kept_entry k e hk) x hx
  balanced := by
    intro chain
    rw [unfinished_append, h.balanced, h'.balanced]
  pending_is_chain := by
    intro chain hc
    rw [pendingIsChain_append, h.balanced]
    exact ⟨h.pending_is_chain chain hc,
      h'.pending_is_chain chain (fun k => (h.pending_iff k).trans (hc k))⟩

theorem moment (s : Hosted α (Watched α σ)) :
    Effect s [.moment s.cache] (s.note (.moment s.cache)) where
  log_eq := rfl
  kept_entry := fun _ _ h => h
  no_new_pending := fun _ h => by rw [Hosted.note_cache, h]; exact nofun
  only_absent := by
    intro k e _ x hx
    rw [List.mem_singleton.1 hx]
    exact nofun
  balanced := fun _ => rfl
  pending_is_chain := fun _ hc => ⟨hc, trivial⟩

theorem act (h : Effect s es s') (step : σ → σ) : Effect s es (s'.act step) :=
  ⟨h.log_eq, h.kept_entry, h.no_new_pending, h.only_absent, h.balanced, h.pending_is_chain⟩

/-- An execution from the beginning to the end, seen from outside the request that caused it. -/
theorem request {m : String} (r : Ending α) (hm : s.cache.get? m = none)
    (h : Effect ((s.record m .pending).note (.began m)) es s') :
    Effect s (.began m :: es ++ [.ended m r]) ((s'.note (.ended m r)).settle m r) := by
  have hget : ∀ k, k ≠ m →
      ((s.record m .pending).note (.began m)).cache.get? k = s.cache.get? k := by
    intro k hk
    rw [Hosted.note_cache, Hosted.get?_record, if_neg hk]
  have hne : ∀ k e, s.cache.get? k = some e → k ≠ m := by
    intro k e hk hkm
    rw [hkm, hm] at hk
    exact nomatch hk
  exact {
    log_eq := by
      rw [Hosted.settle_engine, Hosted.note_log, h.log_eq, Hosted.note_log, Hosted.record_engine]
      simp only [List.append_assoc, List.cons_append, List.nil_append]
    kept_entry := by
      intro k e hk
      rw [Hosted.get?_settle, if_neg (hne k e hk), Hosted.note_cache]
      exact h.kept_entry k e ((hget k (hne k e hk)).trans hk)
    no_new_pending := by
      intro k hk
      rw [Hosted.get?_settle]
      by_cases hkm : k = m
      · rw [if_pos hkm]
        exact kept_ne_pending r
      · rw [if_neg hkm, Hosted.note_cache]
        exact h.no_new_pending k ((hget k hkm).trans hk)
    only_absent := by
      intro k e hk x hx
      have hmk : some m ≠ some k := fun h => hne k e hk (Option.some.inj h).symm
      rcases List.mem_append.1 hx with hx | hx
      · rcases List.mem_cons.1 hx with hx | hx
        · rw [hx]
          exact hmk
        · exact h.only_absent k e ((hget k (hne k e hk)).trans hk) x hx
      · rw [List.mem_singleton.1 hx]
        exact hmk
    balanced := by
      intro chain
      rw [unfinished_append]
      simp only [unfinished, h.balanced, List.tail_cons]
    pending_is_chain := by
      intro chain hc
      rw [pendingIsChain_append]
      refine ⟨h.pending_is_chain (m :: chain) fun k => ?_, trivial⟩
      rw [Hosted.note_cache, Hosted.get?_record, List.mem_cons]
      by_cases hkm : k = m
      · simp [hkm]
      · simp [hkm, hc] }

end Effect

/-- An engine's execution of a module begins, has an effect on the loader and ends. -/
def Orderly (exec : String → HostM α (Watched α σ) (Globals α)) : Prop :=
  ∀ m s r s', Returns (exec m) s r s' →
    ∃ es s₁, Effect (s.note (.began m)) es s₁ ∧ s' = s₁.note (.ended m r)

section
variable {exec : String → HostM α (Watched α σ) (Globals α)} {s s' : Hosted α (Watched α σ)}
  {r : Ending α}

/-- A request executes the module if the loader knows nothing of it, and nothing otherwise. -/
theorem Orderly.request_cases (hexec : Orderly exec) {m : String}
    (h : Returns (load exec m) s r s') :
    (∃ e, s.cache.get? m = some e ∧ r = e.recall m ∧ s' = s) ∨
    (s.cache.get? m = none ∧ ∃ es s₁, Effect ((s.record m .pending).note (.began m)) es s₁ ∧
      s' = (s₁.note (.ended m r)).settle m r) := by
  cases hm : s.cache.get? m with
  | some e =>
    rw [Returns, load_of_some hm] at h
    obtain ⟨hr, hs⟩ := answer_inj h
    exact .inl ⟨e, rfl, hr.symm, hs.symm⟩
  | none =>
    rcases answer_or_outOfFuel (exec m (s.record m .pending)) with ⟨r', s₂, hr⟩ | ⟨s₂, hr⟩
    · rw [Returns, load_of_answer hm hr] at h
      obtain ⟨rfl, rfl⟩ := answer_inj h
      obtain ⟨es, s₁, hes, rfl⟩ := hexec m _ r' s₂ hr
      exact .inr ⟨rfl, es, s₁, hes, rfl⟩
    · rw [Returns, load_of_outOfFuel hm hr] at h
      exact absurd h (outOfFuel_ne_answer s₂ s' r)

theorem Orderly.effect_of_load (hexec : Orderly exec) {m : String}
    (h : Returns (load exec m) s r s') : ∃ es, Effect s es s' := by
  rcases hexec.request_cases h with ⟨e, -, -, rfl⟩ | ⟨hm, es, s₁, hes, rfl⟩
  · exact ⟨[], .refl s'⟩
  · exact ⟨_, hes.request r hm⟩

theorem Orderly.effect_of_run (hexec : Orderly exec) (t : Task α σ)
    (h : Returns (t.run exec) s r s') : ∃ es, Effect s es s' := by
  induction t generalizing s with
  | done r' =>
    obtain ⟨-, rfl⟩ := answer_inj h
    exact ⟨_, .moment s⟩
  | act step next ih =>
    obtain ⟨es, hes⟩ := ih _ h
    exact ⟨_, ((Effect.moment s).act step).trans hes⟩
  | ask m next ih =>
    rcases answer_or_outOfFuel (load exec m (s.note (.moment s.cache))) with
      ⟨r', s₁, hl⟩ | ⟨s₁, hl⟩
    · obtain ⟨es, hes⟩ := hexec.effect_of_load hl
      rw [Returns, Task.run_ask_of_answer hl] at h
      obtain ⟨es', hes'⟩ := ih r' h
      exact ⟨_, ((Effect.moment s).trans hes).trans hes'⟩
    · rw [Returns, Task.run_ask_of_outOfFuel hl] at h
      exact absurd h (outOfFuel_ne_answer s₁ s' r)

end

theorem orderly_conduct (engine : String → Task α σ) (fuel : Nat) :
    Orderly (conduct engine fuel) := by
  induction fuel with
  | zero =>
    intro m s r s' h
    exact absurd h (outOfFuel_ne_answer _ s' r)
  | succ fuel ih =>
    intro m s r s' h
    rcases answer_or_outOfFuel ((engine m).run (conduct engine fuel) (s.note (.began m))) with
      ⟨r', s₁, hr⟩ | ⟨s₁, hr⟩
    · rw [Returns, conduct_of_answer hr] at h
      obtain ⟨rfl, rfl⟩ := answer_inj h
      obtain ⟨es, hes⟩ := ih.effect_of_run (engine m) hr
      exact ⟨es, s₁, hes, rfl⟩
    · rw [Returns, conduct_of_outOfFuel hr] at h
      exact absurd h (outOfFuel_ne_answer s₁ s' r)

/-! ## The whole life of a loader -/

def Entry.ending : Entry α → Option (Ending α)
  | .pending => none
  | .loaded g => some (.ok g)
  | .failed e => some (.error e)

def AllCancelled (xs : List (Option (Ending α))) : Prop :=
  ∀ x ∈ xs, x = some (.error .cancelled)

/-- The executions of a module agree with what the loader knows of it: all were cancelled, but for
the last one if the loader knows anything. -/
def History (xs : List (Option (Ending α))) : Option (Entry α) → Prop
  | none => AllCancelled xs
  | some e => ∃ ys, xs = ys ++ [e.ending] ∧ AllCancelled ys

def Consistent (s : Hosted α (Watched α σ)) : Prop :=
  ∀ k, History (executions k s.engine.log) (s.cache.get? k)

/-- The states of a loader that began empty. Between two requests the engine may change, and a
request may be left unfinished. -/
inductive Life : Hosted α (Watched α σ) → Prop where
  | fresh (e : σ) : Life ⟨.empty, ⟨e, []⟩⟩
  | between {s : Hosted α (Watched α σ)} (step : σ → σ) : Life s → Life (s.act step)
  | request {s : Hosted α (Watched α σ)} (engine : String → Task α σ) (fuel : Nat) (m : String) :
      Life s → Life (left (load (conduct engine fuel) m s))

theorem History.dropLast {xs : List (Option (Ending α))} {e : Option (Entry α)}
    (h : History xs e) : AllCancelled xs.dropLast := by
  cases e with
  | none => exact fun x hx => h x (List.dropLast_subset xs hx)
  | some e =>
    obtain ⟨ys, rfl, hys⟩ := h
    rw [List.dropLast_concat]
    exact hys

/-- The last execution ends. -/
theorem History.settle {xs : List (Option (Ending α))} (h : History xs (some .pending))
    (r : Ending α) : History (xs.dropLast ++ [some r]) (kept r) := by
  obtain ⟨ys, rfl, hys⟩ := h
  rw [List.dropLast_concat]
  rcases r with (_ | _ | _ | _ | _) | g
  case error.cancelled =>
    intro x hx
    rcases List.mem_append.1 hx with hx | hx
    · exact hys x hx
    · exact List.mem_singleton.1 hx
  all_goals exact ⟨ys, rfl, hys⟩

namespace Consistent

variable {s s' : Hosted α (Watched α σ)}

theorem fresh (e : σ) : Consistent (⟨.empty, ⟨e, []⟩⟩ : Hosted α (Watched α σ)) :=
  fun _ _ hx => nomatch hx

theorem moment (h : Consistent s) : Consistent (s.note (.moment s.cache)) := by
  intro k
  rw [Hosted.note_log, executions_concat_moment]
  exact h k

theorem began (h : Consistent s) {m : String} (hm : s.cache.get? m = none) :
    Consistent ((s.record m .pending).note (.began m)) := by
  intro k
  rw [Hosted.note_log, executions_concat_began, Hosted.note_cache, Hosted.get?_record,
    Hosted.record_engine]
  by_cases hk : m = k
  · subst hk
    have hall := h m
    rw [hm] at hall
    rw [if_pos rfl, if_pos rfl]
    exact ⟨_, rfl, hall⟩
  · rw [if_neg hk, if_neg (Ne.symm hk)]
    exact h k

theorem ended (h : Consistent s) {m : String} (hm : s.cache.get? m = some .pending)
    (r : Ending α) : Consistent ((s.note (.ended m r)).settle m r) := by
  intro k
  rw [Hosted.settle_engine, Hosted.note_log, executions_concat_ended, Hosted.get?_settle,
    Hosted.note_cache]
  by_cases hk : m = k
  · subst hk
    have hall := h m
    rw [hm] at hall
    rw [if_pos rfl, if_pos rfl]
    exact hall.settle r
  · rw [if_neg hk, if_neg (Ne.symm hk)]
    exact h k

variable {exec : String → HostM α (Watched α σ) (Globals α)}

theorem run (hload : ∀ m s, Consistent s → Consistent (left (load exec m s))) (t : Task α σ)
    (h : Consistent s) : Consistent (left (t.run exec s)) := by
  induction t generalizing s with
  | done r =>
    rw [Task.run, left_answer]
    exact h.moment
  | act step next ih => exact ih _ h.moment
  | ask m next ih =>
    have hs := hload m _ h.moment
    rcases answer_or_outOfFuel (load exec m (s.note (.moment s.cache))) with
      ⟨r, s₁, hl⟩ | ⟨s₁, hl⟩
    · rw [hl, left_answer] at hs
      rw [Task.run_ask_of_answer hl]
      exact ih r hs
    · rw [hl] at hs
      rw [Task.run_ask_of_outOfFuel hl]
      exact hs

theorem load (engine : String → Task α σ) (fuel : Nat) (m : String)
    (s : Hosted α (Watched α σ)) (h : Consistent s) :
    Consistent (left (ScriptShell.load (conduct engine fuel) m s)) := by
  induction fuel generalizing m s with
  | zero =>
    cases hm : s.cache.get? m with
    | some e =>
      rw [load_of_some hm, left_answer]
      exact h
    | none =>
      rw [load_of_outOfFuel hm rfl]
      exact h.began hm
  | succ fuel ih =>
    cases hm : s.cache.get? m with
    | some e =>
      rw [load_of_some hm, left_answer]
      exact h
    | none =>
      have hs := (h.began hm).run ih (engine m)
      rcases answer_or_outOfFuel
          ((engine m).run (conduct engine fuel) ((s.record m .pending).note (.began m))) with
        ⟨r, s₁, hr⟩ | ⟨s₁, hr⟩
      · rw [hr, left_answer] at hs
        rw [load_of_answer hm (conduct_of_answer hr), left_answer]
        obtain ⟨es, hes⟩ := (orderly_conduct engine fuel).effect_of_run (engine m) hr
        refine hs.ended (hes.kept_entry m .pending ?_) r
        rw [Hosted.note_cache, Hosted.get?_record, if_pos rfl]
      · rw [hr] at hs
        rw [load_of_outOfFuel hm (conduct_of_outOfFuel hr)]
        exact hs

end Consistent

theorem Life.consistent {s : Hosted α (Watched α σ)} (h : Life s) : Consistent s := by
  induction h with
  | fresh e => exact .fresh e
  | between step _ ih => exact ih
  | request engine fuel m _ ih => exact ih.load engine fuel m

theorem length_le_one_of_dropLast_allCancelled {xs : List (Option (Ending α))}
    (h : AllCancelled xs.dropLast) (hn : some (.error .cancelled) ∉ xs) : xs.length ≤ 1 := by
  cases hd : xs.dropLast with
  | nil =>
    have hlength : xs.dropLast.length = xs.length - 1 := List.length_dropLast
    rw [hd, List.length_nil] at hlength
    omega
  | cons x ys =>
    have hx : x ∈ xs.dropLast := hd ▸ List.mem_cons_self
    exact absurd (h x hx ▸ List.dropLast_subset xs hx) hn

/-- Whatever an engine does, a request that is answered leaves what was known of other modules as it
was, notes nothing as pending, and executes the module once if nothing was known of it; while it is
under way the pending modules are those whose execution has not ended. In the whole life of a loader
every execution of a module but the last was cancelled. -/
theorem load_disciplined :
    (∀ (engine : String → Task α σ) (fuel : Nat) (m : String) (s s' : Hosted α (Watched α σ))
      (r : Ending α), Returns (load (conduct engine fuel) m) s r s' →
      ∃ es, s'.engine.log = s.engine.log ++ es ∧
        (∀ k e, s.cache.get? k = some e → s'.cache.get? k = some e) ∧
        (∀ k, s.cache.get? k = none → s'.cache.get? k ≠ some .pending) ∧
        (∀ chain, (∀ k, s.cache.get? k = some .pending ↔ k ∈ chain) → PendingIsChain chain es) ∧
        (match s.cache.get? m with
          | none => s'.cache.get? m = kept r ∧ ∃ mid, es = .began m :: mid ++ [.ended m r] ∧
              ∀ x ∈ mid, x.module? ≠ some m
          | some .pending => es = [] ∧ s' = s ∧ r = .error (.cycle m)
          | some (.loaded g) => es = [] ∧ s' = s ∧ r = .ok g
          | some (.failed e) => es = [] ∧ s' = s ∧ r = .error e)) ∧
    (∀ s : Hosted α (Watched α σ), Life s → ∀ m,
      (∀ x ∈ (executions m s.engine.log).dropLast, x = some (.error .cancelled)) ∧
      (some (.error .cancelled) ∉ executions m s.engine.log →
        (executions m s.engine.log).length ≤ 1)) := by
  constructor
  · intro engine fuel m s s' r h
    rcases (orderly_conduct engine fuel).request_cases h with
      ⟨e, he, rfl, rfl⟩ | ⟨hm, es, s₁, hes, rfl⟩
    · have hs := Effect.refl s'
      refine ⟨[], hs.log_eq, hs.kept_entry, hs.no_new_pending, hs.pending_is_chain, ?_⟩
      rw [he]
      cases e <;> exact ⟨rfl, rfl, rfl⟩
    · have hs := hes.request r hm
      refine ⟨_, hs.log_eq, hs.kept_entry, hs.no_new_pending, hs.pending_is_chain, ?_⟩
      rw [hm]
      refine ⟨?_, es, rfl, hes.only_absent m .pending ?_⟩
      · rw [Hosted.get?_settle, if_pos rfl]
      · rw [Hosted.note_cache, Hosted.get?_record, if_pos rfl]
  · intro s h m
    have hd := (h.consistent m).dropLast
    exact ⟨hd, length_le_one_of_dropLast_allCancelled hd⟩

/-- An engine whose module `a` asks for `b` twice and does not mind its failures, and whose `b` is
stopped the first time and asks for `a` the second time. -/
def stubborn : String → Task Unit Nat
  | "a" => .ask "b" fun _ => .ask "b" fun _ => .done (.ok .empty)
  | _ => .act (· + 1) fun n => if n = 1 then .done (.error .cancelled) else .ask "a" .done

/-- A loader that began empty and has been asked for the `a` of the stubborn engine. -/
def askedStubborn : Hosted Unit (Watched Unit Nat) :=
  left (load (conduct stubborn 3) "a" ⟨.empty, ⟨0, []⟩⟩)

theorem load_disciplined_stubborn :
    askedStubborn.cache.get? "a" = some (.loaded .empty) ∧
    PendingIsChain [] askedStubborn.engine.log ∧
    executions "b" askedStubborn.engine.log =
      [some (.error .cancelled), some (.error (.cycle "a"))] ∧
    ∀ x ∈ (executions "b" askedStubborn.engine.log).dropLast, x = some (.error .cancelled) := by
  have hr : Returns (load (conduct stubborn 3) "a") ⟨.empty, ⟨0, []⟩⟩ (.ok .empty)
      askedStubborn := by cbv
  have hlife : Life askedStubborn := (Life.fresh 0).request stubborn 3 "a"
  obtain ⟨es, hlog, -, -, hchain, ha, -⟩ := load_disciplined.1 stubborn 3 "a" _ _ _ hr
  refine ⟨ha, ?_, by cbv, (load_disciplined.2 _ hlife "b").1⟩
  rw [hlog]
  exact hchain [] fun k => by simp

end ScriptShell
