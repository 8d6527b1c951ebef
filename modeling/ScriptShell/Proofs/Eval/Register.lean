import ScriptShell.Proofs.Eval.LoopFree
import ScriptShell.Proofs.Eval.Paired
import ScriptShell.Proofs.Loader.Served

/-!
# ScriptShell.Proofs.Eval.Register

The functions that have been made, and the homes they have. Whatever a run does, the functions that
it meets have been made before or are made by it, each has a number of its own, and only the end of
a module gives homes.

* `Store.lookup_settle_cases`: what the end of a module does to homes.
* `Register`: a shared state with the functions that have been made in it.
* `Register.Grows`: what a stretch of a run adds to it.
* `Register.lawful`: every run keeps to it.
-/

namespace ScriptShell

/-! ## Functions that are kept -/

section
variable {T T' : Function → Prop} {g g' : Globals Value} {v v' : Value} {f : Function}

theorem Value.All.mono (h : v.All T) (hT : ∀ f, T f → T' f) : v.All T' := by
  cases v with
  | function f => exact hT f h
  | _ => trivial

theorem Globals.All.mono (h : g.All T) (hT : ∀ f, T f → T' f) : g.All T' :=
  fun e he => (h e he).mono hT

theorem Globals.All.holds (h : g.All T) (hf : g.Holds f) : T f := by
  obtain ⟨e, he, hv⟩ := List.mem_map.1 hf
  have := h e he
  rw [hv] at this
  exact this

/-- The same function, of which `T` holds. -/
def Only (T : Function → Prop) : FunRel :=
  fun f f' => f = f' ∧ T f

theorem Value.All.rel (h : v.All T) : Value.Rel (Only T) v v := by
  cases v with
  | function f => exact .function ⟨rfl, h⟩
  | _ => constructor

theorem Value.Rel.all (h : Value.Rel (Only T) v v') : v.All T := by
  cases h with
  | function h => exact h.2
  | _ => trivial

theorem Globals.All.rel (h : g.All T) : Globals.Rel (Only T) g g :=
  ⟨rfl, List.forall₂_same.2 fun e he => ⟨rfl, (h e he).rel⟩⟩

theorem Globals.Rel.all (h : Globals.Rel (Only T) g g') : g.All T :=
  Globals.all_of_holds fun _ hf =>
    have ⟨_, hT, _⟩ := h.holds hf
    hT.2

end

/-! ## The end of a module -/

theorem Store.lookup_settle_cases {s : Store} {m : String} {g : Globals Value} {id : Nat}
    {o : Option (Globals Value)} (h : (s.settle m g).homes.lookup id = some o) :
    s.homes.lookup id = some o ∨ (o = some g ∧ ∃ f, g.Holds f ∧ f.file = m ∧ f.id = id) := by
  unfold settle at h
  unfold Globals.Holds
  generalize g.toList.map Prod.snd = vs at h ⊢
  induction vs generalizing s with
  | nil => exact .inl h
  | cons v vs ih =>
    rcases ih h with h | ⟨ho, f, hf, hm, hid⟩
    · unfold settleValue at h
      cases v with
      | function f =>
        dsimp only at h
        split at h
        · rename_i hf
          rw [List.lookup_cons] at h
          split at h
          · rename_i hid
            exact .inr ⟨(Option.some.inj h).symm, f, List.mem_cons_self, hf.1,
              (beq_iff_eq.1 hid).symm⟩
          · exact .inl h
        · exact .inl h
      | _ => exact .inl h
    · exact .inr ⟨ho, f, List.mem_cons_of_mem _ hf, hm, hid⟩

theorem Store.lookup_settle_of_some {s : Store} {m : String} {g : Globals Value} {id : Nat}
    {o : Option (Globals Value)} (h : s.homes.lookup id = some o) :
    (s.settle m g).homes.lookup id = some o := by
  unfold settle
  generalize g.toList.map Prod.snd = vs
  induction vs generalizing s with
  | nil => exact h
  | cons v vs ih => exact ih (lookup_settleValue_of_some h v)

theorem Store.home?_settle_of_some {s : Store} {m : String} {g h : Globals Value} {id : Nat}
    (hh : s.home? id = some h) : (s.settle m g).home? id = some h := by
  rw [home?, Option.join_eq_some_iff] at hh ⊢
  exact lookup_settle_of_some hh

/-! ## Functions that have been made -/

/-- A shared state with the functions that have been made in it and the executions of modules that
have ended. Each function has a number of its own, and nothing else is kept anywhere. A function
that its module left bound has a home, and any home of it is such final globals. -/
structure Register where
  world : World
  made : Function → Prop
  ended : String → Globals Value → Prop
  eq_of_id : ∀ {f f'}, made f → made f' → f.id = f'.id → f = f'
  lt : ∀ {f}, made f → f.id < world.engine.nextFunction
  known : ∀ {z g}, world.cache.get? z = some (.loaded g) → ended z g
  all : ∀ {z g}, ended z g → g.All made
  bound : ∀ {z g f}, ended z g → g.Holds f → f.file = z → ∃ h, world.engine.home? f.id = some h
  home : ∀ {id o}, world.engine.homes.lookup id = some o → ∃ f h, o = some h ∧ made f ∧ f.id = id ∧
    ended f.file h ∧ h.Holds f

namespace Register

/-- What a stretch of a run adds: functions, homes, entries of the loader, and ends of executions,
which the loader knows. -/
structure Grows (s s' : Register) : Prop where
  made : ∀ {f}, s.made f → s'.made f
  ended : ∀ {z g}, s.ended z g → s'.ended z g
  home : ∀ {id o}, s.world.engine.homes.lookup id = some o →
    s'.world.engine.homes.lookup id = some o
  entry : ∀ {k e}, s.world.cache.get? k = some e → s'.world.cache.get? k = some e
  recent : ∀ {z g}, s'.ended z g → s.ended z g ∨ s'.world.cache.get? z = some (.loaded g)

instance : Preorder Register where
  le := Grows
  le_refl s := ⟨id, id, id, id, .inl⟩
  le_trans s₁ s₂ s₃ h h' := by
    refine ⟨fun hf => h'.made (h.made hf), fun hg => h'.ended (h.ended hg),
      fun ho => h'.home (h.home ho), fun he => h'.entry (h.entry he), fun hg => ?_⟩
    rcases h'.recent hg with hg | hg
    · exact (h.recent hg).imp_right h'.entry
    · exact .inr hg

variable {s s' : Register} {f : Function} {g h : Globals Value} {m : String}

theorem home?_of_le (hle : s ≤ s') {id : Nat} (hh : s.world.engine.home? id = some h) :
    s'.world.engine.home? id = some h := by
  rw [Store.home?, Option.join_eq_some_iff] at hh ⊢
  exact hle.home hh

/-- The home of a function that has been made is that of no other function. -/
theorem home_of_made (s : Register) (hf : s.made f)
    (hh : s.world.engine.home? f.id = some h) : s.ended f.file h ∧ h.Holds f := by
  rw [Store.home?, Option.join_eq_some_iff] at hh
  obtain ⟨f', h', heq, hf', hid, hrest⟩ := s.home hh
  obtain rfl := s.eq_of_id hf' hf hid
  exact Option.some.inj heq ▸ hrest

/-- Poll the given number of times. -/
def polled (s : Register) (n : Nat) : Register :=
  { s with world := s.world.polled n }

theorem le_polled (s : Register) (n : Nat) : s ≤ s.polled n :=
  ⟨id, id, id, id, .inl⟩

/-- Make a function. -/
def new (s : Register) (d : Definition) (file : String) : Register where
  world := { s.world with engine :=
    { s.world.engine with nextFunction := s.world.engine.nextFunction + 1 } }
  made f := s.made f ∨ f = ⟨s.world.engine.nextFunction, d, file⟩
  ended := s.ended
  eq_of_id := by
    rintro f f' (hf | rfl) (hf' | rfl) hid
    · exact s.eq_of_id hf hf' hid
    · exact absurd hid (Nat.ne_of_lt (s.lt hf))
    · exact absurd hid.symm (Nat.ne_of_lt (s.lt hf'))
    · rfl
  lt := by
    rintro f (hf | rfl)
    · exact Nat.lt_succ_of_lt (s.lt hf)
    · exact Nat.lt_succ_self _
  known := s.known
  all hg := (s.all hg).mono fun _ => .inl
  bound := s.bound
  home ho := by
    obtain ⟨f, h, heq, hf, hrest⟩ := s.home ho
    exact ⟨f, h, heq, .inl hf, hrest⟩

theorem le_new (s : Register) (d : Definition) (file : String) : s ≤ s.new d file :=
  ⟨.inl, id, id, id, .inl⟩

/-- Go on with a loader that knows these modules. -/
def withCache (s : Register) (c : Cache Value)
    (hc : ∀ z g, c.get? z = some (.loaded g) → s.ended z g) : Register :=
  { s with world := { s.world with cache := c }, known := fun hz => hc _ _ hz }

/-- Record what is known of a module. -/
def record (s : Register) (m : String) (e : Entry Value)
    (he : ∀ g, e = .loaded g → s.ended m g) : Register :=
  s.withCache (s.world.record m e).cache fun z g hz => by
    rw [Hosted.get?_record] at hz
    split at hz
    · subst z
      exact he g (Option.some.inj hz)
    · exact s.known hz

/-- Forget a module. -/
def forget (s : Register) (m : String) : Register :=
  s.withCache (s.world.forget m).cache fun z g hz => by
    rw [Hosted.get?_forget] at hz
    split at hz
    · exact nomatch hz
    · exact s.known hz

/-- End an execution of a module. -/
def settle (s : Register) (m : String) (g : Globals Value) (hg : g.All s.made) : Register where
  world := { s.world with engine := s.world.engine.settle m g }
  made := s.made
  ended z h := s.ended z h ∨ (z = m ∧ h = g)
  eq_of_id := s.eq_of_id
  lt hf := by
    rw [Store.settle_nextFunction]
    exact s.lt hf
  known hz := .inl (s.known hz)
  all := by
    rintro z h (hh | ⟨-, rfl⟩)
    · exact s.all hh
    · exact hg
  bound := by
    intro z h f hh hf hfile
    rcases hh with hh | ⟨rfl, rfl⟩
    · obtain ⟨u, hu⟩ := s.bound hh hf hfile
      exact ⟨u, Store.home?_settle_of_some hu⟩
    · cases ho : s.world.engine.homes.lookup f.id with
      | none =>
        refine ⟨h, ?_⟩
        rw [Store.home?, Store.lookup_settle_of_holds hf hfile ho]
        rfl
      | some o =>
        obtain ⟨-, u, rfl, -⟩ := s.home ho
        have hu : s.world.engine.home? f.id = some u := by
          rw [Store.home?, ho]
          rfl
        exact ⟨u, Store.home?_settle_of_some hu⟩
  home ho := by
    rcases Store.lookup_settle_cases ho with ho | ⟨rfl, f, hf, hfile, hid⟩
    · obtain ⟨f, h, heq, hf, hid, hh, hholds⟩ := s.home ho
      exact ⟨f, h, heq, hf, hid, .inl hh, hholds⟩
    · exact ⟨f, g, rfl, hg.holds hf, hid, .inr ⟨hfile, rfl⟩, hf⟩

/-! ## Every run keeps to the functions that have been made -/

/-- A run beside itself: of the functions that it meets all have been made. -/
def pairing : Pairing Register where
  file := (· = ·)
  fn s := Only s.made
  world s w w' := w = s.world ∧ w' = s.world

variable {ctx : Context} {fuel bound : Nat}

/-- How the execution of a module ends that began in a state with a register. -/
inductive Executes (s : Register) (m : String) :
    EStateM.Result Halt World (Globals Value) → Prop where
  | ok {s' : Register} {g : Globals Value} (hle : s ≤ s') (hg : g.All s'.made) :
      Executes s m (.ok g (s'.settle m g hg).world)
  | error {s' : Register} {e : Halt} (hle : s ≤ s') : Executes s m (.error e s'.world)

theorem executes (hL : pairing.Lawful ctx fuel) (s : Register) (file m : String) :
    Executes s m (execFile ctx (fuel + 1) file m s.world) := by
  simp only [execFile]
  cases ctx.library.read m with
  | error r => exact .error le_rfl
  | ok text =>
    dsimp only
    cases parseProgram m text with
    | error e => exact .error le_rfl
    | ok p =>
      dsimp only
      have hmachine : pairing.Machines s ⟨.ofGlobals .empty, s.world⟩
          ⟨.ofGlobals .empty, s.world⟩ := ⟨.ofGlobals .empty, rfl, rfl⟩
      have hchain : (CallChain.root file).Paired pairing.file (.root file) := .root rfl
      have hbody := (hL.alike le_rfl).execBlock p hchain hmachine
      generalize execBlock ctx fuel (.root file) p ⟨.ofGlobals .empty, s.world⟩ = r at hbody
      cases hbody with
      | ok hle hm _ =>
        obtain ⟨hscope, hw, -⟩ := hm
        dsimp only
        rw [hw]
        exact .ok hle hscope.globals.freeze.all
      | failed hle hm _ | outOfFuel hle hm =>
        dsimp only
        rw [hm.world.1]
        exact .error hle

/-- The loader waits for a module that it did not know. -/
theorem le_of_request {t : Register} (hm : s.world.cache.get? m = none)
    (hle : s.record m .pending nofun ≤ s') (hmade : ∀ {f}, s'.made f → t.made f)
    (hended : ∀ {z g}, s'.ended z g → t.ended z g)
    (hhome : ∀ {id o}, s'.world.engine.homes.lookup id = some o →
      t.world.engine.homes.lookup id = some o)
    (hentry : ∀ {k}, k ≠ m → t.world.cache.get? k = s'.world.cache.get? k)
    (hrecent : ∀ {z g}, t.ended z g →
      s'.ended z g ∨ t.world.cache.get? z = some (.loaded g)) : s ≤ t := by
  have hrecord : ∀ k, (s.record m .pending nofun).world.cache.get? k =
      if k = m then some .pending else s.world.cache.get? k :=
    fun k => s.world.get?_record m k .pending
  refine ⟨fun hf => hmade (hle.made hf), fun hg => hended (hle.ended hg),
    fun ho => hhome (hle.home ho), fun {k e} hk => ?_, fun {z g} hg => ?_⟩
  · rw [hentry (Hosted.ne_of_known hm hk)]
    exact hle.entry (Hosted.get?_record_of_known hm .pending hk)
  · rcases hrecent hg with hg | hg
    · refine (hle.recent hg).imp_right fun hz => ?_
      have hne : z ≠ m := by
        rintro rfl
        exact nomatch hz.symm.trans (hle.entry ((hrecord z).trans (if_pos rfl)))
      rw [hentry hne]
      exact hz
    · exact .inr hg

/-- The loader has asked for a module and got it. -/
theorem le_loaded (hm : s.world.cache.get? m = none) (hle : s.record m .pending nofun ≤ s')
    (hg : g.All s'.made) :
    s ≤ (s'.settle m g hg).record m (.loaded g)
      (fun _ h => .inr ⟨rfl, (Entry.loaded.inj h).symm⟩) := by
  have hrecord : ∀ k, ((s'.settle m g hg).record m (.loaded g)
      (fun _ h => .inr ⟨rfl, (Entry.loaded.inj h).symm⟩)).world.cache.get? k =
        if k = m then some (.loaded g) else s'.world.cache.get? k :=
    fun k => Hosted.get?_record _ m k (.loaded g)
  refine le_of_request hm hle id .inl Store.lookup_settle_of_some
    (fun hne => (hrecord _).trans (if_neg hne)) ?_
  rintro z h (hh | ⟨rfl, rfl⟩)
  · exact .inl hh
  · exact .inr ((hrecord z).trans (if_pos rfl))

/-- The loader has asked for a module and waits still. -/
theorem le_pending (hm : s.world.cache.get? m = none) (hle : s.record m .pending nofun ≤ s') :
    s ≤ s' :=
  le_of_request hm hle id id id (fun _ => rfl) .inl

/-- The loader has asked for a module and got none. -/
theorem le_failed (e : Error) (hm : s.world.cache.get? m = none)
    (hle : s.record m .pending nofun ≤ s') : s ≤ s'.record m (.failed e) nofun :=
  le_of_request hm hle id id id (fun hne => (Hosted.get?_record _ m _ _).trans (if_neg hne)) .inl

/-- The loader has asked for a module and been stopped. -/
theorem le_forget (hm : s.world.cache.get? m = none)
    (hle : s.record m .pending nofun ≤ s') : s ≤ s'.forget m :=
  le_of_request hm hle id id id (fun hne => (Hosted.get?_forget _ m _).trans (if_neg hne)) .inl

/-- Polls, new functions and homes keep to what has been made; loads do if they are shown to. -/
theorem lawful_of (hload : ∀ fuel < bound, ∀ (s : Register) (m : String),
    pairing.Evals s (fun s => Globals.Rel (Only s.made))
      (load (fun m => execFile ctx fuel m m) m s.world)
      (load (fun m => execFile ctx fuel m m) m s.world)) : pairing.Lawful ctx bound where
  mono hle _ _ hf := ⟨hf.1, hle.made hf.2⟩
  id_eq hf := congrArg Function.id hf.1
  definition_eq hf := congrArg Function.definition hf.1
  fn_file hf := congrArg Function.file hf.1
  poll := by
    rintro s w w' ⟨rfl, rfl⟩
    unfold poll
    dsimp only
    split
    · exact .failed (s.le_polled _) ⟨rfl, rfl⟩ (.refl _)
    · exact .ok (s.le_polled _) ⟨rfl, rfl⟩ trivial
  new := by
    rintro s w w' file file' d ⟨rfl, rfl⟩ rfl
    exact .ok (s.le_new d file) ⟨rfl, rfl⟩ ⟨rfl, .inr rfl⟩
  home := by
    rintro s w w' f f' ⟨rfl, rfl⟩ ⟨rfl, hf⟩
    cases hh : s.world.engine.home? f.id with
    | none => exact .none
    | some h => exact .some (s.all (s.home_of_made hf hh).1).rel
  load := by
    rintro fuel hfuel s w w' m ⟨rfl, rfl⟩
    exact hload fuel hfuel s m

theorem loads (ctx : Context) (fuel : Nat) (s : Register) (m : String) :
    pairing.Evals s (fun s => Globals.Rel (Only s.made))
      (load (fun m => execFile ctx fuel m m) m s.world)
      (load (fun m => execFile ctx fuel m m) m s.world) := by
  induction fuel using Nat.strong_induction_on generalizing s m with
  | _ fuel ih =>
    cases hm : s.world.cache.get? m with
    | some e =>
      rw [load_of_some hm]
      cases e with
      | loaded g => exact .ok le_rfl ⟨rfl, rfl⟩ (s.all (s.known hm)).rel
      | pending | failed e => exact .failed le_rfl ⟨rfl, rfl⟩ (.refl _)
    | none =>
      cases fuel with
      | zero =>
        rw [load_of_zero hm]
        exact .outOfFuel (le_pending hm le_rfl) ⟨rfl, rfl⟩
      | succ fuel =>
        have hexec := executes (lawful_of fun j hj => ih j (Nat.lt_succ_of_lt hj))
          (s.record m .pending nofun) m m
        change Executes _ m (execFile ctx (fuel + 1) m m (s.world.record m .pending)) at hexec
        unfold load
        rw [hm]
        dsimp only
        generalize execFile ctx (fuel + 1) m m (s.world.record m .pending) = r at hexec
        cases hexec with
        | ok hle hg => exact .ok (le_loaded hm hle hg) ⟨rfl, rfl⟩ hg.rel
        | @error s' e hle =>
          cases e with
          | outOfFuel => exact .outOfFuel (le_pending hm hle) ⟨rfl, rfl⟩
          | failed e =>
            have hfailed := le_failed e hm hle
            cases e with
            | cancelled => exact .failed (le_forget hm hle) ⟨rfl, rfl⟩ (.refl _)
            | _ => exact .failed hfailed ⟨rfl, rfl⟩ (.refl _)

theorem lawful (ctx : Context) (bound : Nat) : pairing.Lawful ctx bound :=
  lawful_of fun fuel _ => loads ctx fuel

end Register
end ScriptShell
