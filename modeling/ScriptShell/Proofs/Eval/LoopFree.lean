import ScriptShell.Proofs.Eval.Assured
import ScriptShell.Proofs.Loader.Sound

/-!
# ScriptShell.Proofs.Eval.LoopFree

Without loops every evaluation comes to an end. A load makes a module of the set known for good, and
begins with the call depth of a new evaluation; a call goes one deeper, and no deeper than
`maxCalls`; everything else is part of the syntax that is being evaluated. So the unknown modules,
the calls that are still possible and the syntax decrease in this order of importance.

* `Reachable`: the functions that an evaluation can come to.
* `Tame`: no function that can be called has a loop in it.
* `terminates_of_loopFree`: the main theorem.
-/

namespace ScriptShell

/-- The functions that an evaluation on the globals can come to: those bound in the globals or in a
module that is known, and those bound in the home of one of them. A home that stands ready for a
function which has not been made is counted too; evaluations leave none. -/
inductive Reachable (w : World) (g : Globals Value) : Function → Prop where
  | bound {f : Function} (hf : g.Holds f) : Reachable w g f
  | cached {m : String} {u : Globals Value} {f : Function}
      (hm : w.cache.get? m = some (.loaded u)) (hf : u.Holds f) : Reachable w g f
  | home {f f' : Function} {u : Globals Value} (h : Reachable w g f)
      (hu : w.engine.home? f.id = some u) (hf : u.Holds f') : Reachable w g f'
  | upcoming {id : Nat} {u : Globals Value} {f : Function} (hid : w.engine.nextFunction ≤ id)
      (hu : w.engine.home? id = some u) (hf : u.Holds f) : Reachable w g f

theorem Globals.all_of_holds {T : Function → Prop} {g : Globals Value}
    (h : ∀ f, g.Holds f → T f) : g.All T := by
  intro e he
  obtain ⟨name, v⟩ := e
  cases v with
  | function f => exact h f (List.mem_map_of_mem (f := Prod.snd) he)
  | _ => trivial

/-- What has got a home by the end of a module had it before, or lives in the module. -/
theorem Store.home?_settle {s : Store} {m : String} {g u : Globals Value} {id : Nat}
    (h : (s.settle m g).home? id = some u) : s.home? id = some u ∨ u = g := by
  unfold settle at h
  generalize g.toList.map Prod.snd = vs at h
  induction vs generalizing s with
  | nil => exact .inl h
  | cons v vs ih =>
    refine (ih h).elim (fun hv => ?_) .inr
    cases v with
    | function f =>
      rw [settleValue] at hv
      split at hv
      · rw [home?, List.lookup_cons] at hv
        split at hv
        · exact .inr (Option.some.inj hv).symm
        · exact .inl hv
      · exact .inl hv
    | _ => exact .inl hv

theorem Table.mem_names {α : Type} {t : Table α} {k : String} {v : α} (h : t.get? k = some v) :
    k ∈ t.names := by
  obtain ⟨es, es', hes, -⟩ := List.lookup_eq_some_iff.1 h
  rw [names, hes, List.map_append]
  exact List.mem_append_right _ List.mem_cons_self

/-! ## What decreases -/

/-- How many of the modules are not known. -/
def unknown (names : List String) (w : World) : Nat :=
  (names.filter fun m => (w.cache.get? m).isNone).length

section
variable (names : List String) (w : World) (m : String)

theorem unknown_record_le (e : Entry Value) :
    unknown names (w.record m e) ≤ unknown names w := by
  refine (List.monotone_filter_right _ fun k hk => ?_).length_le
  rw [Hosted.get?_record] at hk
  split at hk
  · exact nomatch hk
  · exact hk

theorem unknown_remember_le (g : Globals Value) :
    unknown names (w.remember m g) ≤ unknown names w :=
  unknown_record_le names { w with engine := w.engine.settle m g } m (.loaded g)

/-- A module that becomes known is one less that is not. -/
theorem unknown_record_lt {names : List String} {w : World} {m : String} (e : Entry Value)
    (hm : m ∈ names) (hw : w.cache.get? m = none) :
    unknown names (w.record m e) < unknown names w := by
  obtain ⟨before, after, rfl⟩ := List.append_of_mem hm
  have hbefore := unknown_record_le before w m e
  have hafter := unknown_record_le after w m e
  have hrecord : (w.record m e).cache.get? m = some e := by rw [Hosted.get?_record, if_pos rfl]
  simp only [unknown, List.filter_append, List.filter_cons, hrecord, hw, Option.isNone_some,
    Option.isNone_none, Bool.false_eq_true, if_true, if_false, List.length_append,
    List.length_cons] at hbefore hafter ⊢
  omega

end

/-! ## Tame states -/

section
variable {T : Function → Prop} {n₀ : Nat} {w w' : World}

/-- The functions of `T` see only functions of `T`, and so do the modules that are known. -/
structure Tame (T : Function → Prop) (n₀ : Nat) (w : World) : Prop where
  next : n₀ ≤ w.engine.nextFunction
  cached : ∀ {m u}, w.cache.get? m = some (.loaded u) → u.All T
  home : ∀ {f u}, T f → w.engine.home? f.id = some u → u.All T

theorem Tame.record (h : Tame T n₀ w) (m : String) {e : Entry Value}
    (he : ∀ u, e = .loaded u → u.All T) : Tame T n₀ (w.record m e) where
  next := h.next
  cached := by
    intro k u hu
    rw [Hosted.get?_record] at hu
    split at hu
    · exact he u (Option.some.inj hu)
    · exact h.cached hu
  home := h.home

theorem Tame.remember (h : Tame T n₀ w) (m : String) {g : Globals Value} (hg : g.All T) :
    Tame T n₀ (w.remember m g) := by
  have hsettle : Tame T n₀ { w with engine := w.engine.settle m g } := by
    refine ⟨?_, h.cached, fun {f u} hf hu => ?_⟩
    · rw [Store.settle_nextFunction]
      exact h.next
    · rcases Store.home?_settle hu with hu | rfl
      · exact h.home hf hu
      · exact hg
  exact hsettle.record m fun u hu => Entry.loaded.inj hu ▸ hg

end

/-! ## Everything ends -/

section
variable {T : Function → Prop} {n₀ : Nat}

/-- Without loops calls and loads end, if the functions of `T` and the modules have none. -/
theorem assured_of_loopFree (ctx : Context) (names : List String)
    (hT : ∀ f, T f → Stmt.LoopFree.block f.definition.body)
    (hnew : ∀ f : Function, n₀ ≤ f.id → Stmt.LoopFree.block f.definition.body → T f)
    (hread : ∀ m text, ctx.library.read m = .ok text → m ∈ names ∧
      ∀ p, parseProgram m text = .ok p → Stmt.LoopFree.block p) (n : Nat) (chain : CallChain) :
    Assured ctx T False (fun w => Tame T n₀ w ∧ unknown names w ≤ n) chain := by
  induction n using Nat.strong_induction_on generalizing chain with
  | _ n ih =>
    induction hd : maxCalls - chain.depth using Nat.strong_induction_on generalizing chain with
    | _ d ihd =>
      have hpoll : ∀ {w w'}, Tame T n₀ w ∧ unknown names w ≤ n → poll ctx w = .ok () w' →
          Tame T n₀ w' ∧ unknown names w' ≤ n := by
        intro w w' hw hp
        obtain ⟨rfl, -⟩ := poll_ok hp
        exact ⟨⟨hw.1.next, hw.1.cached, hw.1.home⟩, hw.2⟩
      refine ⟨hpoll, ?_, ?_, ?_, ?_, fun hloops => hloops.elim⟩
      · intro w definition file hw hbody
        exact ⟨hnew _ hw.1.next (hbody.resolve_left id),
          ⟨hw.1.next.trans (Nat.le_succ _), hw.1.cached, hw.1.home⟩, hw.2⟩
      · exact fun hw hf hu => hw.1.home hf hu
      · intro w w' f scope p hw hp hf hdepth hs
        have hdepth' : (chain.enter p f).depth = chain.depth + 1 := rfl
        exact (ihd _ (by omega) (chain.enter p f) rfl).execBlock _ (.inr (hT f hf)) hs (hpoll hw hp)
      · intro w w' m hw hp
        have hw' := hpoll hw hp
        refine .loadModule (fun g hg => ⟨hw'.1.cached hg, hw'⟩) fun hm text p htext hparse => ?_
        obtain ⟨hname, hbody⟩ := hread m text htext
        have hlt := unknown_record_lt .pending hname hm
        have hexec := (ih (n - 1) (by omega) (.root m)).execBlock p (.inr (hbody p hparse))
          (m := ⟨.ofGlobals .empty, w'.record m .pending⟩) (.ofGlobals .empty)
          ⟨hw'.1.record m nofun, Nat.le_sub_one_of_lt (hlt.trans_le hw'.2)⟩
        refine hexec.mono fun flow mach ⟨_, hscope, htame, hunknown⟩ => ?_
        refine ⟨hscope.globals, htame.remember m hscope.globals, ?_⟩
        have hle := unknown_remember_le names mach.world m mach.scope.globals.freeze
        omega

end

theorem ofTexts_read_eq_ok {texts : Table String} {m text : String}
    (h : (Library.ofTexts texts).read m = .ok text) : texts.get? m = some text := by
  unfold Library.ofTexts at h
  dsimp only at h
  split at h
  · cases h
    assumption
  · cases h

/-- If no loop stands in the program, in a module or in a function that can be reached, evaluation
ends with a value or a failure, whatever recursive functions and whatever cycles of loads there
are. -/
theorem terminates_of_loopFree (texts : Table String) (canLoad : Bool) (cancelFrom : Option Nat)
    (file : String) (g : Globals Value) (w : World)
    (htexts : ∀ m text p, texts.get? m = some text → parseProgram m text = .ok p →
      Stmt.LoopFree.block p)
    (hreach : ∀ f, Reachable w g f → Stmt.LoopFree.block f.definition.body) :
    (∀ e : Expr, ∃ N r w', ∀ fuel ≥ N,
      evaluate ⟨.ofTexts texts, canLoad, cancelFrom⟩ fuel file g e w = answer r w') ∧
    (∀ p : Program, Stmt.LoopFree.block p → ∃ N x, x.outcome ≠ .error .outOfFuel ∧ ∀ fuel ≥ N,
      execute ⟨.ofTexts texts, canLoad, cancelFrom⟩ fuel file g p w = x) := by
  -- a function is one that can be reached, or a new one
  let T : Function → Prop := fun f => Reachable w g f ∨
    (w.engine.nextFunction ≤ f.id ∧ Stmt.LoopFree.block f.definition.body)
  have hT : ∀ f, T f → Stmt.LoopFree.block f.definition.body := by
    rintro f (hf | hf)
    · exact hreach f hf
    · exact hf.2
  have htame : Tame T w.engine.nextFunction w := by
    refine ⟨le_rfl, fun hu => Globals.all_of_holds fun f hf => .inl (.cached hu hf), ?_⟩
    rintro f u (hf | hf) hu
    · exact Globals.all_of_holds fun f' hf' => .inl (.home hf hu hf')
    · exact Globals.all_of_holds fun f' hf' => .inl (.upcoming hf.1 hu hf')
  have hassured := assured_of_loopFree ⟨.ofTexts texts, canLoad, cancelFrom⟩
    texts.names hT (fun f hid hbody => .inr ⟨hid, hbody⟩)
    (fun m text htext => ⟨Table.mem_names (ofTexts_read_eq_ok htext),
      fun p => htexts m text p (ofTexts_read_eq_ok htext)⟩) (unknown texts.names w) (.root file)
  have hg : g.All T := Globals.all_of_holds fun f hf => .inl (.bound hf)
  exact ⟨hassured.evaluate hg ⟨htame, le_rfl⟩,
    fun p hp => hassured.execute hg ⟨htame, le_rfl⟩ (.inr hp)⟩

/-- A function without parameters that returns what another one does. -/
def returning (id : Nat) (name callee : String) : Function :=
  ⟨id, ⟨name, [], [.return_ (some (.call (.name callee .start) [] .start)) .start], .start⟩, "t"⟩

/-- Two functions that call each other. -/
def pingPong : Globals Value :=
  .ofList [("ping", .function (returning 0 "ping" "pong")),
    ("pong", .function (returning 1 "pong" "ping"))]

/-- Two modules that ask for each other, and one that asks for itself. -/
def loadCycles : Table String :=
  .ofList [("a", "load('b', 'y')\n"), ("b", "load('a', 'x')\n"), ("c", "load('c', 'z')\n")]

theorem terminates_of_loopFree_pingPong :
    (∃ N r w', ∀ fuel ≥ N, evaluate ⟨.ofTexts loadCycles, true, none⟩ fuel "t" pingPong
      (.call (.name "ping" .start) [] .start) .empty = answer r w') ∧
    ∃ N x, x.outcome ≠ .error .outOfFuel ∧ ∀ fuel ≥ N,
      execute ⟨.ofTexts loadCycles, true, none⟩ fuel "t" pingPong
        [.load "c" [] .start, .load "a" [] .start] .empty = x := by
  have hreach : ∀ f, Reachable .empty pingPong f → Stmt.LoopFree.block f.definition.body := by
    intro f hf
    induction hf with
    | bound hf =>
      have hvalues : pingPong.toList.map Prod.snd =
          [.function (returning 0 "ping" "pong"), .function (returning 1 "pong" "ping")] := by cbv
      rw [Globals.Holds, hvalues, List.mem_pair, Value.function.injEq, Value.function.injEq] at hf
      rcases hf with rfl | rfl <;> exact ⟨trivial, trivial⟩
    | cached hm _ => cases hm
    | home _ hu _ => cases hu
    | upcoming _ hu _ => cases hu
  have htexts : ∀ m text p, loadCycles.get? m = some text → parseProgram m text = .ok p →
      Stmt.LoopFree.block p := by
    intro m text p htext hparse
    obtain ⟨es, es', hes, -⟩ := List.lookup_eq_some_iff.1 htext
    have hmem : (m, text) ∈ loadCycles.entries := hes ▸ List.mem_append_right _ List.mem_cons_self
    have hentries : loadCycles.entries = [("a", "load('b', 'y')\n"), ("b", "load('a', 'x')\n"),
      ("c", "load('c', 'z')\n")] := by cbv
    have ha : parseProgram "a" "load('b', 'y')\n" = .ok [.load "b" [⟨"y", "y"⟩] .start] := by cbv
    have hb : parseProgram "b" "load('a', 'x')\n" = .ok [.load "a" [⟨"x", "x"⟩] .start] := by cbv
    have hc : parseProgram "c" "load('c', 'z')\n" = .ok [.load "c" [⟨"z", "z"⟩] .start] := by cbv
    simp only [hentries, List.mem_cons, Prod.mk.injEq, List.not_mem_nil, or_false] at hmem
    rcases hmem with ⟨rfl, rfl⟩ | ⟨rfl, rfl⟩ | ⟨rfl, rfl⟩
    · cases ha.symm.trans hparse
      exact ⟨trivial, trivial⟩
    · cases hb.symm.trans hparse
      exact ⟨trivial, trivial⟩
    · cases hc.symm.trans hparse
      exact ⟨trivial, trivial⟩
  obtain ⟨heval, hexec⟩ :=
    terminates_of_loopFree loadCycles true none "t" pingPong .empty htexts hreach
  exact ⟨heval _, hexec _ ⟨trivial, trivial, trivial⟩⟩

end ScriptShell
