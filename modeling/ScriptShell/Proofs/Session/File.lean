import ScriptShell.Proofs.Eval.Lockstep
import ScriptShell.Proofs.Eval.Paired
import ScriptShell.Proofs.Loader.Transparent
import ScriptShell.Proofs.Program.Line
import ScriptShell.Proofs.Session.Stale

/-!
# ScriptShell.Proofs.Session.File

A text does the same as a file that is run and as a text that is evaluated in a new session. The two
runs ask their loaders for the same modules and make functions of the same numbers; they differ in
the name that places of the text bear.

* `naming`: two runs that call one source by two names.
* `execBlock_expr`: a program that is one expression is evaluated like the expression.
* `Concur`: the file and the session have come to the same.
* `runFile_concurs`: the main theorem.
-/

namespace ScriptShell

/-! ## One source under two names -/

/-- The same file, or the source under its first name and under its second one. -/
def SameSource (file file' : String) (a b : String) : Prop :=
  a = b ∨ (a = file ∧ b = file')

/-- Two runs that call one source by two names share everything else. -/
def naming (file file' : String) : Pairing Unit where
  file := SameSource file file'
  fn _ f f' := f.id = f'.id ∧ f.definition = f'.definition ∧ SameSource file file' f.file f'.file
  world _ w w' := w = w'

namespace naming

variable {file file' : String} {ctx : Context}

theorem fn_refl (f : Function) : (naming file file').fn () f f :=
  ⟨rfl, rfl, .inl rfl⟩

theorem globals_refl (g : Globals Value) : Globals.Rel ((naming file file').fn ()) g g :=
  g.rel_refl.mono fun f f' h => by
    subst h
    exact fn_refl f

/-- What does not depend on the name comes to the same. -/
theorem evals_refl {α : Type} {A : Unit → α → α → Prop} (hA : ∀ a, A () a a)
    (r : EStateM.Result Halt World α) : (naming file file').Evals () A r r := by
  rcases r with ⟨a, w⟩ | ⟨e | _, w⟩
  · exact .ok le_rfl rfl (hA a)
  · exact .failed le_rfl rfl (.refl e)
  · exact .outOfFuel le_rfl rfl

theorem lawful (ctx : Context) (bound : Nat) : (naming file file').Lawful ctx bound where
  mono _ := le_rfl
  id_eq hf := hf.1
  definition_eq hf := hf.2.1
  fn_file hf := hf.2.2
  poll := by
    rintro _ w _ rfl
    exact evals_refl (fun _ => trivial) _
  new := by
    rintro _ w _ a b d rfl hab
    exact .ok le_rfl rfl ⟨rfl, rfl, hab⟩
  home := by
    rintro _ w _ f f' rfl hf
    rw [hf.1]
    cases w.engine.home? f'.id with
    | none => exact .none
    | some g => exact .some (globals_refl g)
  load := by
    rintro fuel - _ w _ m rfl
    exact evals_refl globals_refl _

/-- Statements outside every function come to the same under the two names. -/
theorem execs_block (file file' : String) (ctx : Context) (fuel : Nat) (p : Program)
    (g : Globals Value) (w : World) :
    (naming file file').Execs () (fun _ => Flow.Rel ((naming file file').fn ()))
      (execBlock ctx fuel (.root file) p ⟨.ofGlobals g, w⟩)
      (execBlock ctx fuel (.root file') p ⟨.ofGlobals g, w⟩) := by
  have hchain : (CallChain.root file).Paired (naming file file').file (.root file') :=
    .root (.inr ⟨rfl, rfl⟩)
  have hmachine : (naming file file').Machines () ⟨.ofGlobals g, w⟩ ⟨.ofGlobals g, w⟩ :=
    ⟨.ofGlobals (globals_refl g), rfl⟩
  exact ((lawful ctx fuel).alike le_rfl).execBlock p hchain hmachine

/-- An expression comes to the same under the two names. -/
theorem evals_expr (file file' : String) (ctx : Context) (fuel : Nat) (e : Expr)
    (g : Globals Value) (w : World) :
    (naming file file').Evals () (fun _ => Value.Rel ((naming file file').fn ()))
      (evaluate ctx fuel file g e w) (evaluate ctx fuel file' g e w) := by
  have hL : (naming file file').Lawful ctx fuel := lawful ctx fuel
  have hchain : (CallChain.root file).Paired (naming file file').file (.root file') :=
    .root (.inr ⟨rfl, rfl⟩)
  unfold evaluate
  refine (hL.poll (κ := ()) rfl).bind fun _ hw _ => ?_
  exact (hL.alike le_rfl).eval e hchain (.ofGlobals (globals_refl g)) hw

end naming

/-! ## What a file does -/

variable {ctx : Context} {fuel fuel' : Nat} {file : String} {g g' : Globals Value} {w w' : World}

theorem onWorld_apply {α : Type} (x : EvalM α) (s : Scope) (w : World) :
    onWorld x ⟨s, w⟩ = match x w with
      | .ok a w' => .ok a ⟨s, w'⟩
      | .error h w' => .error h ⟨s, w'⟩ := rfl

theorem execute_eq (p : Program) :
    execute ctx fuel file g p w = match execBlock ctx fuel (.root file) p ⟨.ofGlobals g, w⟩ with
      | .ok _ m => ⟨.ok (), m.scope.globals, m.world⟩
      | .error e m => ⟨.error e, m.scope.globals, m.world⟩ := rfl

/-- A program that is one expression is evaluated like the expression. -/
theorem execBlock_expr (e : Expr) (p : Pos) :
    execBlock ctx (fuel + 2) (.root file) [.expr e p] ⟨.ofGlobals g, w⟩ =
      match evaluate ctx fuel file g e w with
      | .ok _ w' => .ok .next ⟨.ofGlobals g, w'⟩
      | .error h w' => .error h ⟨.ofGlobals g, w'⟩ := by
  have hbind : ∀ {σ α β : Type} (x : EStateM Halt σ α) (f : α → EStateM Halt σ β) (s : σ),
      (x >>= f) s = EStateM.bind x f s := fun _ _ _ => rfl
  simp only [execBlock, execStmt, evaluate]
  rw [hbind, EStateM.bind, hbind, EStateM.bind, onWorld_apply, hbind, EStateM.bind]
  cases poll ctx w with
  | error h w' => rfl
  | ok u w' =>
    dsimp only
    rw [hbind, EStateM.bind, inScope, onWorld_apply]
    cases eval ctx fuel (.root file) (.ofGlobals g) e w' <;> rfl

theorem execFile_of_parse {text : String} {p : Program} (hread : ctx.library.read file = .ok text)
    (hp : parseProgram file text = .ok p) :
    execFile ctx (fuel + 1) file file w =
      match execBlock ctx fuel (.root file) p ⟨.ofGlobals .empty, w⟩ with
      | .ok _ m => .ok m.scope.globals.freeze
          { m.world with engine := m.world.engine.settle file m.scope.globals.freeze }
      | .error e m => .error e m.world := by
  cases hrun : execBlock ctx fuel (.root file) p ⟨.ofGlobals .empty, w⟩ <;>
    simp only [execFile, hread, hp, hrun]

/-- A greater allowance does not change what comes of a module. -/
theorem execFile_mono {r : Except Error (Globals Value)} (hfuel : fuel ≤ fuel')
    (h : execFile ctx fuel file file w = answer r w') :
    execFile ctx fuel' file file w = answer r w' := by
  cases fuel with
  | zero =>
    simp only [execFile] at h
    exact absurd h (outOfFuel_ne_answer w w' r)
  | succ fuel =>
    obtain ⟨fuel', rfl⟩ : ∃ k, fuel' = k + 1 := ⟨fuel' - 1, by omega⟩
    rw [execFile_succ] at h ⊢
    rcases answer_or_outOfFuel ((Course.ofModule ctx.library ctx.canLoad fuel file).run ctx w) with
      ⟨r₁, w₁, hrun⟩ | ⟨w₁, hrun⟩
    · have hgap : fuel + 0 ≤ fuel' := by omega
      have hstable : Stable ctx fuel := fun _ => load_mono
      have hrun' := hstable.run
        (rel_ofModule id ctx.library ctx.canLoad hgap le_rfl file (renaming_eq id)) hrun
      rw [hrun']
      rw [hrun] at h
      exact h
    · rw [hrun] at h
      exact absurd h (outOfFuel_ne_answer w₁ w' r)

theorem runFile_empty :
    runFile ctx fuel file World.empty = match execFile ctx fuel file file World.empty with
      | .ok g w' => .ok g { w' with cache := .empty }
      | .error e w' => .error e { w' with cache := .empty } := rfl

theorem runFile_eq_answer_iff {r : Except Error (Globals Value)} :
    runFile ctx fuel file World.empty = answer r w ↔
      ∃ w', execFile ctx fuel file file World.empty = answer r w' ∧
        { w' with cache := .empty } = w := by
  rw [runFile_empty]
  rcases answer_or_outOfFuel (execFile ctx fuel file file World.empty) with
    ⟨_ | _, w₁, h⟩ | ⟨w₁, h⟩ <;> rw [h] <;> cases r <;> simp [answer]

/-! ## The file and the session -/

/-- What is shown of globals: their names with the displayed values, in order. -/
def Globals.shown (g : Globals Value) : List (String × String) :=
  g.toList.map fun e => (e.1, e.2.repr)

theorem Value.Rel.repr_eq {π : Pos → Pos} {R : FunRel} {v v' : Value} (hR : SameCode π R)
    (h : Value.Rel R v v') : v.repr = v'.repr := by
  cases h with
  | @function f f' hf =>
    change "<function " ++ f.definition.name ++ ">" = "<function " ++ f'.definition.name ++ ">"
    rw [hR.name hf]
  | _ => rfl

theorem Globals.Rel.shown_eq {π : Pos → Pos} {R : FunRel} (hR : SameCode π R)
    (h : Globals.Rel R g g') : g.shown = g'.shown := by
  have hbindings := h.bindings
  change List.Forall₂ _ g.toList g'.toList at hbindings
  unfold Globals.shown
  generalize g.toList = es, g'.toList = es' at hbindings
  induction hbindings with
  | nil => rfl
  | cons he _ ih => rw [List.map_cons, List.map_cons, ih, he.1, he.2.repr_eq hR]

/-- The run of a file and the evaluation of a text in a session have come to the same: the globals
are shown alike, or the failures differ in the name of the source alone. -/
inductive Concur (file filename : String) :
    Except Error (Globals Value) → Except Error Unit × Session → Prop where
  | ok {g : Globals Value} {s : Session} (h : g.shown = s.globals.shown) :
      Concur file filename (.ok g) (.ok (), s)
  | error {e e' : Error} {s : Session} (h : Error.Rel (SameSource file filename) e e') :
      Concur file filename (.error e) (.error e', s)

/-- Both have come to an end, and to the same, or neither has. -/
inductive Twins (file filename : String) :
    EStateM.Result Halt World (Globals Value) → Option (Except Error Unit × Session) → Prop where
  | answered {r : Except Error (Globals Value)} {w : World} {t : Except Error Unit × Session}
      (h : Concur file filename r t) : Twins file filename (answer r w) (some t)
  | outOfFuel {w : World} : Twins file filename (.error .outOfFuel w) none

theorem Twins.of_answer {file filename : String} {r : Except Error (Globals Value)} {w : World}
    {o : Option (Except Error Unit × Session)} (h : Twins file filename (answer r w) o) :
    ∃ t, o = some t ∧ Concur file filename r t := by
  generalize hx : answer r w = x at h
  cases h with
  | answered h =>
    obtain ⟨rfl, rfl⟩ := answer_inj hx
    exact ⟨_, rfl, h⟩
  | outOfFuel => exact absurd hx.symm (outOfFuel_ne_answer _ _ _)

theorem Twins.of_some {file filename : String} {x : EStateM.Result Halt World (Globals Value)}
    {t : Except Error Unit × Session} (h : Twins file filename x (some t)) :
    ∃ r w, x = answer r w ∧ Concur file filename r t := by
  cases h with
  | answered h => exact ⟨_, _, rfl, h⟩

/-- The session when a value has been printed, if there is one. -/
def Session.printed (s : Session) : Except Error (Option Value) → Session
  | .ok (some v) => s.printValue v
  | _ => s

theorem Session.printed_globals (s : Session) (r : Except Error (Option Value)) :
    (s.printed r).globals = s.globals := by
  rcases r with _ | _ | v
  · rfl
  · rfl
  · rw [printed, printValue]
    split <;> rfl

theorem Session.evalText_of_classify {s : Session} {text : String} {u : InputUnit}
    (hunit : classifyBlock s.config.filename text = .ok u) :
    s.evalText fuel text =
      (s.evaluate fuel u).map fun t => (t.1.map fun _ => (), t.2.printed t.1) := by
  unfold evalText
  rw [hunit]
  dsimp only
  rcases s.evaluate fuel u with _ | ⟨_ | _ | v, t⟩ <;> rfl

theorem Session.evaluate_expr_of_outOfFuel {s : Session} {e : Expr}
    (h : ScriptShell.evaluate s.context fuel s.config.filename s.globals e s.world.begin =
      .error .outOfFuel w) :
    s.evaluate fuel (.expr e) = none := by
  simp only [Session.evaluate, h]

theorem Session.evaluate_stmts_of_outOfFuel {s : Session} {p : Program} {x : Executed}
    (h : execute s.context fuel s.config.filename s.globals p s.world.begin = x)
    (hx : x.outcome = .error .outOfFuel) :
    s.evaluate fuel (.stmts p) = none := by
  simp only [Session.evaluate, h, hx]

section
variable {lib : Library} {text : String} {p : Program} {config : Config}

/-- The text of the file is evaluated as a program. -/
theorem twins_of_stmts (hread : lib.read file = .ok text) (hp : parseProgram file text = .ok p)
    (hunit : classifyBlock config.filename text = .ok (.stmts p)) :
    Twins file config.filename (execFile (.undisturbed lib) (fuel + 1) file file World.empty)
      ((Session.start config lib).evalText fuel text) := by
  rw [execFile_of_parse hread hp, Session.evalText_of_classify hunit]
  have hexecute : execute (.undisturbed lib) fuel config.filename .empty p World.empty = _ :=
    execute_eq p
  have hblock :=
    naming.execs_block file config.filename (.undisturbed lib) fuel p .empty World.empty
  generalize execBlock (.undisturbed lib) fuel (.root file) p
    ⟨.ofGlobals .empty, World.empty⟩ = x at hblock
  generalize execBlock (.undisturbed lib) fuel (.root config.filename) p
    ⟨.ofGlobals .empty, World.empty⟩ = x' at hblock hexecute
  cases hblock with
  | ok _ hm _ =>
    have hevaluate := Session.evaluate_stmts (s := Session.start config lib) (r := .ok ())
      hexecute rfl
    have hshown :=
      hm.scope.globals.shown_eq ((naming.lawful (.undisturbed lib) 0).sameCode _)
    rw [hevaluate]
    exact .answered (r := .ok _) (.ok hshown)
  | @failed _ e e' _ _ _ _ he =>
    have hevaluate := Session.evaluate_stmts (s := Session.start config lib) (r := .error e')
      hexecute rfl
    rw [hevaluate]
    exact .answered (r := .error e) (.error he)
  | outOfFuel _ _ =>
    have hevaluate := Session.evaluate_stmts_of_outOfFuel (s := Session.start config lib)
      hexecute rfl
    rw [hevaluate]
    exact .outOfFuel

/-- The text of the file is evaluated as an expression. -/
theorem twins_of_expr {e : Expr} {q : Pos} (hread : lib.read file = .ok text)
    (hp : parseProgram file text = .ok [.expr e q])
    (hunit : classifyBlock config.filename text = .ok (.expr e)) :
    Twins file config.filename (execFile (.undisturbed lib) (fuel + 3) file file World.empty)
      ((Session.start config lib).evalText fuel text) := by
  rw [execFile_of_parse hread hp, execBlock_expr, Session.evalText_of_classify hunit]
  have heval := naming.evals_expr file config.filename (.undisturbed lib) fuel e .empty World.empty
  generalize evaluate (.undisturbed lib) fuel file .empty e World.empty = x at heval
  generalize hx' : evaluate (.undisturbed lib) fuel config.filename .empty e World.empty = x'
    at heval
  cases heval with
  | @ok _ v v' w w' _ _ _ =>
    have hevaluate := Session.evaluate_expr (s := Session.start config lib) (r := .ok v') hx'
    rw [hevaluate]
    refine .answered (r := .ok _) (.ok ?_)
    rw [Session.printed_globals]
    rfl
  | @failed _ err err' w w' _ _ he =>
    have hevaluate := Session.evaluate_expr (s := Session.start config lib) (r := .error err') hx'
    rw [hevaluate]
    exact .answered (r := .error _) (.error he)
  | outOfFuel _ _ =>
    have hevaluate :=
      Session.evaluate_expr_of_outOfFuel (s := Session.start config lib) hx'
    rw [hevaluate]
    exact .outOfFuel

/-- With so much more of an allowance the file comes to the same as the text. -/
theorem exists_twins (config : Config) (hread : lib.read file = .ok text)
    (hp : parseProgram file text = .ok p) :
    ∃ n, ∀ fuel, Twins file config.filename
      (execFile (.undisturbed lib) (fuel + n) file file World.empty)
      ((Session.start config lib).evalText fuel text) := by
  have hparse : Program.parse text = .ok p := parseProgram_eq_ok_iff.1 hp
  cases he : Expr.parse text with
  | ok e =>
    obtain ⟨q, rfl⟩ := parse_of_expr he hparse
    exact ⟨3, fun _ => twins_of_expr hread hp (by rw [classifyBlock, he])⟩
  | error f =>
    refine ⟨1, fun _ => twins_of_stmts hread hp ?_⟩
    rw [classifyBlock, he, parseProgram, hparse]
    rfl

end

/-- A text that is a program is run as a file of a library, and evaluated in a new session with the
same library, without interrupts. Either comes to an end if the other does, and then they have come
to the same, whatever modules the text asks for, itself among them: the names bound and the values
shown for them are equal, or the failures are, up to the name of the source in places. -/
theorem runFile_concurs (lib : Library) (config : Config) {file text : String} {p : Program}
    (hread : lib.read file = .ok text) (hp : parseProgram file text = .ok p) :
    ((∃ fuel r w, runFile ⟨lib, true, none⟩ fuel file World.empty = answer r w) ↔
      ∃ fuel t, (Session.start config lib).evalText fuel text = some t) ∧
    ∀ fuel fuel' r w t, runFile ⟨lib, true, none⟩ fuel file World.empty = answer r w →
      (Session.start config lib).evalText fuel' text = some t →
      Concur file config.filename r t := by
  obtain ⟨n, htwins⟩ := exists_twins config hread hp
  refine ⟨⟨?_, ?_⟩, ?_⟩
  · rintro ⟨fuel, r, w, hrun⟩
    obtain ⟨w', hexec, -⟩ := runFile_eq_answer_iff.1 hrun
    have htwin := htwins fuel
    rw [execFile_mono (Nat.le_add_right fuel n) hexec] at htwin
    obtain ⟨t, ht, -⟩ := htwin.of_answer
    exact ⟨fuel, t, ht⟩
  · rintro ⟨fuel, t, heval⟩
    have htwin := htwins fuel
    rw [heval] at htwin
    obtain ⟨r, w, hexec, -⟩ := htwin.of_some
    exact ⟨fuel + n, r, _, runFile_eq_answer_iff.2 ⟨w, hexec, rfl⟩⟩
  · intro fuel fuel' r w t hrun heval
    obtain ⟨w₁, hexec, -⟩ := runFile_eq_answer_iff.1 hrun
    have htwin := htwins fuel'
    rw [heval] at htwin
    obtain ⟨r', w₂, hexec', hconcur⟩ := htwin.of_some
    -- both runs of the file answer with the greater of the two allowances
    have h₁ := execFile_mono (le_max_left fuel (fuel' + n)) hexec
    have h₂ := execFile_mono (le_max_right fuel (fuel' + n)) hexec'
    obtain ⟨rfl, -⟩ := answer_inj (h₁.symm.trans h₂)
    exact hconcur

/-- A module, and a text that uses it. -/
def sharedLibrary : Library := .ofTexts <| .ofList
  [("inc", "def inc(n):\n    return n + 1\n"), ("main", "load('inc', 'inc')\ny = inc(3)\n")]

/-- What the text says. -/
def sharedProgram : Program :=
  [.load "inc" [⟨"inc", "inc"⟩] ⟨1, 1⟩,
    .assign "y" (.call (.name "inc" ⟨2, 5⟩) [.int ⟨3, by decide, by decide⟩] ⟨2, 8⟩) ⟨2, 1⟩]

theorem runFile_concurs_main :
    sharedLibrary.read "main" = .ok "load('inc', 'inc')\ny = inc(3)\n" ∧
    parseProgram "main" "load('inc', 'inc')\ny = inc(3)\n" = .ok sharedProgram ∧
    (∃ fuel t, (Session.start .usual sharedLibrary).evalText fuel
      "load('inc', 'inc')\ny = inc(3)\n" = some t) ∧
    ∀ fuel fuel' r w t, runFile ⟨sharedLibrary, true, none⟩ fuel "main" World.empty = answer r w →
      (Session.start .usual sharedLibrary).evalText fuel' "load('inc', 'inc')\ny = inc(3)\n" =
        some t → Concur "main" "<stdin>" r t := by
  have hread : sharedLibrary.read "main" = .ok "load('inc', 'inc')\ny = inc(3)\n" := by cbv
  have hp : parseProgram "main" "load('inc', 'inc')\ny = inc(3)\n" = .ok sharedProgram := by cbv
  obtain ⟨hiff, hconcur⟩ := runFile_concurs sharedLibrary .usual hread hp
  have hends :
      ((runFile ⟨sharedLibrary, true, none⟩ 20 "main").run' World.empty).isSome = true := by cbv
  cases hrun : runFile ⟨sharedLibrary, true, none⟩ 20 "main" World.empty with
  | ok g w => exact ⟨hread, hp, hiff.1 ⟨20, .ok g, w, hrun⟩, hconcur⟩
  | error e w =>
    rw [EStateM.run', EStateM.run, hrun] at hends
    cases hends

end ScriptShell
