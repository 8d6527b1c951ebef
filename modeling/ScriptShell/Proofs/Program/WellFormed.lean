import Mathlib
import ScriptShell.Proofs.Eval.Effect
import ScriptShell.Proofs.Program.Made
import ScriptShell.Proofs.Program.Print
import ScriptShell.Proofs.Token.Place

/-!
# ScriptShell.Proofs.Program.WellFormed

Accepted programs can be printed, which is to say that they are well formed: `return` stands in
functions and `load` outside, with something to take over; blocks are not empty; names are
identifiers; integers are not negative. So no `return` ends them early, and an execution that ends
well has executed every statement.

* `filled_of_scan`: something stands behind every indent.
* `Built.isPrintable`, `Made.isPrintable`: what is made from the lexemes of a text is well formed.
* `RunsThrough`: all statements are executed, one after the other.
* `accepted_wellFormed`: the main theorem.
-/

namespace ScriptShell

/-! ## Behind an indent -/

/-- May the second lexeme stand behind the first one? A block does not end where it begins. -/
def Fills (l m : Lexeme) : Prop :=
  l.token = .indent → m.token ≠ .outdent ∧ m.token ≠ .endOfInput

/-- Each lexeme may stand behind the one before it. The lexemes are given newest first. -/
def Filling (ls : List Lexeme) : Prop :=
  ls.IsChain fun m l => Fills l m

/-- Any lexeme may stand behind these. -/
def Closable (ls : List Lexeme) : Prop :=
  Filling ls ∧ ∀ l ∈ ls.head?, l.token ≠ .indent

section
variable {ls : List Lexeme} {t : Token}

theorem Filling.push (h : Filling ls) (p : Pos) (hout : t ≠ .outdent) (hend : t ≠ .endOfInput) :
    Filling (⟨t, p⟩ :: ls) :=
  h.cons fun _ _ _ => ⟨hout, hend⟩

theorem Filling.closed (h : Filling ls) {p : Pos} (ht : Closed [⟨t, p⟩]) :
    Filling (⟨t, p⟩ :: ls) := by
  have hinline : t.isLayout = false := ht.inline ⟨t, p⟩ List.mem_cons_self
  refine h.push p ?_ ?_
  · rintro rfl
    cases hinline
  · rintro rfl
    cases hinline

theorem Closable.push (h : Closable ls) (p : Pos) (ht : t ≠ .indent) : Closable (⟨t, p⟩ :: ls) := by
  refine ⟨h.1.cons fun l hl hindent => absurd hindent (h.2 l hl), fun l hl => ?_⟩
  obtain rfl : ⟨t, p⟩ = l := Option.some.inj hl
  exact ht

theorem Closable.outdents (h : Closable ls) (p : Pos) (n : Nat) :
    Closable (List.replicate n ⟨.outdent, p⟩ ++ ls) := by
  induction n with
  | zero => exact h
  | succ n ih => exact ih.push p (by simp)

end

namespace Scanner

variable {mode : ScanMode} {s t : Scanner} {c : Char}

/-- Behind a line end, blocks may be closed. -/
theorem Fresh.closable (h : s.Fresh) (hs : Filling s.lexemes) : Closable s.lexemes :=
  ⟨hs, fun l hl => by simp [h l hl]⟩

theorem filling_readInLine (h : Filling s.lexemes) (hs : s.readInLine c = .ok t) :
    Filling t.lexemes := by
  rcases readInLine_cases hs with ⟨-, -, rfl⟩ | ⟨_, -, rfl⟩ | ⟨_, rfl⟩
  · exact h.push s.pos (by simp) (by simp)
  · exact h
  · exact h.push s.pos (by simp) (by simp)

theorem filling_settle (h : Filling s.lexemes) (hs : s.settle = .ok t) : Filling t.lexemes := by
  rcases settle_cases hs with ⟨-, rfl⟩ | ⟨_, _, hclosed, rfl⟩
  · exact h
  · exact h.closed hclosed

theorem filling_layout {width : Nat} (h : Filling s.lexemes) (hfresh : s.Fresh)
    (hs : s.layout width = .ok t) : Filling t.lexemes := by
  rcases layout_cases hs with ⟨-, rfl⟩ | ⟨-, kept, n, -, -, rfl⟩
  · exact h.push s.pos (by simp) (by simp)
  · exact ((hfresh.closable h).outdents s.pos n).1

theorem filling_step (h : Filling s.lexemes) (hfresh : s.phase.isOuter = true → s.Fresh)
    (hs : s.step mode c = .ok t) : Filling t.lexemes := by
  rcases step_cases hs with
    ⟨_, -, rfl⟩ | ⟨_, _, hclosed, rfl⟩ | ⟨s', hs, hread⟩ | ⟨-, width, s', hphase, hs, hread⟩
  · exact h
  · exact h.closed hclosed
  · exact filling_readInLine (filling_settle h hs) hread
  · have houter : s.phase.isOuter = true := by rw [hphase]; rfl
    exact filling_readInLine (filling_layout h (hfresh houter) hs) hread

theorem filling_run {cs : List Char} (hs : start.run mode cs = .ok t) : Filling t.lexemes := by
  have hrun : (t.phase.isOuter = true → t.Fresh) ∧ Filling t.lexemes :=
    run_induction (P := fun t => (t.phase.isOuter = true → t.Fresh) ∧ Filling t.lexemes)
      (fun h _ hs => ⟨fresh_of_step h.1 hs, filling_step h.2 h.1 hs⟩)
      ⟨fun _ => by simp [Fresh, start], by simp [Filling, start]⟩ hs
  exact hrun.2

/-- The closing lexemes begin with a line end, unless one has just been written. -/
theorem filling_closing (h : Filling s.lexemes) :
    Filling (s.lexemes.reverse ++ s.closing).reverse := by
  have hending : ∀ {ls}, Closable ls → Filling (s.ending.reverse ++ ls) := by
    intro ls hls
    rw [ending, List.reverse_append, List.reverse_replicate, List.append_assoc]
    exact ((hls.outdents s.pos s.indents.length).push s.pos (by simp)).1
  rw [List.reverse_append, List.reverse_reverse]
  by_cases hfresh : s.Fresh
  · rw [closing_of_fresh hfresh]
    exact hending (hfresh.closable h)
  · rw [closing_of_not_fresh hfresh, List.reverse_cons, List.append_assoc]
    exact hending ⟨h.push s.pos (by simp) (by simp), by simp⟩

end Scanner

/-- Something stands behind every indent that is not the end of a block. -/
def Filled (ls : List Lexeme) : Prop :=
  ∀ ⦃l ms⦄, l :: ms <:+ ls → l.token = .indent → peek ms ≠ .outdent ∧ peek ms ≠ .endOfInput

theorem Filled.suffix {ls ms : List Lexeme} (h : Filled ls) (hms : ms <:+ ls) : Filled ms :=
  fun _ _ hl => h (hl.trans hms)

theorem Filled.tail {l : Lexeme} {ls : List Lexeme} (h : Filled (l :: ls)) : Filled ls :=
  h.suffix (List.suffix_cons l ls)

theorem filled_of_scan {mode : ScanMode} {text : String} {ls : List Lexeme}
    (h : scan mode text = .ok ls) : Filled ls := by
  have hchain : ls.IsChain Fills := by
    have hscan := h
    rw [← String.ofList_toList (s := text)] at hscan
    obtain ⟨s, hs, hls⟩ := Scanner.scan_ofList_eq_ok_iff.1 hscan
    obtain ⟨-, t, ht, rfl⟩ := Scanner.finish_eq_ok_iff.1 hls
    have hfilling := Scanner.filling_closing (Scanner.filling_settle (Scanner.filling_run hs) ht)
    rw [← List.reverse_reverse (_ ++ _)]
    exact List.isChain_reverse.2 hfilling
  intro l ms hsuffix hl
  cases ms with
  | nil =>
    -- the last lexeme is the end of input
    obtain ⟨us, rfl⟩ := hsuffix
    have hend := (terminated_append_singleton_iff.1 (terminated_of_scan h)).2
    exact nomatch hl.symm.trans hend
  | cons m ms => exact (List.isChain_cons_cons.1 (hchain.suffix hsuffix)).1 hl

/-! ## What is made is well formed -/

/-- Is the part of an expression well formed? -/
def Piece.isPrintable : Piece → Bool
  | .whole e => e.isPrintable
  | .items es => Expr.isPrintable.argsPrintable es

/-- Is the part of a program, inside a function or outside, well formed? -/
def Clause.isPrintable (inFunction : Bool) : Clause → Bool
  | .imports is => is.all Import.isPrintable
  | .names ids => ids.all isIdentifier
  | .simple s | .stmt s | .branch _ s => s.isPrintable inFunction
  | .block ss => !ss.isEmpty && Stmt.isPrintable.blockPrintable inFunction ss
  | .otherwise ss | .stmts ss | .program ss => Stmt.isPrintable.blockPrintable inFunction ss

/-- The tokens of a text can be written, its layout aside. -/
def CanBeWritten (_ : Pos) (t : Token) : Prop :=
  t.isLayout = false → t.isSpellable = true

theorem canBeWritten_of_scan {mode : ScanMode} {text : String} {ls : List Lexeme}
    (h : scan mode text = .ok ls) : AllStand CanBeWritten ls := by
  intro l hl ht
  obtain ⟨_, _, _, -, -, hreads⟩ := standsAt_of_scan h l hl
  exact hreads.isSpellable ht

variable {ls rest : List Lexeme}

theorem Built.isPrintable {φ : Piece} (h : Built φ ls rest) (hls : AllStand CanBeWritten ls) :
    φ.isPrintable = true := by
  induction h with
  | @leaf e l rest h =>
    obtain ⟨t, p⟩ := l
    unfold Lexeme.leaf? at h
    dsimp only at h
    split at h <;> cases h <;> first
      | rfl
      | exact hls.head rfl rfl
  | parens _ _ _ ih => exact ih hls.tail
  | unary _ _ ih => exact ih hls.tail
  | binary ha _ _ iha ihb =>
    exact Bool.and_eq_true_iff.2 ⟨iha hls, ihb (hls.suffix ha.suffix).tail⟩
  | call hf _ _ _ ihf ihargs =>
    exact Bool.and_eq_true_iff.2 ⟨ihf hls, ihargs (hls.suffix hf.suffix).tail⟩
  | noItems => rfl
  | lastItem _ ih => exact Bool.and_eq_true_iff.2 ⟨ih hls, rfl⟩
  | items he _ _ ihe ih =>
    exact Bool.and_eq_true_iff.2 ⟨ihe hls, ih (hls.suffix he.suffix).tail⟩

/-- A block that does not end where it begins holds something. -/
theorem Made.stmts_ne_nil {inFunction : Bool} {ss : List Stmt}
    (h : Made inFunction (.stmts ss) ls rest) (hout : peek ls ≠ .outdent)
    (hend : peek ls ≠ .endOfInput) : ss ≠ [] := by
  rintro rfl
  cases h with
  | outdent hl => exact hout hl
  | endOfInput hp => exact hend hp

theorem Made.isPrintable {inFunction : Bool} {φ : Clause} (h : Made inFunction φ ls rest)
    (hls : AllStand CanBeWritten ls) (hfilled : Filled ls) :
    φ.isPrintable inFunction = true := by
  induction h with
  | noImports | comma | noNames | pass | returnNothing | noElse | outdent | endOfInput | done => rfl
  | kept _ _ _ ih =>
    refine Bool.and_eq_true_iff.2 ⟨?_, ih hls.tail.tail hfilled.tail.tail⟩
    simp [Import.isPrintable]
  | renamed _ hi _ _ _ ih =>
    refine Bool.and_eq_true_iff.2
      ⟨?_, ih hls.tail.tail.tail.tail hfilled.tail.tail.tail.tail⟩
    exact Bool.or_eq_true_iff.2 (.inr (hls.tail.head hi rfl))
  | lastName hl => exact Bool.and_eq_true_iff.2 ⟨hls.head hl rfl, rfl⟩
  | names hl _ _ ih =>
    exact Bool.and_eq_true_iff.2 ⟨hls.head hl rfl, ih hls.tail.tail hfilled.tail.tail⟩
  | expr he => exact he.isPrintable hls
  | assign hid _ he =>
    have hname : isIdentifier _ = true := hid.isPrintable hls
    exact Bool.and_eq_true_iff.2 ⟨hname, he.isPrintable (hls.suffix hid.suffix).tail⟩
  | return_ _ he => exact he.isPrintable hls.tail
  | load _ _ _ _ _ hne ih =>
    have himports := ih hls.tail.tail.tail hfilled.tail.tail.tail
    exact Bool.and_eq_true_iff.2 ⟨by simpa using hne, himports⟩
  | line _ _ ih => exact ih hls hfilled
  | define _ hi _ hids _ _ _ ihids ih =>
    have hnames := ihids hls.tail.tail.tail hfilled.tail.tail.tail
    have hbody := ih (hls.tail.tail.tail.suffix hids.suffix).tail.tail
      (hfilled.tail.tail.tail.suffix hids.suffix).tail.tail
    have hname : isIdentifier _ = true := hls.tail.head hi rfl
    simp only [Clause.isPrintable, Bool.and_eq_true] at hnames hbody
    simp [Clause.isPrintable, Stmt.isPrintable, hname, hnames, hbody]
  | if_ _ ih => exact ih hls hfilled
  | while_ _ he _ _ ih =>
    have hcond : Expr.isPrintable _ = true := he.isPrintable hls.tail
    have hbody := ih (hls.tail.suffix he.suffix).tail (hfilled.tail.suffix he.suffix).tail
    simp only [Clause.isPrintable, Bool.and_eq_true] at hbody
    simp [Clause.isPrintable, Stmt.isPrintable, hcond, hbody]
  | branch _ _ he _ hss _ ihss ihus =>
    have hms := (hls.tail.suffix he.suffix).tail
    have hms' := (hfilled.tail.suffix he.suffix).tail
    have hcond : Expr.isPrintable _ = true := he.isPrintable hls.tail
    have hthen := ihss hms hms'
    have helse := ihus (hms.suffix hss.suffix) (hms'.suffix hss.suffix)
    simp only [Clause.isPrintable, Bool.and_eq_true] at hthen helse
    simp [Clause.isPrintable, Stmt.isPrintable, hcond, hthen, helse]
  | elif _ ih => exact Bool.and_eq_true_iff.2 ⟨ih hls hfilled, rfl⟩
  | else_ _ _ _ ih =>
    have hblock := ih hls.tail.tail hfilled.tail.tail
    exact (Bool.and_eq_true_iff.1 hblock).2
  | oneLine _ _ ih => exact Bool.and_eq_true_iff.2 ⟨ih hls hfilled, rfl⟩
  | indented _ hi h ih =>
    obtain ⟨hout, hend⟩ := hfilled (List.suffix_cons _ _) hi
    refine Bool.and_eq_true_iff.2 ⟨?_, ih hls.tail.tail hfilled.tail.tail⟩
    simpa using h.stmts_ne_nil hout hend
  | stmts hs _ ihs ih =>
    exact Bool.and_eq_true_iff.2
      ⟨ihs hls hfilled, ih (hls.suffix hs.suffix) (hfilled.suffix hs.suffix)⟩
  | @program _ _ ls _ _ hs _ ihs ih =>
    have hskip := skipNewlines_suffix ls
    have hms := hs.suffix.trans hskip
    exact Bool.and_eq_true_iff.2 ⟨ihs (hls.suffix hskip) (hfilled.suffix hskip),
      ih (hls.suffix hms) (hfilled.suffix hms)⟩

/-! ## Running to the end -/

mutual

/-- Outside functions, a statement that is well formed does not return. -/
theorem Stmt.confined_of_isPrintable : ∀ {s : Stmt}, s.isPrintable false = true →
    s.Confined (fun _ => True) False
  | .expr .., _ | .assign .., _ | .define .., _ | .pass, _ => trivial
  | .load .., _ => fun _ _ => trivial
  | .if_ _ thenPart elsePart _, h => by
    simp only [Stmt.isPrintable, Bool.and_eq_true] at h
    exact ⟨blockConfined_of_isPrintable h.1.2, blockConfined_of_isPrintable h.2⟩
  | .while_ _ body _, h => by
    simp only [Stmt.isPrintable, Bool.and_eq_true] at h
    exact blockConfined_of_isPrintable h.2

theorem blockConfined_of_isPrintable : ∀ {ss : List Stmt},
    Stmt.isPrintable.blockPrintable false ss = true →
    Stmt.Confined.blockConfined (fun _ => True) False ss
  | [], _ => trivial
  | s :: ss, h => by
    simp only [Stmt.isPrintable.blockPrintable, Bool.and_eq_true] at h
    exact ⟨Stmt.confined_of_isPrintable h.1, blockConfined_of_isPrintable h.2⟩

end

/-- The statements are executed, each to its end and the next one from there, from the first state
to the second. -/
inductive RunsThrough (ctx : Context) (chain : CallChain) :
    Nat → List Stmt → Machine → Machine → Prop
  | nil {fuel m} : RunsThrough ctx chain (fuel + 1) [] m m
  | cons {fuel s ss m m' m''} (hs : execStmt ctx fuel chain s m = .ok .next m')
      (h : RunsThrough ctx chain fuel ss m' m'') : RunsThrough ctx chain (fuel + 1) (s :: ss) m m''

section
variable {ctx : Context} {fuel : Nat} {chain : CallChain} {ss : List Stmt} {m m' : Machine}

/-- Statements that do not return end well only behind the last one. -/
theorem runsThrough_of_execBlock {flow : Flow}
    (hss : Stmt.Confined.blockConfined (fun _ => True) False ss)
    (h : execBlock ctx fuel chain ss m = .ok flow m') :
    RunsThrough ctx chain fuel ss m m' := by
  induction ss generalizing fuel m with
  | nil =>
    cases fuel with
    | zero => cases h
    | succ fuel =>
      cases h
      exact .nil
  | cons s ss ih =>
    cases fuel with
    | zero => cases h
    | succ fuel =>
      simp only [execBlock] at h
      change EStateM.bind _ _ m = _ at h
      rw [EStateM.bind] at h
      have hflow := (effects (P := fun _ => True) False (fun _ _ _ _ _ _ _ => trivial) ctx
        fuel).exec (m := m) chain hss.1 trivial
      cases hs : execStmt ctx fuel chain s m with
      | error e m₁ =>
        rw [hs] at h
        cases h
      | ok flow' m₁ =>
        rw [hs] at h hflow
        cases flow' with
        | next => exact .cons hs (ih hss.2 h)
        | return_ v =>
          cases hflow with
          | ok hreturn _ => exact hreturn.elim

end

/-- An accepted program is well formed, as `Program.isPrintable` spells out. So when its execution
ends well, on whatever globals, each of its statements was executed to its end, from the state that
the one before it left. -/
theorem accepted_wellFormed {file text : String} {p : Program}
    (h : parseProgram file text = .ok p) :
    p.isPrintable = true ∧
    ∀ ctx fuel file' g w, (execute ctx fuel file' g p w).outcome = .ok () →
      ∃ m, RunsThrough ctx (.root file') fuel p ⟨.ofGlobals g, w⟩ m ∧
        execute ctx fuel file' g p w = ⟨.ok (), m.scope.globals, m.world⟩ := by
  obtain ⟨ls, hls, hreads⟩ := Program.parse_eq_ok_iff.1 (parseProgram_eq_ok_iff.1 h)
  obtain ⟨rest, hmade⟩ := made_of_reads hreads
  have hp : p.isPrintable = true :=
    hmade.isPrintable (canBeWritten_of_scan hls) (filled_of_scan hls)
  refine ⟨hp, fun ctx fuel file' g w hok => ?_⟩
  rw [execute] at hok ⊢
  cases hexec : execBlock ctx fuel (.root file') p ⟨.ofGlobals g, w⟩ with
  | error e m =>
    rw [hexec] at hok
    cases hok
  | ok flow m =>
    exact ⟨m, runsThrough_of_execBlock (blockConfined_of_isPrintable hp) hexec, rfl⟩

/-- A function that returns from inside a loop, and a branch that calls it. -/
def returningText : String :=
  "def f(n):\n  while n:\n    return n\nif f(2):\n  x = 1\n"

theorem accepted_wellFormed_returning : ∃ p, parseProgram "t" returningText = .ok p ∧
    p.isPrintable = true ∧ ∃ m, RunsThrough ⟨.ofTexts .empty, false, none⟩ (.root "t") 20 p
      ⟨.ofGlobals .empty, World.empty⟩ m ∧ m.scope.globals.contains "x" = true := by
  have hp : parseProgram "t" returningText = .ok
      [.define "f" ["n"] [.while_ (.name "n" ⟨2, 9⟩)
          [.return_ (some (.name "n" ⟨3, 12⟩)) ⟨3, 5⟩] ⟨2, 3⟩] ⟨1, 1⟩,
        .if_ (.call (.name "f" ⟨4, 4⟩) [.int ⟨2, by decide, by decide⟩] ⟨4, 5⟩)
          [.assign "x" (.int ⟨1, by decide, by decide⟩) ⟨5, 3⟩] [] ⟨4, 1⟩] := by cbv
  obtain ⟨hprintable, hrun⟩ := accepted_wellFormed hp
  obtain ⟨m, hm, hexec⟩ := hrun ⟨.ofTexts .empty, false, none⟩ 20 "t" .empty World.empty (by cbv)
  refine ⟨_, hp, hprintable, m, hm, ?_⟩
  have hglobals := congrArg Executed.globals hexec
  dsimp only at hglobals
  rw [← hglobals]
  cbv

end ScriptShell
