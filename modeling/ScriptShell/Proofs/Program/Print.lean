import ScriptShell.Proofs.Expr.Print

/-!
# ScriptShell.Proofs.Program.Print

How programs are printed: a line for each statement that holds no other and for each header, and
behind a header the lines of its block, further to the right. How far is free for every block, and
so is how the `else` part of an `if` is printed when it is a single `if`: as an `elif`, or as a
block.

* `Line`: a line, with the blocks that it stands in.
* `Laid`: the lines that a part of a program is printed as.
* `Written`: the characters of some lines.
* `Stmt.isPrintable`: the statements that can be printed.
* `Program.exists_text`: they are printed in some way.
* `Laid.legible`: their lines can be written.
-/

namespace ScriptShell

/-! ## Lines -/

/-- A line of a program: how far the blocks around it are indented, the innermost first, its tokens,
and the height of the tallest expression of the statement that begins with it. -/
structure Line where
  around : List Nat
  tokens : List Token
  height : Nat

/-- The indentation of a line is that of the innermost block around it. -/
def Line.indent (l : Line) : Nat :=
  l.around.headD 0

/-- The height of the tallest expression of a statement, those in its blocks aside. -/
def Stmt.tallest : Stmt → Nat
  | .expr e _ | .assign _ e _ | .return_ (some e) _ | .if_ e _ _ _ | .while_ e _ _ => e.height
  | .load .. | .define .. | .return_ none _ | .pass => 0

/-- The tokens of a name that a load statement takes over: a string, if it keeps its name, or both
names. -/
inductive Import.Laid : Import → List Token → Prop
  | kept (x : String) : Laid ⟨x, x⟩ [.str x]
  | renamed {i : Import} (h : isIdentifier i.target = true) :
    Laid i [.name i.target, .mark .assign, .str i.exported]

/-- The tokens of a statement that holds no other. -/
inductive Stmt.Laid (wrap : Bool) : Stmt → List Token → Prop
  | expr (e p) : Laid wrap (.expr e p) (e.tokens wrap)
  | assign (x e p) : Laid wrap (.assign x e p) (.name x :: .mark .assign :: e.tokens wrap)
  | load {is tss} (m p) (h : List.Forall₂ Import.Laid is tss) : Laid wrap (.load m is p)
      (.keyword .load :: .mark .parenLeft ::
        ([.mark .comma].intercalate ([.str m] :: tss) ++ [.mark .parenRight]))
  | returnNothing (p) : Laid wrap (.return_ none p) [.keyword .return_]
  | return_ (e p) : Laid wrap (.return_ (some e) p) (.keyword .return_ :: e.tokens wrap)
  | pass : Laid wrap .pass [.keyword .pass]

/-- The header of a function definition. -/
def defineTokens (name : String) (params : List String) : List Token :=
  .keyword .def_ :: .name name :: .mark .parenLeft ::
    ([.mark .comma].intercalate (params.map fun x => [.name x]) ++
      [.mark .parenRight, .mark .colon])

/-- A header with a condition. -/
def armTokens (wrap : Bool) (k : Keyword) (cond : Expr) : List Token :=
  .keyword k :: (cond.tokens wrap ++ [.mark .colon])

/-- A part of a program that stands on lines of its own. -/
inductive Part where
  | stmt (s : Stmt)
  | stmts (ss : List Stmt)
  /-- An `if` that begins with the given keyword, and all that belongs to it. -/
  | branch (k : Keyword) (cond : Expr) (thenPart elsePart : List Stmt)
  /-- What stands behind the first block of an `if`. -/
  | otherwise (elsePart : List Stmt)

/-- `Laid wrap ws φ ls`: inside blocks that are indented by `ws`, the part `φ` is printed as the
lines `ls`. A block is indented further than the one around it. -/
inductive Laid (wrap : Bool) : List Nat → Part → List Line → Prop
  | simple {ws s ts} (h : s.Laid wrap ts) : Laid wrap ws (.stmt s) [⟨ws, ts, s.tallest⟩]
  | define {ws w name params body p ls} (hw : ws.headD 0 < w)
      (h : Laid wrap (w :: ws) (.stmts body) ls) :
      Laid wrap ws (.stmt (.define name params body p)) (⟨ws, defineTokens name params, 0⟩ :: ls)
  | while_ {ws w cond body p ls} (hw : ws.headD 0 < w)
      (h : Laid wrap (w :: ws) (.stmts body) ls) :
      Laid wrap ws (.stmt (.while_ cond body p))
        (⟨ws, armTokens wrap .while_ cond, cond.height⟩ :: ls)
  | if_ {ws cond thenPart elsePart p ls}
      (h : Laid wrap ws (.branch .if_ cond thenPart elsePart) ls) :
      Laid wrap ws (.stmt (.if_ cond thenPart elsePart p)) ls
  | branch {ws w k cond thenPart elsePart ls ms} (hw : ws.headD 0 < w)
      (hthen : Laid wrap (w :: ws) (.stmts thenPart) ls)
      (helse : Laid wrap ws (.otherwise elsePart) ms) :
      Laid wrap ws (.branch k cond thenPart elsePart)
        (⟨ws, armTokens wrap k cond, cond.height⟩ :: (ls ++ ms))
  | noElse {ws} : Laid wrap ws (.otherwise []) []
  | elif {ws cond thenPart elsePart p ls}
      (h : Laid wrap ws (.branch .elif cond thenPart elsePart) ls) :
      Laid wrap ws (.otherwise [.if_ cond thenPart elsePart p]) ls
  | else_ {ws w elsePart ls} (hne : elsePart ≠ []) (hw : ws.headD 0 < w)
      (h : Laid wrap (w :: ws) (.stmts elsePart) ls) :
      Laid wrap ws (.otherwise elsePart) (⟨ws, [.keyword .else_, .mark .colon], 0⟩ :: ls)
  | noStmts {ws} : Laid wrap ws (.stmts []) []
  | stmts {ws s ss ls ms} (h : Laid wrap ws (.stmt s) ls) (hs : Laid wrap ws (.stmts ss) ms) :
      Laid wrap ws (.stmts (s :: ss)) (ls ++ ms)

/-- The characters of some lines: each is indented by spaces and ends with a line end, which may be
missing behind the last one. -/
inductive Written : List Line → List Char → Prop
  | nil : Written [] []
  | last {l cs} (h : Spelled l.tokens cs) : Written [l] (List.replicate l.indent ' ' ++ cs)
  | cons {l ls cs ds} (h : Spelled l.tokens cs) (hs : Written ls ds) :
      Written (l :: ls) (List.replicate l.indent ' ' ++ (cs ++ '\n' :: ds))

/-! ## What can be printed -/

/-- Can a name be taken over under this one? -/
def Import.isPrintable (i : Import) : Bool :=
  i.target == i.exported || isIdentifier i.target

/-- Can the statement be printed, inside a function or outside? -/
def Stmt.isPrintable : Bool → Stmt → Bool
  | _, .expr e _ => e.isPrintable
  | _, .assign x e _ => isIdentifier x && e.isPrintable
  | inFunction, .load _ is _ => !inFunction && !is.isEmpty && is.all Import.isPrintable
  | _, .define name params body _ =>
    isIdentifier name && params.all isIdentifier && !body.isEmpty && blockPrintable true body
  | inFunction, .return_ e _ => inFunction && e.all Expr.isPrintable
  | inFunction, .if_ cond thenPart elsePart _ =>
    cond.isPrintable && !thenPart.isEmpty && blockPrintable inFunction thenPart &&
      blockPrintable inFunction elsePart
  | inFunction, .while_ cond body _ =>
    cond.isPrintable && !body.isEmpty && blockPrintable inFunction body
  | _, .pass => true
where
  /-- Can all statements be printed? -/
  blockPrintable : Bool → List Stmt → Bool
    | _, [] => true
    | inFunction, s :: ss => s.isPrintable inFunction && blockPrintable inFunction ss

/-- Can the program be printed? Integers are not negative, names are identifiers, blocks are not
empty, `return` stands in functions, and `load` outside with something to take over. -/
def Program.isPrintable (p : Program) : Bool :=
  Stmt.isPrintable.blockPrintable false p

/-- Can the part be printed? -/
def Part.isPrintable (inFunction : Bool) : Part → Bool
  | .stmt s => s.isPrintable inFunction
  | .stmts ss => Stmt.isPrintable.blockPrintable inFunction ss
  | .branch _ cond thenPart elsePart =>
    cond.isPrintable && !thenPart.isEmpty &&
      Stmt.isPrintable.blockPrintable inFunction thenPart &&
      Stmt.isPrintable.blockPrintable inFunction elsePart
  | .otherwise elsePart => Stmt.isPrintable.blockPrintable inFunction elsePart

variable {wrap inFunction : Bool} {ws : List Nat} {φ : Part} {ls : List Line}

theorem exists_laid_imports {is : List Import} (h : is.all Import.isPrintable = true) :
    ∃ tss, List.Forall₂ Import.Laid is tss := by
  induction is with
  | nil => exact ⟨[], .nil⟩
  | cons i is ih =>
    rw [List.all_cons, Bool.and_eq_true] at h
    obtain ⟨tss, htss⟩ := ih h.2
    obtain ⟨x, y⟩ := i
    rcases Bool.or_eq_true_iff.1 h.1 with hi | hi
    · obtain rfl : x = y := by simpa using hi
      exact ⟨_, .cons (.kept x) htss⟩
    · exact ⟨_, .cons (.renamed hi) htss⟩

mutual

theorem Stmt.exists_laid (wrap : Bool) (ws : List Nat) : ∀ {inFunction : Bool} {s : Stmt},
    s.isPrintable inFunction = true → ∃ ls, ScriptShell.Laid wrap ws (.stmt s) ls
  | _, .expr e p, _ => ⟨_, .simple (.expr e p)⟩
  | _, .assign x e p, _ => ⟨_, .simple (.assign x e p)⟩
  | _, .load m is p, h => by
    simp only [Stmt.isPrintable, Bool.and_eq_true] at h
    obtain ⟨tss, htss⟩ := exists_laid_imports h.2
    exact ⟨_, .simple (.load m p htss)⟩
  | _, .define name params body p, h => by
    simp only [Stmt.isPrintable, Bool.and_eq_true] at h
    obtain ⟨ls, hls⟩ := exists_laid wrap ((ws.headD 0 + 1) :: ws) h.2
    exact ⟨_, .define (Nat.lt_succ_self _) hls⟩
  | _, .return_ Option.none p, _ => ⟨_, .simple (.returnNothing p)⟩
  | _, .return_ (some e) p, _ => ⟨_, .simple (.return_ e p)⟩
  | _, .if_ cond thenPart elsePart p, h => by
    simp only [Stmt.isPrintable, Bool.and_eq_true] at h
    obtain ⟨ls, hls⟩ := exists_laid wrap ((ws.headD 0 + 1) :: ws) h.1.2
    obtain ⟨ms, hms⟩ := exists_laid wrap ((ws.headD 0 + 1) :: ws) h.2
    by_cases hne : elsePart = []
    · subst hne
      exact ⟨_, .if_ (.branch (Nat.lt_succ_self _) hls .noElse)⟩
    · exact ⟨_, .if_ (.branch (Nat.lt_succ_self _) hls (.else_ hne (Nat.lt_succ_self _) hms))⟩
  | _, .while_ cond body p, h => by
    simp only [Stmt.isPrintable, Bool.and_eq_true] at h
    obtain ⟨ls, hls⟩ := exists_laid wrap ((ws.headD 0 + 1) :: ws) h.2
    exact ⟨_, .while_ (Nat.lt_succ_self _) hls⟩
  | _, .pass, _ => ⟨_, .simple .pass⟩

/-- Every list of statements that can be printed is printed in some way. -/
theorem exists_laid (wrap : Bool) (ws : List Nat) : ∀ {inFunction : Bool} {ss : List Stmt},
    Stmt.isPrintable.blockPrintable inFunction ss = true → ∃ ls, Laid wrap ws (.stmts ss) ls
  | _, [], _ => ⟨[], .noStmts⟩
  | _, s :: ss, h => by
    simp only [Stmt.isPrintable.blockPrintable, Bool.and_eq_true] at h
    obtain ⟨ls, hls⟩ := Stmt.exists_laid wrap ws h.1
    obtain ⟨ms, hms⟩ := exists_laid wrap ws h.2
    exact ⟨_, .stmts hls hms⟩

end

theorem exists_written (ls : List Line) : ∃ cs, Written ls cs := by
  induction ls with
  | nil => exact ⟨[], .nil⟩
  | cons l ls ih =>
    obtain ⟨cs, h⟩ := exists_spelled l.tokens
    obtain ⟨ds, hs⟩ := ih
    exact ⟨_, .cons h hs⟩

/-- A program that can be printed is printed in some way. -/
theorem Program.exists_text (wrap : Bool) {p : Program} (hp : p.isPrintable = true) :
    ∃ (ls : List Line) (text : String),
      Laid wrap [] (.stmts p) ls ∧ Written ls text.toList := by
  obtain ⟨ls, hls⟩ := exists_laid wrap [] hp
  obtain ⟨cs, hcs⟩ := exists_written ls
  exact ⟨ls, String.ofList cs, hls, by rwa [String.toList_ofList]⟩

/-! ## Printed lines can be written -/

/-- The line can be written: so can its tokens, of which there are some, and it closes its
parentheses. -/
structure Line.Legible (l : Line) : Prop where
  spellable : ∀ t ∈ l.tokens, t.isSpellable = true
  balanced : Balanced l.tokens
  nonempty : l.tokens ≠ []

theorem balanced_intercalate {tss : List (List Token)} (h : ∀ ts ∈ tss, Balanced ts) :
    Balanced ([Token.mark .comma].intercalate tss) := by
  induction tss with
  | nil => exact .nil
  | cons ts tss ih =>
    obtain ⟨hts, htss⟩ := List.forall_mem_cons.1 h
    cases tss with
    | nil => simpa using hts
    | cons us tss =>
      rw [List.intercalate_cons_cons]
      exact (hts.append (.cons (fun _ => rfl) .nil)).append (ih htss)

theorem Import.Laid.legible {i : Import} {ts : List Token} (h : Import.Laid i ts) :
    (∀ t ∈ ts, t.isSpellable = true) ∧ Balanced ts := by
  cases h with
  | kept x => exact ⟨by simp [Token.isSpellable], fun _ => rfl⟩
  | renamed hi => exact ⟨by simp [Token.isSpellable, hi], fun _ => rfl⟩

theorem legible_imports {is : List Import} {tss : List (List Token)}
    (h : List.Forall₂ Import.Laid is tss) :
    ∀ ts ∈ tss, (∀ t ∈ ts, t.isSpellable = true) ∧ Balanced ts := by
  induction h with
  | nil => simp
  | cons hi _ ih => exact List.forall_mem_cons.2 ⟨hi.legible, ih⟩

theorem legible_arm {cond : Expr} (h : cond.isPrintable = true) (k : Keyword) (ws : List Nat) :
    Line.Legible ⟨ws, armTokens wrap k cond, cond.height⟩ where
  spellable := by
    simp only [armTokens, List.forall_mem_cons, List.forall_mem_append]
    exact ⟨rfl, Expr.isSpellable_tokens h, by simp [Token.isSpellable]⟩
  balanced := .cons (fun _ => rfl) ((cond.balanced_tokens wrap).append fun _ => rfl)
  nonempty := by simp [armTokens]

theorem legible_define {name : String} {params : List String} (hname : isIdentifier name = true)
    (hparams : params.all isIdentifier = true) (ws : List Nat) :
    Line.Legible ⟨ws, defineTokens name params, 0⟩ where
  spellable := by
    simp only [defineTokens, List.forall_mem_cons, List.forall_mem_append]
    refine ⟨rfl, hname, rfl, isSpellable_intercalate ?_, by simp [Token.isSpellable]⟩
    simpa [Token.isSpellable] using hparams
  balanced := by
    have hps : Balanced ([Token.mark .comma].intercalate (params.map fun x => [.name x])) := by
      refine balanced_intercalate ?_
      simp only [List.mem_map, forall_exists_index, and_imp, forall_apply_eq_imp_iff₂]
      exact fun _ _ _ => rfl
    have hcolon : Balanced [.mark .colon] := fun _ => rfl
    have h := hps.parens.append hcolon
    rw [List.cons_append, List.append_assoc] at h
    exact .cons (fun _ => rfl) (.cons (fun _ => rfl) h)
  nonempty := by simp [defineTokens]

theorem Stmt.Laid.legible {s : Stmt} {ts : List Token} (h : Stmt.Laid wrap s ts)
    (hs : s.isPrintable inFunction = true) (ws : List Nat) (n : Nat) :
    Line.Legible ⟨ws, ts, n⟩ := by
  cases h with
  | expr e p =>
    exact ⟨Expr.isSpellable_tokens hs, e.balanced_tokens wrap, e.tokens_ne_nil wrap⟩
  | assign x e p =>
    simp only [Stmt.isPrintable, Bool.and_eq_true] at hs
    refine ⟨?_, .cons (fun _ => rfl) (.cons (fun _ => rfl) (e.balanced_tokens wrap)), by simp⟩
    simp only [List.forall_mem_cons]
    exact ⟨hs.1, rfl, Expr.isSpellable_tokens hs.2⟩
  | load m p htss =>
    have h : ∀ us ∈ [Token.str m] :: _, (∀ t ∈ us, t.isSpellable = true) ∧ Balanced us :=
      List.forall_mem_cons.2 ⟨⟨by simp [Token.isSpellable], fun _ => rfl⟩, legible_imports htss⟩
    refine ⟨?_, ?_, by simp⟩
    · simp only [List.forall_mem_cons, List.forall_mem_append]
      exact ⟨rfl, rfl, isSpellable_intercalate fun us hus => (h us hus).1,
        by simp [Token.isSpellable]⟩
    · exact .cons (fun _ => rfl) (balanced_intercalate fun us hus => (h us hus).2).parens
  | returnNothing p => exact ⟨by simp [Token.isSpellable], fun _ => rfl, by simp⟩
  | return_ e p =>
    simp only [Stmt.isPrintable, Bool.and_eq_true, Option.all_some] at hs
    refine ⟨?_, .cons (fun _ => rfl) (e.balanced_tokens wrap), by simp⟩
    simp only [List.forall_mem_cons]
    exact ⟨rfl, Expr.isSpellable_tokens hs.2⟩
  | pass => exact ⟨by simp [Token.isSpellable], fun _ => rfl, by simp⟩

/-- The lines of what can be printed can be written. -/
theorem Laid.legible (h : Laid wrap ws φ ls) (hφ : φ.isPrintable inFunction = true) :
    ∀ l ∈ ls, l.Legible := by
  induction h generalizing inFunction with
  | simple h => simpa using h.legible hφ _ _
  | define hw _ ih =>
    simp only [Part.isPrintable, Stmt.isPrintable, Bool.and_eq_true] at hφ
    exact List.forall_mem_cons.2 ⟨legible_define hφ.1.1.1 hφ.1.1.2 _, ih hφ.2⟩
  | while_ hw _ ih =>
    simp only [Part.isPrintable, Stmt.isPrintable, Bool.and_eq_true] at hφ
    exact List.forall_mem_cons.2 ⟨legible_arm hφ.1.1 _ _, ih hφ.2⟩
  | if_ _ ih => exact ih hφ
  | branch hw _ _ ihthen ihelse =>
    simp only [Part.isPrintable, Bool.and_eq_true] at hφ
    exact List.forall_mem_cons.2 ⟨legible_arm hφ.1.1.1 _ _,
      List.forall_mem_append.2 ⟨ihthen hφ.1.2, ihelse hφ.2⟩⟩
  | noElse => simp
  | elif _ ih =>
    simp only [Part.isPrintable, Stmt.isPrintable.blockPrintable, Bool.and_true] at hφ
    exact ih hφ
  | else_ hne hw _ ih =>
    exact List.forall_mem_cons.2
      ⟨⟨by simp [Token.isSpellable], fun _ => rfl, by simp⟩, ih hφ⟩
  | noStmts => simp
  | stmts _ _ ih ihs =>
    simp only [Part.isPrintable, Stmt.isPrintable.blockPrintable, Bool.and_eq_true] at hφ
    exact List.forall_mem_append.2 ⟨ih hφ.1, ihs hφ.2⟩

end ScriptShell
