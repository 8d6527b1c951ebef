import ScriptShell.Proofs.Program.Height
import ScriptShell.Proofs.Program.Line
import ScriptShell.Proofs.Session.File

/-!
# ScriptShell.Proofs.Program.Modes

The two ways to read a text agree. Where no line is indented, the scanner writes the same lexemes
for an expression and for a program; and a program that is one expression statement has no indented
line, since no statement begins with an indentation.

* `not_indent_of_reads`: the lines of an expression statement are not indented.
* `parse_expr_of_program`: a program that is one expression statement is an expression.
* `execute_expr`: executing this statement is evaluating the expression and forgetting its value.
* `modes_agree`: the main theorem.
-/

namespace ScriptShell

/-- The place where the expression that a text is begins. -/
def exprStart (text : String) : Pos :=
  match scan .expression text with
  | .ok ls => here (skipNewlines ls)
  | .error _ => .start

variable {ls rest : List Lexeme} {n : Nat} {inFunction : Bool} {e : Expr} {q : Pos}

/-! ## An expression statement has no layout but line ends -/

theorem expr_of_readSimple (h : readSimple n inFunction ls = .ok (.expr e q, rest)) :
    Expr.read n ls = .ok (e, rest) ∧ q = here ls := by
  rcases readSimple_eq_ok_iff.1 h with ⟨_, -, -, heq⟩ | ⟨-, h⟩ | ⟨-, h⟩ | ⟨-, -, -, h⟩
  · cases heq
  · obtain ⟨-, _, _, -, ⟨-, -, heq⟩ | ⟨-, _, -, heq⟩⟩ := readReturn_eq_ok_iff.1 h <;> cases heq
  · obtain ⟨-, _, _, _, _, _, _, _, -, -, -, -, -, -, heq⟩ := readLoad_eq_ok_iff.1 h
    cases heq
  · rcases readAssignment_eq_ok_iff.1 h with ⟨_, he, -, heq⟩ | ⟨_, _, _, _, _, -, -, -, heq⟩
    · cases heq
      exact ⟨he, rfl⟩
    · cases heq

theorem expr_of_read (h : Stmt.read n inFunction ls = .ok (.expr e q, rest)) :
    ∃ l, Expr.read n ls = .ok (e, l :: rest) ∧ l.token = .newline ∧ q = here ls := by
  rcases readStmtWith_eq_ok_iff.1 h with ⟨-, h⟩ | ⟨hp, h⟩ | ⟨-, h⟩ | ⟨-, -, -, hline⟩
  · obtain ⟨_, _, _, _, _, _, _, _, _, _, -, -, -, -, -, -, -, heq⟩ := readDefine_eq_ok_iff.1 h
    cases heq
  · obtain ⟨l, ls, rfl, -⟩ := (peek_eq_iff (by simp)).1 hp
    obtain ⟨_, _, _, -, ⟨-, _, -, heq⟩ | ⟨_, _, _, _, -, -, -, -, heq⟩ | ⟨-, -, -, heq⟩⟩ :=
      readIf_cons_eq_ok_iff.1 h <;> cases heq
  · obtain ⟨_, _, -, heq⟩ := readWhile_eq_ok_iff.1 h
    cases heq
  · obtain ⟨l, hs, hl⟩ := readLine_eq_ok_iff.1 hline
    obtain ⟨he, hq⟩ := expr_of_readSimple hs
    exact ⟨l, he, hl, hq⟩

/-- Line ends, the tokens of the expression, and line ends again are all that stands before the end
of the input. -/
theorem front_of_reads (h : Reads ls [.expr e q]) :
    ∃ front back rest, ls = front ++ back ∧ (∀ l ∈ front, l.token ≠ .indent) ∧
      peek back = .endOfInput ∧ Expr.read maxNesting (skipNewlines ls) = .ok (e, rest) ∧
      peek (skipNewlines rest) = .endOfInput ∧ q = here (skipNewlines ls) := by
  have hnewlines : ∀ ls : List Lexeme, ∃ ns, ls = ns ++ skipNewlines ls ∧
      ∀ l ∈ ns, l.token ≠ .indent := by
    intro ls
    refine ⟨_, (List.takeWhile_append_dropWhile).symm, fun l hl hindent => ?_⟩
    have hnewline := List.all_eq_true.1 List.all_takeWhile l hl
    simp [hindent] at hnewline
  cases h with
  | more hp hs hrest =>
    rename_i rest
    cases hrest with
    | done hend =>
      obtain ⟨l, he, hl, hq⟩ := expr_of_read hs
      obtain ⟨ts, hts, hwhole, -⟩ := Expr.frames_read (π := id) maxNesting he
      obtain ⟨ns, hns, hns'⟩ := hnewlines ls
      obtain ⟨ms, hms, hms'⟩ := hnewlines rest
      refine ⟨ns ++ (ts ++ l :: ms), skipNewlines rest, l :: rest, ?_, ?_, hend, he, ?_, hq⟩
      · rw [hns, hts]
        simp [← hms]
      · intro x hx hindent
        rcases List.mem_append.1 hx with hx | hx
        · exact hns' x hx hindent
        rcases List.mem_append.1 hx with hx | hx
        · have hinline := hwhole.inline x hx
          rw [hindent] at hinline
          cases hinline
        rcases List.mem_cons.1 hx with rfl | hx
        · cases hl.symm.trans hindent
        · exact hms' x hx hindent
      · rwa [skipNewlines_cons hl]

theorem not_indent_of_reads {us vs : List Lexeme} {l : Lexeme} (h : Reads ls [.expr e q])
    (hls : ls = us ++ l :: vs) (hus : ∀ u ∈ us, u.token ≠ .endOfInput) : l.token ≠ .indent := by
  intro hl
  obtain ⟨front, back, -, hsplit, hfront, hback, -⟩ := front_of_reads h
  rw [hls] at hsplit
  rcases List.append_eq_append_iff.1 hsplit with ⟨xs, rfl, hxs⟩ | ⟨xs, rfl, hxs⟩
  · cases xs with
    | nil =>
      rw [List.nil_append] at hxs
      rw [← hxs, peek, hl] at hback
      cases hback
    | cons x xs =>
      cases hxs
      exact hfront l (by simp) hl
  · cases xs with
    | nil =>
      rw [List.nil_append] at hxs
      rw [hxs, peek, hl] at hback
      cases hback
    | cons x xs =>
      rw [hxs] at hback
      exact hus x (by simp) hback

/-! ## Programs of one expression statement -/

/-- A program that is one expression statement is an expression. -/
theorem parse_expr_of_program {text : String} (hp : Program.parse text = .ok [.expr e q]) :
    Expr.parse text = .ok e ∧ q = exprStart text := by
  obtain ⟨ls, hls, hreads⟩ := Program.parse_eq_ok_iff.1 hp
  have hscan : scan .expression text = .ok ls := by
    rw [← String.ofList_toList (s := text)] at hls ⊢
    obtain ⟨t, ht, hfinish⟩ := Scanner.scan_ofList_eq_ok_iff.1 hls
    have hfresh : Scanner.start.phase.isOuter = true → Scanner.start.Fresh :=
      fun _ => by simp [Scanner.Fresh, Scanner.start]
    rcases Scanner.run_program (s := .start) rfl hfresh ht with
      ⟨hrun, -⟩ | ⟨cs₁, cs₂, u, p, -, hrun, -, hsuffix⟩
    · exact Scanner.scan_ofList_eq_ok_iff.2 ⟨t, hrun, hfinish⟩
    · -- an indented line, behind lexemes that the end of the input is not among
      obtain ⟨ms, hms⟩ := Scanner.finish_of_suffix hfinish hsuffix
      rw [List.reverse_cons, List.append_assoc, List.singleton_append] at hms
      have hinner := (Scanner.Sound.start.run hrun).inner
      exact absurd rfl (not_indent_of_reads hreads hms fun l hl => hinner l (List.mem_reverse.1 hl))
  obtain ⟨-, -, rest, -, -, -, he, hend, hq⟩ := front_of_reads hreads
  exact ⟨Expr.parse_eq_ok_iff.2 ⟨ls, rest, hscan, he, hend⟩, by rw [hq, exprStart, hscan]⟩

/-- A text that is an expression and a program is the program of this one statement. -/
theorem parse_program_of_expr {text : String} {p : Program} (he : Expr.parse text = .ok e)
    (hp : Program.parse text = .ok p) : p = [.expr e (exprStart text)] := by
  obtain ⟨q, rfl⟩ := parse_of_expr he hp
  rw [(parse_expr_of_program hp).2]

/-- An execution that evaluates an expression and forgets its value. -/
def Executed.ofResult (g : Globals Value) : EStateM.Result Halt World Value → Executed
  | .ok _ w => ⟨.ok (), g, w⟩
  | .error e w => ⟨.error e, g, w⟩

/-- Executing an expression statement is evaluating the expression and forgetting its value. -/
theorem execute_expr_eq (ctx : Context) (fuel : Nat) (file : String) (g : Globals Value)
    (e : Expr) (q : Pos) (w : World) :
    execute ctx (fuel + 2) file g [.expr e q] w =
      .ofResult g (evaluate ctx fuel file g e w) := by
  rw [execute_eq, execBlock_expr]
  cases evaluate ctx fuel file g e w <;> rfl

/-! ## Both ways -/

/-- The two ways to read a text agree. A text that is an expression is no other program than this
expression as a statement; a program that is one expression statement is the expression, and is
taken for it where it is typed. So it does not matter that a block is tried as an expression first:
it is the unit that the program would be, or an expression that is evaluated where the program would
execute it as its one statement. -/
theorem modes_agree (file text : String) :
    (∀ e p, parseExpr file text = .ok e → parseProgram file text = .ok p →
      p = [.expr e (exprStart text)]) ∧
    (∀ e q, parseProgram file text = .ok [.expr e q] → parseExpr file text = .ok e ∧
      classifyBlock file text = .ok (.expr e) ∧ classifyLine text = some (.expr e)) ∧
    ∀ p, parseProgram file text = .ok p →
      (classifyBlock file text = .ok (.stmts p) ∧ ∀ e q, p ≠ [.expr e q]) ∨
      ∃ e, classifyBlock file text = .ok (.expr e) ∧ p = [.expr e (exprStart text)] ∧
        ∀ ctx fuel g w, execute ctx (fuel + 2) file g p w =
          .ofResult g (evaluate ctx fuel file g e w) := by
  have hclassify : ∀ {e}, Expr.parse text = .ok e → classifyBlock file text = .ok (.expr e) :=
    fun h => by rw [classifyBlock, h]
  refine ⟨fun e p he hp => ?_, fun e q hp => ?_, fun p hp => ?_⟩
  · exact parse_program_of_expr (ok_of_parseExpr he) (ok_of_parseProgram hp)
  · obtain ⟨he, -⟩ := parse_expr_of_program (ok_of_parseProgram hp)
    exact ⟨parseExpr_eq_ok_iff.2 he, hclassify he, by rw [classifyLine, he]⟩
  · cases he : Expr.parse text with
    | ok e =>
      obtain rfl := parse_program_of_expr he (ok_of_parseProgram hp)
      exact .inr ⟨e, hclassify he, rfl, fun ctx fuel g w => execute_expr_eq ctx fuel file g e _ w⟩
    | error f =>
      refine .inl ⟨by rw [classifyBlock, he, hp]; rfl, ?_⟩
      rintro e q rfl
      rw [(parse_expr_of_program (ok_of_parseProgram hp)).1] at he
      cases he

/-- An expression with line ends in parentheses, between blank lines and comments. -/
def spreadText : String := "# sum\n\nf(\n  1,\n x) \\\n + 2 # done\n\n"

theorem modes_agree_spread : ∃ e,
    parseExpr "t" spreadText = .ok e ∧ parseProgram "t" spreadText = .ok [.expr e ⟨3, 1⟩] ∧
      classifyLine spreadText = some (.expr e) := by
  have hp : parseProgram "t" spreadText = .ok [.expr (.binary .add (.call (.name "f" ⟨3, 1⟩)
      [.int ⟨1, by decide, by decide⟩, .name "x" ⟨5, 2⟩] ⟨3, 2⟩)
      (.int ⟨2, by decide, by decide⟩) ⟨6, 2⟩) ⟨3, 1⟩] := by cbv
  obtain ⟨he, -, hline⟩ := (modes_agree "t" spreadText).2.1 _ _ hp
  exact ⟨_, he, hp, hline⟩

end ScriptShell
