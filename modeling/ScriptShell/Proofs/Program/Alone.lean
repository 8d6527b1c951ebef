import ScriptShell.Proofs.Program.Returns
import ScriptShell.Proofs.Session.Typed

/-!
# ScriptShell.Proofs.Program.Alone

A line that is complete by itself, and the block of this one line. The text of the block has a line
end more, and is tried as an expression again before it is taken for statements. Neither matters:
what holds a token is closed by a line end anyway, and a text that is a binding is no expression.

* `Scanner.scan_line_ended`: a line with a token in it, and the line ended.
* `Expr.parse_line_ended`, `Program.parse_line_ended`: the trees, places included.
* `classifyBlock_start`: the unit of the line is the unit of the block.
-/

namespace ScriptShell

variable {line : List Char} {ls : List Lexeme}

namespace Scanner

variable {mode : ScanMode} {t : Scanner}

/-- Where a line has a token, a line end behind it is the one that closes the text. -/
theorem scan_line_ended (hrun : start.run mode line = .ok t) (hinline : t.Inline)
    (hfinish : t.finish = .ok ls) (htoken : (peek ls).isLayout = false) :
    ∃ ls', scan mode (String.ofList (line ++ ['\n'])) = .ok ls' ∧ SameText id ls ls' := by
  have hloose : ¬((t.phase = .inLine ∨ t.phase = .comment false) ∧ t.Fresh) := by
    intro ⟨hphase, hfresh⟩
    obtain ⟨-, u, hu, rfl⟩ := finish_eq_ok_iff.1 hfinish
    have hsettle : t.settle = .ok t := by
      rw [settle]
      rcases hphase with hphase | hphase <;> rw [hphase]
    rw [hsettle] at hu
    cases hu
    -- without a token the text is its closing lexemes alone
    cases hlexemes : t.lexemes with
    | nil =>
      rw [hlexemes, closing_of_fresh hfresh, ending] at htoken
      cases hindents : t.indents <;>
        simp [hindents, List.replicate_succ, peek, Token.isLayout] at htoken
    | cons l ls =>
      have hl := hinline l (by simp [hlexemes])
      rw [hfresh l (by simp [hlexemes])] at hl
      cases hl
  obtain ⟨t', ls', hstep, hls', hsame⟩ := finish_lineEnd hfinish hloose
  refine ⟨ls', scan_ofList_eq_ok_iff.2 ⟨t', run_append_eq_ok_iff.2 ⟨t, hrun, ?_⟩, hls'⟩, hsame⟩
  exact run_cons_eq_ok_iff.2 ⟨t', hstep, rfl⟩

theorem run_expression_indents {s : Scanner} (h : s.run .expression line = .ok t) :
    t.indents = s.indents :=
  run_induction (P := fun t => t.indents = s.indents)
    (fun hs _ hstep => (step_indents hstep).trans hs) rfl h

end Scanner

open Scanner

theorem isLayout_of_opensExpr {t : Token} (h : t.opensExpr = true) : t.isLayout = false := by
  unfold Token.opensExpr at h
  split at h <;> first | rfl | cases h

/-- The line ended is the same expression. -/
theorem Expr.parse_line_ended {e : Expr} (hline : '\n' ∉ line)
    (he : Expr.parse (String.ofList line) = .ok e) :
    Expr.parse (String.ofList (line ++ ['\n'])) = .ok e := by
  obtain ⟨ls, rest, hls, hread, hend⟩ := Expr.parse_eq_ok_iff.1 he
  obtain ⟨t, hrun, hfinish⟩ := scan_ofList_eq_ok_iff.1 hls
  have hinline := run_inline hline start_inline hrun
  have hskip := skipNewlines_line hinline (run_expression_indents hrun) hfinish
  have htoken : (peek ls).isLayout = false := by
    rw [← hskip]
    exact isLayout_of_opensExpr (Expr.opensExpr_of_read hread)
  obtain ⟨ls', hls', hsame⟩ := scan_line_ended hrun hinline hfinish htoken
  obtain ⟨-, e', rest', hread', he', hrest⟩ :=
    (Expr.frames_read maxNesting).carries hsame.skipNewlines hread
  rw [Expr.eq_of_same he']
  exact Expr.parse_eq_ok_iff.2 ⟨ls', rest', hls', hread', hrest.skipNewlines.peek_eq.trans hend⟩

/-- The line ended is the same statements. -/
theorem Program.parse_line_ended {s : Stmt} {p : Program} (hline : '\n' ∉ line)
    (hp : Program.parse (String.ofList line) = .ok (s :: p)) :
    Program.parse (String.ofList (line ++ ['\n'])) = .ok (s :: p) := by
  obtain ⟨ls, hls, hreads⟩ := Program.parse_eq_ok_iff.1 hp
  obtain ⟨t, hrun, hfinish⟩ := scan_ofList_eq_ok_iff.1 hls
  have hp' : Program.parse (String.ofList (line ++ [])) = .ok (s :: p) := by
    rwa [List.append_nil]
  obtain ⟨-, hindents, hinline⟩ := run_first_line hline hp' hrun
  have htoken : (peek ls).isLayout = false := by
    cases hreads with
    | more _ hread _ =>
      rw [skipNewlines_line hinline hindents hfinish] at hread
      exact isLayout_of_read hread
  obtain ⟨ls', hls', hsame⟩ := scan_line_ended hrun hinline hfinish htoken
  obtain ⟨p', hreads', hsame'⟩ := hreads.same hsame
  rw [eq_of_sameBlock hsame']
  exact Program.parse_eq_ok_iff.2 ⟨ls', hls', hreads'⟩

theorem PendingBlock.text_start (line : String) :
    (PendingBlock.start line).text = line ++ "\n" := by
  simp [PendingBlock.start, PendingBlock.text, String.join]

/-- A line that is complete by itself means the same as the block of this one line: it is the same
expression, or the same binding, places included. -/
theorem classifyBlock_start (file line : String) {u : InputUnit} (hline : '\n' ∉ line.toList)
    (h : classifyLine line = some u) :
    classifyBlock file (PendingBlock.start line).text = .ok u := by
  have htext : (PendingBlock.start line).text = String.ofList (line.toList ++ ['\n']) := by
    apply String.toList_injective
    rw [PendingBlock.text_start, String.toList_ofList, String.toList_append]
    rfl
  rw [htext]
  unfold classifyLine at h
  rw [← String.ofList_toList (s := line)] at h
  split at h
  · rename_i e he
    cases h
    rw [classifyBlock, Expr.parse_line_ended hline he]
  · split at h
    · rename_i p hp
      split at h
      · rename_i hsingle
        cases h
        obtain ⟨s, rfl, hs⟩ := eq_singleton_of_isSingleBinding hsingle
        have hended := Program.parse_line_ended hline hp
        unfold classifyBlock
        split
        · rename_i e he
          -- an expression would make an expression statement of the binding
          obtain ⟨q, hq⟩ := parse_of_expr he hended
          cases hq
          exact absurd rfl hs
        · rw [parseProgram, hended]
          rfl
      · cases h
    · cases h

/-- An assignment, with parentheses and a comment. -/
theorem classifyBlock_start_binding :
    '\n' ∉ "x = (f(1)) # done".toList ∧ ∃ u, classifyLine "x = (f(1)) # done" = some u ∧
      classifyBlock "t" (PendingBlock.start "x = (f(1)) # done").text = .ok u := by
  have hline : '\n' ∉ "x = (f(1)) # done".toList := by decide
  have hu : classifyLine "x = (f(1)) # done" = some (.stmts [.assign "x"
      (.call (.name "f" ⟨1, 6⟩) [.int ⟨1, by decide, by decide⟩] ⟨1, 7⟩) ⟨1, 1⟩]) := by cbv
  exact ⟨hline, _, hu, classifyBlock_start "t" _ hline hu⟩

end ScriptShell
