import ScriptShell.Proofs.Program.Idle
import ScriptShell.Proofs.Program.Line

/-!
# ScriptShell.Proofs.Program.Concat

Two programs, one behind the other. Behind a program that ends with a line, every parenthesis is
closed, and the first token behind it closes every block. So what comes behind is read as it is by
itself, further down, and nothing of it goes on with a statement of the first program.

* `Reads.append`, `Reads.behind`: the lexemes of a program, those of another behind them.
* `Scanner.Leveled`: every open block was opened by an indent.
* `Scanner.run_behind`: a text behind another.
* `parseProgram_append`: a program behind another.
-/

namespace ScriptShell

variable {π : Pos → Pos} {n : Nat} {inFunction : Bool}

/-- The place so many lines further down. -/
def Pos.down (n : Nat) (p : Pos) : Pos :=
  ⟨p.line + n, p.col⟩

theorem Pos.moves_down (n : Nat) (p : Pos) : p.Moves (Pos.down n) := by
  refine .of_step (fun p c => ?_) p
  by_cases hc : c = '\n'
  · simp only [down, advance, if_pos hc, Nat.add_right_comm]
  · simp only [down, advance, if_neg hc]

/-! ## Lexemes behind others -/

theorem terminated_of_read {ls rest : List Lexeme} {s : Stmt} (h : Terminated ls)
    (hs : Stmt.read n inFunction ls = .ok (s, rest)) : Terminated rest := by
  have htracked : Tracked id (IsMoved id) (Stmt.mapPos id) (Stmt.read n inFunction ls)
      (Stmt.readOr endBlock n inFunction (movedLexemes id ls)) :=
    tracks_read (looksAlikeBlocks_moved id) 0 ⟨h, rfl⟩
  rw [hs] at htracked
  obtain ⟨-, hrest, -⟩ := htracked.rel
  exact hrest

/-- No parenthesis stands for layout. -/
theorem foldl_layout {us : List Lexeme} (h : ∀ u ∈ us, u.token.isLayout = true) (d : Nat) :
    us.foldl Lexeme.depthAfter d = d := by
  induction us with
  | nil => rfl
  | cons u us ih =>
    have hu : u.depthAfter d = d := by
      have hlayout := h u List.mem_cons_self
      unfold Lexeme.depthAfter
      split
      · rename_i m hm
        rw [hm] at hlayout
        cases hlayout
      · rfl
    rw [List.foldl_cons, hu]
    exact ih fun u hu => h u (List.mem_cons_of_mem _ hu)

theorem foldl_newlines {us : List Lexeme} (h : ∀ u ∈ us, u.token = .newline) (d : Nat) :
    us.foldl Lexeme.depthAfter d = d :=
  foldl_layout (fun u hu => by rw [h u hu]; rfl) d

theorem level_newlines {us : List Lexeme} (h : ∀ u ∈ us, u.token = .newline) : level us = 0 := by
  induction us with
  | nil => rfl
  | cons u us ih =>
    have hu : u.token = .newline := h u List.mem_cons_self
    rw [level_other (by simp [hu]) (by simp [hu])]
    exact ih fun u hu => h u (List.mem_cons_of_mem _ hu)

theorem level_skipNewlines (ls : List Lexeme) : level (skipNewlines ls) = level ls := by
  obtain ⟨us, hus, hls⟩ := exists_skipNewlines ls
  have h := congrArg level hls
  rw [level_append, level_newlines hus, Int.zero_add] at h
  exact h.symm

/-- Every parenthesis of a program is closed. -/
theorem Reads.depth {ls : List Lexeme} {p : Program} (h : Reads ls p) (hls : Terminated ls)
    (d : Nat) : ls.foldl Lexeme.depthAfter d = d := by
  induction h with
  | @done ls hp =>
    obtain ⟨us, hus, hsplit⟩ := exists_skipNewlines ls
    obtain ⟨l, hl⟩ := hls.skipNewlines.eq_singleton hp
    rw [hsplit, List.foldl_append, foldl_newlines hus, hl, List.foldl_cons, List.foldl_nil,
      Lexeme.depthAfter]
    rw [hl] at hp
    rw [show l.token = .endOfInput from hp]
  | @more ls rest s ss hp hs _ ih =>
    obtain ⟨us, hus, hsplit⟩ := exists_skipNewlines ls
    have hrest := ih (terminated_of_read hls.skipNewlines hs)
    obtain ⟨ts, hts, hseg, -⟩ := spans_read (π := id) hs
    rw [hsplit, List.foldl_append, foldl_newlines hus, hts, List.foldl_append, hseg.depth, hrest]

theorem not_continuesIf_of_opensExpr {t : Token} (h : t.opensExpr = true) :
    t.continuesIf = false := by
  unfold Token.opensExpr at h
  split at h <;> first | rfl | cases h

theorem not_continuesIf_of_read {ls rest : List Lexeme} {s : Stmt}
    (h : Stmt.read n inFunction ls = .ok (s, rest)) : (peek ls).continuesIf = false := by
  have hsimple : ∀ {s : Stmt} {rest : List Lexeme},
      readSimple n inFunction ls = .ok (s, rest) → (peek ls).continuesIf = false := by
    intro s rest h
    rcases readSimple_eq_ok_iff.1 h with ⟨o, rfl, ho, -⟩ | ⟨hp, -⟩ | ⟨hp, -⟩ | ⟨-, -, -, h⟩
    · rw [peek, ho]
      rfl
    · rw [hp]
      rfl
    · rw [hp]
      rfl
    · rcases readAssignment_eq_ok_iff.1 h with ⟨e, he, -⟩ | ⟨id, p, a, ls', e, he, -⟩ <;>
        exact not_continuesIf_of_opensExpr (Expr.opensExpr_of_read he)
  rcases readStmtWith_eq_ok_iff.1 h with ⟨hp, -⟩ | ⟨hp, -⟩ | ⟨hp, -⟩ | ⟨-, -, -, hline⟩
  · rw [hp]
    rfl
  · rw [hp]
    rfl
  · rw [hp]
    rfl
  · obtain ⟨l, hs, -⟩ := readLine_eq_ok_iff.1 hline
    exact hsimple hs

/-- No program goes on with an `if`. -/
theorem Reads.not_continuesIf {ls : List Lexeme} {p : Program} (h : Reads ls p) :
    (peek ls).continuesIf = false := by
  by_cases hp : peek ls = .newline
  · rw [hp]
    rfl
  · have hskip := skipNewlines_of_ne hp
    cases h with
    | done hend =>
      rw [hskip] at hend
      rw [hend]
      rfl
    | more _ hs _ =>
      rw [hskip] at hs
      exact not_continuesIf_of_read hs

/-- If every block of a text is closed, so is every block of the statement that it begins with. -/
theorem Segment.level_eq_zero {ts vs : List Lexeme} {l : Lexeme} (h : Segment ts (vs ++ [l]))
    (hended : Terminated (vs ++ [l])) (hlevel : level (ts ++ vs) = 0) : level ts = 0 := by
  rcases h.blocks with hzero | ⟨hlt, hend⟩
  · exact hzero
  · obtain ⟨l', hl'⟩ := hended.eq_singleton hend
    have hnil : vs = [] := by simpa using congrArg List.length hl'
    rw [level_append, hnil, level] at hlevel
    omega

/-- The first statement of a text whose blocks are closed is read in the same way if other lexemes
stand in place of the end of input. -/
theorem read_behind {us us' rest ls : List Lexeme} {l : Lexeme} {s : Stmt}
    (hs : Stmt.read n inFunction (us ++ [l]) = .ok (s, ls)) (hended : Terminated (us ++ [l]))
    (hlevel : level us = 0) (hus : SameText π us us') (hrest : (peek rest).continuesIf = false) :
    ∃ vs vs' s', ls = vs ++ [l] ∧ level vs = 0 ∧ SameText π vs vs' ∧
      Stmt.read n inFunction (us' ++ rest) = .ok (s', vs' ++ rest) ∧ Stmt.Same π s s' := by
  have hls : Terminated ls := terminated_of_read hended hs
  obtain ⟨ts, hts, hseg, hagain⟩ := spans_read (π := π) hs
  obtain ⟨vs, l', rfl⟩ := hls.exists_concat
  obtain ⟨rfl, hl⟩ := List.append_inj' (hts.trans (List.append_assoc _ _ _).symm) rfl
  obtain rfl : l = l' := List.singleton_inj.1 hl
  obtain ⟨ts', vs', rfl, hts', hvs⟩ := hus.of_append
  have hzero : level ts = 0 := hseg.level_eq_zero hls hlevel
  have hfits : Fits ts (vs ++ [l]) (vs' ++ rest) := by
    by_cases hnil : vs = []
    · subst hnil
      cases hvs
      exact .inr ⟨hzero, hrest⟩
    · exact .inl (hvs.peek_append_of_ne hnil _ _)
  obtain ⟨s', hs', hsame⟩ := hagain hts' hfits
  rw [level_append, hzero, Int.zero_add] at hlevel
  rw [← List.append_assoc] at hs'
  exact ⟨vs, vs', s', rfl, hlevel, hvs, hs', hsame⟩

/-- The lexemes of a program whose blocks are closed, and those of another behind them, are the
lexemes of both. -/
theorem Reads.append {ls : List Lexeme} {p : Program} (h : Reads ls p) :
    ∀ {us us' rest : List Lexeme} {l : Lexeme} {q : Program}, ls = us ++ [l] → Terminated ls →
      level us = 0 → SameText π us us' → Reads rest q →
      ∃ p', Reads (us' ++ rest) (p' ++ q) ∧ SameBlock π p p' := by
  induction h with
  | @done ls hp =>
    intro us us' rest l q hls hended _ hus hq
    subst hls
    have hskip : skipNewlines us = [] :=
      skipNewlines_eq_nil (terminated_append_singleton_iff.1 hended).1 hp
    have hskip' : skipNewlines us' = [] := by
      have hsame := hus.skipNewlines
      rw [hskip] at hsame
      exact List.forall₂_nil_left_iff.1 hsame
    exact ⟨[], hq.congr (by rw [skipNewlines_append, if_pos hskip']), .nil⟩
  | @more ls ls₁ s ss hp hs _ ih =>
    intro us us' rest l q hls hended hlevel hus hq
    subst hls
    have hskip : skipNewlines us ≠ [] := by
      intro hnil
      have hl := (terminated_append_singleton_iff.1 hended).2
      rw [skipNewlines_append, if_pos hnil, skipNewlines_of_ne (by simp [peek, hl])] at hp
      exact hp hl
    have hskip' : skipNewlines us' ≠ [] := by
      intro hnil
      have hsame := hus.skipNewlines
      rw [hnil] at hsame
      exact hskip (List.forall₂_nil_right_iff.1 hsame)
    have hended' := hended.skipNewlines
    rw [skipNewlines_append, if_neg hskip] at hs hended'
    obtain ⟨vs, vs', s', rfl, hvs, hsame, hs', hsames⟩ := read_behind hs hended'
      ((level_skipNewlines us).trans hlevel) hus.skipNewlines hq.not_continuesIf
    obtain ⟨ss', hss', hsamess⟩ := ih rfl (terminated_of_read hended' hs) hvs hsame hq
    have hfront : skipNewlines (us' ++ rest) = skipNewlines us' ++ rest := by
      rw [skipNewlines_append, if_neg hskip']
    rw [← hfront] at hs'
    refine ⟨s' :: ss', .more (fun hend => ?_) hs' hss', .cons hsames hsamess⟩
    have hlayout := isLayout_of_read hs'
    rw [hend] at hlayout
    cases hlayout

theorem Reads.moved {ls : List Lexeme} {p : Program} (h : Reads ls p) (hls : Terminated ls) :
    Reads (movedLexemes π ls) (p.map (Stmt.mapPos π)) := by
  refine (readStmts_eq_ok_iff (Nat.le_refl _)).1 ?_
  rw [readStmts_moved hls, (readStmts_eq_ok_iff (Nat.le_refl _)).2 h]
  rfl

/-! ## Open blocks -/

theorem level_reverse (ls : List Lexeme) : level ls.reverse = level ls := by
  induction ls with
  | nil => rfl
  | cons l ls ih =>
    rw [List.reverse_cons, level_append, ih, Int.add_comm, ← level_append]
    rfl

theorem level_outdents (n : Nat) (p : Pos) : level (List.replicate n ⟨.outdent, p⟩) = -n := by
  induction n with
  | zero => rfl
  | succ n ih =>
    rw [List.replicate_succ, level_outdent rfl, ih]
    omega

namespace Scanner

variable {mode : ScanMode} {s t : Scanner} {c : Char} {cs : List Char}

/-- Every open block was opened by an indent, and is deeper than the outermost line. -/
structure Leveled (s : Scanner) : Prop where
  level : level s.lexemes = s.indents.length
  deep : ∀ w ∈ s.indents, 0 < w

namespace Leveled

variable {phase : Phase} {p q : Pos} {tok : Token} {depth : Nat}

theorem start : Leveled start where
  level := rfl
  deep := by simp [Scanner.start]

theorem quiet (h : Leveled s) : Leveled ⟨phase, q, depth, s.indents, s.lexemes⟩ :=
  ⟨h.level, h.deep⟩

theorem write (h : Leveled s) (hin : tok ≠ .indent) (hout : tok ≠ .outdent) :
    Leveled ⟨phase, q, depth, s.indents, ⟨tok, p⟩ :: s.lexemes⟩ where
  level := (level_other hin hout s.lexemes).trans h.level
  deep := h.deep

theorem closed (h : Leveled s) (hclosed : Closed [⟨tok, p⟩]) :
    Leveled ⟨phase, q, depth, s.indents, ⟨tok, p⟩ :: s.lexemes⟩ := by
  have hinline : tok.isLayout = false := hclosed.inline ⟨tok, p⟩ (by simp)
  refine h.write ?_ ?_ <;>
  · rintro rfl
    cases hinline

theorem readInLine (h : Leveled s) (hread : s.readInLine c = .ok t) : Leveled t := by
  rcases readInLine_cases hread with ⟨-, -, rfl⟩ | ⟨_, -, rfl⟩ | ⟨_, rfl⟩
  · exact h.write (by simp) (by simp)
  · exact h.quiet
  · exact h.write (by simp) (by simp)

theorem settle (h : Leveled s) (hs : s.settle = .ok t) : Leveled t := by
  rcases settle_cases hs with ⟨-, rfl⟩ | ⟨_, _, hclosed, rfl⟩
  · exact h
  · exact h.closed hclosed

theorem layout {width : Nat} (h : Leveled s) (hs : s.layout width = .ok t) : Leveled t := by
  have hlevel := h.level
  rcases layout_cases hs with ⟨hlt, rfl⟩ | ⟨-, kept, n, hkept, hlength, rfl⟩
  · refine ⟨?_, List.forall_mem_cons.2 ⟨by omega, h.deep⟩⟩
    show ScriptShell.level (⟨.indent, s.pos⟩ :: s.lexemes) = _
    rw [level_indent rfl, hlevel, List.length_cons]
    omega
  · refine ⟨?_, fun w hw => h.deep w (hkept.subset hw)⟩
    show ScriptShell.level (List.replicate n ⟨.outdent, s.pos⟩ ++ s.lexemes) = kept.length
    rw [level_append, level_outdents, hlevel, hlength]
    omega

theorem step (h : Leveled s) (hs : s.step mode c = .ok t) : Leveled t := by
  rcases step_cases hs with
    ⟨_, -, rfl⟩ | ⟨_, _, hclosed, rfl⟩ | ⟨s', hs, hread⟩ | ⟨-, width, s', -, hs, hread⟩
  · exact h.quiet
  · exact h.closed hclosed
  · exact (h.settle hs).readInLine hread
  · exact (h.layout hs).readInLine hread

theorem run (h : Leveled s) (hs : s.run mode cs = .ok t) : Leveled t :=
  run_induction (fun h _ hs => h.step hs) h hs

end Leveled

/-! ## A text behind another -/

/-- A line that is not indented closes every block. -/
theorem layout_zero (h : ∀ w ∈ s.indents, 0 < w) :
    s.layout 0 = .ok { s with
      indents := []
      lexemes := List.replicate s.indents.length ⟨.outdent, s.pos⟩ ++ s.lexemes } := by
  have hkept : s.indents.dropWhile (fun w => decide (0 < w)) = [] :=
    List.dropWhile_eq_nil_iff.2 fun w hw => by simpa using h w hw
  rw [layout, if_neg (Nat.not_lt_zero _)]
  dsimp only
  rw [hkept]
  rfl

/-- Before the first token of a line, a character goes on with the indentation or a comment, or it
is the first of a token. -/
theorem step_of_outer {phase : Phase} (houter : phase.isOuter = true) (c : Char) :
    (∃ phase', phase'.isOuter = true ∧
      ∀ s : Scanner, s.phase = phase → s.step .program c = .ok (s.move c phase')) ∨
    (∃ width, ∀ s : Scanner, s.phase = phase →
      s.step .program c = (s.layout width).bind (readInLine · c)) := by
  cases phase with
  | lineStart width =>
    by_cases hspace : c = ' '
    · refine .inl ⟨.lineStart (width + 1), rfl, fun s hs => ?_⟩
      rw [step, hs]
      simp only [readLineStart, if_pos hspace]
    by_cases htab : c = '\t'
    · refine .inl ⟨.lineStart (width + (8 - width % 8)), rfl, fun s hs => ?_⟩
      rw [step, hs]
      simp only [readLineStart, if_neg hspace, if_pos htab]
    by_cases hline : (decide (c = '\n') || decide (c = '\r')) = true
    · refine .inl ⟨.lineStart 0, rfl, fun s hs => ?_⟩
      rw [step, hs]
      simp only [readLineStart, if_neg hspace, if_neg htab, if_pos hline]
    by_cases hhash : c = '#'
    · refine .inl ⟨.comment true, rfl, fun s hs => ?_⟩
      rw [step, hs]
      simp only [readLineStart, if_neg hspace, if_neg htab, if_neg hline, if_pos hhash]
    · refine .inr ⟨width, fun s hs => ?_⟩
      rw [step, hs]
      simp only [readLineStart, if_neg hspace, if_neg htab, if_neg hline, if_neg hhash]
      cases s.layout width <;> rfl
  | comment whole =>
    obtain rfl : whole = true := by
      cases whole with
      | true => rfl
      | false => cases houter
    by_cases hline : c = '\n'
    · refine .inl ⟨.lineStart 0, rfl, fun s hs => ?_⟩
      rw [step, hs]
      simp only [if_pos hline, if_true]
    · refine .inl ⟨.comment true, rfl, fun s hs => ?_⟩
      rw [step, hs]
      simp only [if_neg hline]
  | _ => cases houter

theorem readInLine_run_moved {before : List Lexeme} {u : Scanner} (h : s.pos.Moves π)
    (hs : s.readInLine c = .ok t) (ht : t.run mode cs = .ok u) :
    ((s.moved π before).readInLine c).bind (run mode · cs) = .ok (u.moved π before) := by
  have hpos : t.pos.Moves π := by
    rw [readInLine_pos hs]
    exact h.advance c
  rw [readInLine_moved (h.step c), hs]
  show (t.moved π before).run mode cs = _
  rw [run_moved hpos, ht]
  rfl

/-- Up to its first token a text is read behind another as it is by itself. The first token closes
every block of the other, and what comes then is read as it is by itself too. Unless it is indented:
no program begins so. -/
theorem run_behind (n : Nat) {indents : List Nat} (lexemes : List Lexeme) {phase : Phase} {p : Pos}
    {u : Scanner} (hdeep : ∀ w ∈ indents, 0 < w) (houter : phase.isOuter = true)
    (h : (⟨phase, p, 0, [], []⟩ : Scanner).run .program cs = .ok u) :
    (∃ phase' p', phase'.isOuter = true ∧ u = ⟨phase', p', 0, [], []⟩ ∧
      (⟨phase, p.down n, 0, indents, lexemes⟩ : Scanner).run .program cs =
        .ok ⟨phase', p'.down n, 0, indents, lexemes⟩) ∨
    (∃ q, (⟨phase, p.down n, 0, indents, lexemes⟩ : Scanner).run .program cs =
      .ok (u.moved (Pos.down n) (List.replicate indents.length ⟨.outdent, q⟩ ++ lexemes))) ∨
    (∃ q, [⟨.indent, q⟩] <:+ u.lexemes) := by
  induction cs generalizing phase p with
  | nil =>
    cases h
    exact .inl ⟨phase, p, houter, rfl, rfl⟩
  | cons c cs ih =>
    have hdown : (p.advance c).down n = (p.down n).advance c := (Pos.moves_down n p).step c
    obtain ⟨s, hs, hrun⟩ := run_cons_eq_ok_iff.1 h
    rw [run_cons]
    rcases step_of_outer houter c with ⟨phase', houter', hstep⟩ | ⟨width, hstep⟩
    · rw [hstep ⟨phase, p, 0, [], []⟩ rfl] at hs
      cases hs
      rw [hstep ⟨phase, p.down n, 0, indents, lexemes⟩ rfl]
      have hnext := ih (p := p.advance c) houter' hrun
      rw [hdown] at hnext
      exact hnext
    · rw [hstep ⟨phase, p, 0, [], []⟩ rfl] at hs
      rw [hstep ⟨phase, p.down n, 0, indents, lexemes⟩ rfl]
      obtain ⟨b, hb, hread⟩ : ∃ b, Scanner.layout ⟨phase, p, 0, [], []⟩ width = .ok b ∧
          b.readInLine c = .ok s := bind_eq_ok_iff.1 hs
      rcases Nat.eq_zero_or_pos width with rfl | hwidth
      · rw [layout_zero (by simp)] at hb
        cases hb
        have hphase : phase.mapPos (Pos.down n) = phase := by
          cases phase <;> first | rfl | cases houter
        have hbare : ∀ before : List Lexeme, (⟨phase, p.down n, 0, [], before⟩ : Scanner) =
            moved (Pos.down n) before ⟨phase, p, 0, [], []⟩ := by
          intro before
          rw [moved, hphase]
          rfl
        refine .inr (.inl ⟨p.down n, ?_⟩)
        rw [layout_zero hdeep]
        show (Scanner.readInLine ⟨phase, p.down n, 0, [], _⟩ c).bind _ = _
        rw [hbare]
        exact readInLine_run_moved (Pos.moves_down n p) hread hrun
      · have hindent : b.lexemes = [⟨.indent, p⟩] := by
          rw [layout, if_pos (show Scanner.indent ⟨phase, p, 0, [], []⟩ < width from hwidth)] at hb
          cases hb
          rfl
        exact .inr (.inr ⟨p, hindent ▸ (readInLine_grows hread).trans (run_grows hrun)⟩)

theorem isLayout_of_closing {l : Lexeme} (hl : l ∈ s.closing) : l.token.isLayout = true := by
  by_cases hfresh : s.Fresh
  · rw [closing_of_fresh hfresh, ending, List.mem_append, List.mem_singleton] at hl
    rcases hl with hl | rfl
    · rw [List.eq_of_mem_replicate hl]
      rfl
    · rfl
  · rw [closing_of_not_fresh hfresh, ending, List.mem_cons, List.mem_append,
      List.mem_singleton] at hl
    rcases hl with rfl | hl | rfl
    · rfl
    · rw [List.eq_of_mem_replicate hl]
      rfl
    · rfl

/-- Behind a program that ends with a line the machine is where a line begins, and no parenthesis is
open. -/
theorem ended_of_reads {ls : List Lexeme} {p : Program} (hends : EndsLine cs)
    (hs : start.run .program cs = .ok s) (hls : s.finish = .ok ls) (hp : Reads ls p) :
    s = ⟨.lineStart 0, Pos.start.down (cs.count '\n'), 0, s.indents, s.lexemes⟩ ∧ s.Fresh ∧
      ls = s.lexemes.reverse ++ s.ending := by
  have hphase := phase_of_endsLine hends hs
  have hsettle : s.settle = .ok s := by
    rw [settle]
    rcases hphase with hphase | ⟨hphase, -⟩ <;> rw [hphase]
  obtain ⟨-, u, hu, rfl⟩ := finish_eq_ok_iff.1 hls
  rw [hsettle] at hu
  cases hu
  have hsound := Sound.start.run hs
  have hdepth : s.depth = 0 := by
    have hended : Terminated (s.lexemes.reverse ++ s.closing) :=
      terminated_append (fun l hl => hsound.inner l (List.mem_reverse.1 hl)) s.terminated_closing
    have hzero := hp.depth hended 0
    rw [List.foldl_append, ← hsound.depth,
      foldl_layout fun l hl => isLayout_of_closing hl] at hzero
    exact hzero
  have hphase : s.phase = .lineStart 0 := hphase.resolve_right fun h => h.2 hdepth
  have hfresh : s.Fresh := fresh_of_run hs (by rw [hphase]; rfl)
  refine ⟨?_, hfresh, by rw [closing_of_fresh hfresh]⟩
  have hpos : s.pos = Pos.start.down (cs.count '\n') := by
    rw [run_pos hs]
    exact (Pos.start_advanceBy hends).trans (congrArg (Pos.mk · 1) (Nat.add_comm _ _))
  rw [← hphase, ← hdepth, ← hpos]

end Scanner

theorem sameText_outdents (n : Nat) (p q : Pos) :
    SameText π (List.replicate n ⟨.outdent, p⟩) (List.replicate n ⟨.outdent, q⟩) := by
  induction n with
  | zero => exact .nil
  | succ n ih => exact .cons (Scanner.rel_layout rfl) ih

/-- If the blocks of a program are closed elsewhere, and empty lines and the lexemes of another
program come behind them, they are the lexemes of both. -/
theorem Reads.behind {us gap ms : List Lexeme} {n : Nat} {place place' : Pos} {p q : Program}
    (hp : Reads (us ++ (List.replicate n ⟨.outdent, place⟩ ++ [⟨.endOfInput, place⟩])) p)
    (hinner : ∀ u ∈ us, u.token ≠ .endOfInput) (hlevel : level us = n)
    (hgap : ∀ u ∈ gap, u.token = .newline) (hq : Reads ms q) :
    Reads (us ++ List.replicate n ⟨.outdent, place'⟩ ++ (gap ++ ms)) (p ++ q) := by
  have hrest : Reads (gap ++ ms) q := hq.congr (skipNewlines_newlines hgap).symm
  have hended :
      Terminated (us ++ List.replicate n ⟨.outdent, place⟩ ++ [⟨.endOfInput, place⟩]) := by
    refine terminated_append_singleton_iff.2 ⟨fun u hu => ?_, rfl⟩
    rcases List.mem_append.1 hu with hu | hu
    · exact hinner u hu
    · rw [List.eq_of_mem_replicate hu]
      exact nofun
  have hclosed : level (us ++ List.replicate n ⟨.outdent, place⟩) = 0 := by
    rw [level_append, level_outdents, hlevel]
    omega
  obtain ⟨p', hreads, hsame⟩ := hp.append (List.append_assoc _ _ _).symm
    (List.append_assoc us _ _ ▸ hended) hclosed
    (Scanner.sameText_append (.refl (π := id) us) (sameText_outdents n place place')) hrest
  rw [eq_of_sameBlock hsame]
  exact hreads

/-! ## Programs -/

section Texts

variable {cs ds : List Char} {p q : Program} {s : Scanner}

/-- Behind a program, a text without a token is no program, and the end of the input closes the
blocks further down. -/
theorem parse_of_idle {phase : Phase} {place place' : Pos} {ms : List Lexeme}
    (houter : phase.isOuter = true) (hfresh : s.Fresh)
    (hp : Reads (s.lexemes.reverse ++ s.ending) p)
    (hms : (⟨phase, place, 0, [], []⟩ : Scanner).finish = .ok ms) (hq : Reads ms q)
    (hrun : Scanner.start.run .program cs = .ok ⟨phase, place', 0, s.indents, s.lexemes⟩) :
    q = [] ∧ Program.parse (String.ofList cs) = .ok p := by
  constructor
  · obtain ⟨-, v, hv, rfl⟩ := Scanner.finish_eq_ok_iff.1 hms
    rw [Scanner.settle_of_outer houter] at hv
    cases hv
    cases hq with
    | done _ => rfl
    | more hne _ _ => exact absurd rfl hne
  · have hbroken : phase.isBroken = false := by
      cases phase <;> first | rfl | cases houter
    have hfresh' : Scanner.Fresh ⟨phase, place', 0, s.indents, s.lexemes⟩ := hfresh
    obtain ⟨r, hr, hsame⟩ := hp.same (π := id) (Scanner.sameText_append (.refl _)
      (Scanner.sameText_ending (s := s) (t := ⟨phase, place', 0, s.indents, s.lexemes⟩) rfl))
    refine Program.parse_eq_ok_iff.2 ⟨_, Scanner.scan_ofList_eq_ok_iff.2 ⟨_, hrun,
      Scanner.finish_eq_ok_iff.2 ⟨hbroken, _, Scanner.settle_of_outer houter, rfl⟩⟩, ?_⟩
    rw [Scanner.closing_of_fresh hfresh', eq_of_sameBlock hsame]
    exact hr

theorem Program.parse_append (hends : EndsLine cs)
    (hp : Program.parse (String.ofList cs) = .ok p)
    (hq : Program.parse (String.ofList ds) = .ok q) :
    Program.parse (String.ofList (cs ++ ds)) =
      .ok (p ++ q.map (Stmt.mapPos (Pos.down (cs.count '\n')))) := by
  obtain ⟨ls, hls, hreads⟩ := Program.parse_eq_ok_iff.1 hp
  obtain ⟨s, hs, hfinish⟩ := Scanner.scan_ofList_eq_ok_iff.1 hls
  obtain ⟨ms, hms, hreads'⟩ := Program.parse_eq_ok_iff.1 hq
  obtain ⟨u, hu, hfinish'⟩ := Scanner.scan_ofList_eq_ok_iff.1 hms
  obtain ⟨hsplit, hfresh, rfl⟩ := Scanner.ended_of_reads hends hs hfinish hreads
  have hleveled := Scanner.Leveled.start.run hs
  have hrun : ∀ {v : Scanner}, Scanner.run .program
      ⟨.lineStart 0, Pos.start.down (cs.count '\n'), 0, s.indents, s.lexemes⟩ ds = .ok v →
      Scanner.start.run .program (cs ++ ds) = .ok v := by
    intro v hv
    exact Scanner.run_append_eq_ok_iff.2 ⟨s, hs, by rw [hsplit]; exact hv⟩
  rcases Scanner.run_behind (cs.count '\n') s.lexemes hleveled.deep rfl hu with
    ⟨phase, place, houter, rfl, hv⟩ | ⟨place, hv⟩ | ⟨place, hindent⟩
  · obtain ⟨rfl, hparse⟩ := parse_of_idle houter hfresh hreads hfinish' hreads' (hrun hv)
    rw [List.map_nil, List.append_nil]
    exact hparse
  · -- the first token behind the first program closes its blocks
    obtain ⟨gap, hlexemes, hgap, -⟩ := Scanner.finish_behind (π := Pos.down (cs.count '\n'))
      (List.replicate s.indents.length ⟨.outdent, place⟩ ++ s.lexemes) hfinish'
    refine Program.parse_eq_ok_iff.2 ⟨_,
      Scanner.scan_ofList_eq_ok_iff.2 ⟨_, hrun hv, hlexemes⟩, ?_⟩
    rw [List.reverse_append, List.reverse_replicate]
    refine hreads.behind (fun l hl => ?_) ?_ hgap (hreads'.moved (terminated_of_scan hms))
    · exact (Scanner.Sound.start.run hs).inner l (List.mem_reverse.1 hl)
    · exact (level_reverse _).trans hleveled.level
  · -- no program begins with an indented line
    rw [← List.append_nil ds] at hq
    exact absurd hindent (Scanner.not_indent_of_parse hq hu)

end Texts

/-- A program behind another that ends with a line: the statements of both, those of the second as
many lines further down as the first one has. -/
theorem parseProgram_append (file : String) {first second : String} {p q : Program}
    (hends : EndsLine first.toList) (hp : parseProgram file first = .ok p)
    (hq : parseProgram file second = .ok q) :
    parseProgram file (first ++ second) =
      .ok (p ++ q.map (Stmt.mapPos (Pos.down (first.toList.count '\n')))) := by
  have hboth := Program.parse_append hends
    (by rw [String.ofList_toList]; exact parseProgram_eq_ok_iff.1 hp)
    (by rw [String.ofList_toList]; exact parseProgram_eq_ok_iff.1 hq)
  rw [String.ofList_append, String.ofList_toList, String.ofList_toList] at hboth
  exact parseProgram_eq_ok_iff.2 hboth

theorem parseProgram_append_block :
    EndsLine "def f(x):\n  if x:\n    return x\n".toList ∧
      parseProgram "t" ("def f(x):\n  if x:\n    return x\n" ++ "# c\ny = f(z)\n") =
        .ok [.define "f" ["x"] [.if_ (.name "x" ⟨2, 6⟩)
          [.return_ (some (.name "x" ⟨3, 12⟩)) ⟨3, 5⟩] [] ⟨2, 3⟩] ⟨1, 1⟩,
          .assign "y" (.call (.name "f" ⟨5, 5⟩) [.name "z" ⟨5, 7⟩] ⟨5, 6⟩) ⟨5, 1⟩] := by
  have hends : EndsLine "def f(x):\n  if x:\n    return x\n".toList :=
    .inr ⟨"def f(x):\n  if x:\n    return x".toList, by simp, by simp [Text.backslash]⟩
  have hcount : "def f(x):\n  if x:\n    return x\n".toList.count '\n' = 3 := by simp
  have hfirst : parseProgram "t" "def f(x):\n  if x:\n    return x\n" =
      .ok [.define "f" ["x"] [.if_ (.name "x" ⟨2, 6⟩)
        [.return_ (some (.name "x" ⟨3, 12⟩)) ⟨3, 5⟩] [] ⟨2, 3⟩] ⟨1, 1⟩] := by cbv
  have hsecond : parseProgram "t" "# c\ny = f(z)\n" =
      .ok [.assign "y" (.call (.name "f" ⟨2, 5⟩) [.name "z" ⟨2, 7⟩] ⟨2, 6⟩) ⟨2, 1⟩] := by cbv
  refine ⟨hends, ?_⟩
  rw [parseProgram_append "t" hends hfirst hsecond, hcount]
  rfl

end ScriptShell
