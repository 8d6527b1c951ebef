import ScriptShell.Proofs.Expr.Frame

/-!
# ScriptShell.Proofs.Token.Scan

What the scanner does, step by step. A step moves on quietly, or writes a token, or writes the
token that has just ended and reads the character behind it; in a program, it may open or close
blocks before.

* `Scanner.step_cases`: what a step can do.
* `Scanner.Fresh`: no token since the last line end.
* `Scanner.Sound`: what holds of the machine all along.
* `Scanner.run_program`: programs and expressions are read alike up to the first indented line.
-/

namespace ScriptShell

/-- Is a line about to begin, or one that holds a comment only about to end? -/
def Phase.isOuter : Phase → Bool
  | .lineStart _ | .comment true => true
  | _ => false

/-- Is a token read to which more characters may belong? -/
def Phase.isPending : Phase → Bool
  | .word .. | .number .. | .pair .. => true
  | _ => false

namespace Scanner

variable {mode : ScanMode} {s t : Scanner} {c : Char} {cs : List Char}

/-! ## What a step can do -/

theorem readInLine_cases (h : s.readInLine c = .ok t) :
    (c = '\n' ∧ s.depth = 0 ∧ t = (s.emit s.pos .newline).move c (.lineStart 0)) ∨
    (∃ phase, phase.isOuter = false ∧ t = s.move c phase) ∨
    (∃ m, t = { (s.emit s.pos (.mark m)).move c .inLine with depth := depthAfter s.depth m }) := by
  unfold readInLine at h
  split at h
  · rename_i hc
    split at h <;> cases h
    · exact .inl ⟨hc, ‹_›, rfl⟩
    · exact .inr (.inl ⟨_, rfl, rfl⟩)
  repeat' split at h
  all_goals cases h
  all_goals first
    | exact .inr (.inl ⟨_, rfl, rfl⟩)
    | exact .inr (.inr ⟨_, rfl⟩)

theorem closed_wordToken (word : String) (p : Pos) : Closed [⟨wordToken word, p⟩] := by
  unfold wordToken
  refine .single ?_ ?_ ?_ <;> dsimp only <;> split <;> simp [Token.isLayout]

theorem closed_lone {d : Char} {m : Mark} (h : Mark.lone? d = some m) (p : Pos) :
    Closed [⟨.mark m, p⟩] := by
  unfold Mark.lone? at h
  repeat' split at h
  all_goals cases h
  all_goals exact .single rfl (by simp) (by simp)

theorem closed_pair {d e : Char} {m : Mark} (h : Mark.pair? d e = some m) (p : Pos) :
    Closed [⟨.mark m, p⟩] := by
  unfold Mark.pair? at h
  repeat' split at h
  all_goals cases h
  all_goals exact .single rfl (by simp) (by simp)

theorem settle_cases (h : s.settle = .ok t) :
    (s.phase.isPending = false ∧ t = s) ∨
      ∃ p tok, Closed [⟨tok, p⟩] ∧ t = { s.emit p tok with phase := .inLine } := by
  unfold settle at h
  split at h
  · cases h
    exact .inr ⟨_, _, closed_wordToken _ _, rfl⟩
  · split at h <;> cases h
    exact .inr ⟨_, _, .single rfl (by simp) (by simp), rfl⟩
  · split at h <;> cases h
    exact .inr ⟨_, _, closed_lone ‹_› _, rfl⟩
  · rename_i hword hnumber hpair
    cases h
    refine .inl ⟨?_, rfl⟩
    unfold Phase.isPending
    split
    · exact absurd ‹_› (hword _ _)
    · exact absurd ‹_› (hnumber _ _)
    · exact absurd ‹_› (hpair _ _)
    · rfl

theorem settleAndRead_eq_ok_iff :
    s.settleAndRead c = .ok t ↔ ∃ s', s.settle = .ok s' ∧ s'.readInLine c = .ok t := by
  unfold settleAndRead
  cases s.settle <;> simp

/-- A step moves on quietly, or writes a string or a mark of two characters, or reads a character
behind what has just ended. In a program it may do so behind the indentation of a line. -/
theorem step_cases (h : s.step mode c = .ok t) :
    (∃ phase, (phase.isOuter = true → s.phase.isOuter = true) ∧ t = s.move c phase) ∨
    (∃ p tok, Closed [⟨tok, p⟩] ∧ t = (s.emit p tok).move c .inLine) ∨
    (∃ s', s.settle = .ok s' ∧ s'.readInLine c = .ok t) ∨
    (mode = .program ∧ ∃ width s', s.phase = .lineStart width ∧ s.layout width = .ok s' ∧
      s'.readInLine c = .ok t) := by
  unfold step at h
  split at h
  · rename_i width hphase
    have houter : s.phase.isOuter = true := by rw [hphase]; rfl
    have hsettle : s.settle = .ok s := by rw [settle, hphase]
    unfold readLineStart at h
    repeat' split at h
    all_goals first
      | (cases h; exact .inl ⟨_, fun _ => houter, rfl⟩)
      | exact .inr (.inr (.inl ⟨s, hsettle, h⟩))
      | skip
    · exact .inr (.inr (.inr ⟨rfl, width, _, hphase, ‹_›, h⟩))
    · cases h
  · rename_i hphase
    exact .inr (.inr (.inl ⟨s, by rw [settle, hphase], h⟩))
  · rename_i whole hphase
    have hsettle : s.settle = .ok s := by rw [settle, hphase]
    repeat' split at h
    · cases h
      exact .inl ⟨_, fun _ => by rw [hphase]; simp_all [Phase.isOuter], rfl⟩
    · exact .inr (.inr (.inl ⟨s, hsettle, h⟩))
    · cases h
      exact .inl ⟨_, id, rfl⟩
  · split at h <;> cases h
    exact .inl ⟨_, fun h => absurd h (by decide), rfl⟩
  · split at h
    · cases h
      exact .inl ⟨_, fun h => absurd h (by simp [Phase.isOuter]), rfl⟩
    · exact .inr (.inr (.inl (settleAndRead_eq_ok_iff.1 h)))
  · split at h
    · cases h
      exact .inl ⟨_, fun h => absurd h (by simp [Phase.isOuter]), rfl⟩
    · exact .inr (.inr (.inl (settleAndRead_eq_ok_iff.1 h)))
  · split at h
    · cases h
      exact .inr (.inl ⟨_, _, closed_pair ‹_› _, rfl⟩)
    · exact .inr (.inr (.inl (settleAndRead_eq_ok_iff.1 h)))
  · repeat' split at h
    all_goals cases h
    · exact .inr (.inl ⟨_, _, .single rfl (by simp) (by simp), rfl⟩)
    · exact .inl ⟨_, fun h => absurd h (by simp [Phase.isOuter]), rfl⟩
    · exact .inl ⟨_, fun h => absurd h (by simp [Phase.isOuter]), rfl⟩
  · split at h <;> cases h
    exact .inl ⟨_, fun h => absurd h (by simp [Phase.isOuter]), rfl⟩

theorem backslash_of_readInLine {p : Pos} (h : s.readInLine c = .ok t)
    (ht : t.phase = .continued p) : c = Text.backslash := by
  unfold readInLine at h
  repeat' split at h
  all_goals cases h
  all_goals first
    | assumption
    | cases ht

/-- The machine is behind a backslash only when it has just read one. -/
theorem backslash_of_step {p : Pos} (h : s.step mode c = .ok t) (ht : t.phase = .continued p) :
    c = Text.backslash := by
  have hread : ∀ {s' : Scanner}, s'.readInLine c = .ok t → c = Text.backslash :=
    fun h => backslash_of_readInLine h ht
  have hsettle : s.settleAndRead c = .ok t → c = Text.backslash := by
    intro h
    obtain ⟨_, -, h⟩ := settleAndRead_eq_ok_iff.1 h
    exact hread h
  unfold step readLineStart at h
  repeat' split at h
  all_goals first
    | exact hread h
    | exact hsettle h
    | (cases h; done)
    | (cases h; cases ht)
    | (cases h; simp_all [move])

/-- A line opens a block, or closes some, with an outdent for each. -/
theorem layout_cases {width : Nat} (h : s.layout width = .ok t) :
    (s.indent < width ∧ t = { s.emit s.pos .indent with indents := width :: s.indents }) ∨
    (width ≤ s.indent ∧ ∃ kept n, kept <:+ s.indents ∧ s.indents.length = n + kept.length ∧
      t = { s with
        indents := kept, lexemes := List.replicate n ⟨.outdent, s.pos⟩ ++ s.lexemes }) := by
  unfold layout at h
  dsimp only at h
  split at h
  · cases h
    exact .inl ⟨‹_›, rfl⟩
  · split at h <;> cases h
    have hkept := List.dropWhile_suffix (l := s.indents) fun w => decide (width < w)
    have hlength := hkept.length_le
    exact .inr ⟨by omega, _, _, hkept, by omega, rfl⟩

/-! ## What a run keeps -/

theorem run_nil : s.run mode [] = .ok s := rfl

theorem run_cons : s.run mode (c :: cs) = (s.step mode c).bind (fun s' => s'.run mode cs) := rfl

theorem run_cons_eq_ok_iff :
    s.run mode (c :: cs) = .ok t ↔ ∃ s', s.step mode c = .ok s' ∧ s'.run mode cs = .ok t := by
  rw [run_cons]
  cases s.step mode c <;> simp [Except.bind]

theorem run_append_eq_ok_iff {ds : List Char} :
    s.run mode (cs ++ ds) = .ok t ↔ ∃ s', s.run mode cs = .ok s' ∧ s'.run mode ds = .ok t := by
  rw [run_append]
  cases s.run mode cs <;> simp [Except.bind]

/-- What every step keeps, a run keeps. -/
theorem run_induction {P : Scanner → Prop}
    (hstep : ∀ {s c t}, P s → c ∈ cs → s.step mode c = .ok t → P t) (hs : P s)
    (h : s.run mode cs = .ok t) : P t := by
  induction cs generalizing s with
  | nil =>
    cases h
    exact hs
  | cons c cs ih =>
    obtain ⟨s', hs', h⟩ := run_cons_eq_ok_iff.1 h
    exact ih (fun hP hc => hstep hP (List.mem_cons_of_mem _ hc))
      (hstep hs List.mem_cons_self hs') h

theorem readInLine_pos (h : s.readInLine c = .ok t) : t.pos = s.pos.advance c := by
  rcases readInLine_cases h with ⟨-, -, rfl⟩ | ⟨_, -, rfl⟩ | ⟨_, rfl⟩ <;> rfl

theorem settle_pos (h : s.settle = .ok t) : t.pos = s.pos := by
  rcases settle_cases h with ⟨-, rfl⟩ | ⟨_, _, -, rfl⟩ <;> rfl

theorem layout_pos {width : Nat} (h : s.layout width = .ok t) : t.pos = s.pos := by
  rcases layout_cases h with ⟨-, rfl⟩ | ⟨-, _, _, -, -, rfl⟩ <;> rfl

theorem step_pos (h : s.step mode c = .ok t) : t.pos = s.pos.advance c := by
  rcases step_cases h with
    ⟨_, -, rfl⟩ | ⟨_, _, -, rfl⟩ | ⟨s', hs, h⟩ | ⟨-, width, s', -, hs, h⟩
  · rfl
  · rfl
  · rw [readInLine_pos h, settle_pos hs]
  · rw [readInLine_pos h, layout_pos hs]

theorem run_pos (h : s.run mode cs = .ok t) : t.pos = s.pos.advanceBy cs := by
  induction cs generalizing s with
  | nil =>
    cases h
    rfl
  | cons c cs ih =>
    obtain ⟨s', hs', h⟩ := run_cons_eq_ok_iff.1 h
    rw [ih h, step_pos hs']
    rfl

theorem readInLine_grows (h : s.readInLine c = .ok t) : s.lexemes <:+ t.lexemes := by
  rcases readInLine_cases h with ⟨-, -, rfl⟩ | ⟨_, -, rfl⟩ | ⟨_, rfl⟩
  · exact List.suffix_cons _ _
  · exact List.suffix_refl _
  · exact List.suffix_cons _ _

/-- No lexeme is taken back. -/
theorem step_grows (h : s.step mode c = .ok t) : s.lexemes <:+ t.lexemes := by
  rcases step_cases h with
    ⟨_, -, rfl⟩ | ⟨_, _, -, rfl⟩ | ⟨s', hs, h⟩ | ⟨-, width, s', -, hs, h⟩
  · exact List.suffix_refl _
  · exact List.suffix_cons _ _
  · refine List.IsSuffix.trans ?_ (readInLine_grows h)
    rcases settle_cases hs with ⟨-, rfl⟩ | ⟨_, _, -, rfl⟩
    · exact List.suffix_refl _
    · exact List.suffix_cons _ _
  · refine List.IsSuffix.trans ?_ (readInLine_grows h)
    rcases layout_cases hs with ⟨-, rfl⟩ | ⟨-, _, _, -, -, rfl⟩
    · exact List.suffix_cons _ _
    · exact List.suffix_append _ _

theorem run_grows (h : s.run mode cs = .ok t) : s.lexemes <:+ t.lexemes :=
  run_induction (P := fun t => s.lexemes <:+ t.lexemes) (fun hs _ h => hs.trans (step_grows h))
    (List.suffix_refl _) h

/-- No token was written since the last line end. -/
def Fresh (s : Scanner) : Prop :=
  ∀ l ∈ s.lexemes.head?, l.token = .newline

/-- What holds of the machine all along: the depth counts the open parentheses, and the end has not
been written. -/
structure Sound (s : Scanner) : Prop where
  depth : s.depth = s.lexemes.reverse.foldl Lexeme.depthAfter 0
  inner : ∀ l ∈ s.lexemes, l.token ≠ .endOfInput

namespace Sound

variable {phase : Phase} {p q : Pos} {tok : Token} {indents : List Nat}

theorem start : Sound start where
  depth := rfl
  inner := by simp [Scanner.start]

/-- Only the depth and the lexemes matter. -/
theorem quiet (h : Sound s) : Sound ⟨phase, q, s.depth, indents, s.lexemes⟩ :=
  ⟨h.depth, h.inner⟩

theorem write {depth : Nat} (h : Sound s) (hdepth : depth = Lexeme.depthAfter s.depth ⟨tok, p⟩)
    (hend : tok ≠ .endOfInput) :
    Sound ⟨phase, q, depth, indents, ⟨tok, p⟩ :: s.lexemes⟩ where
  depth := by
    rw [List.reverse_cons, List.foldl_append, ← h.depth]
    exact hdepth
  inner := by
    intro l hl
    rcases List.mem_cons.1 hl with rfl | hl
    · exact hend
    · exact h.inner l hl

theorem closed (h : Sound s) (hclosed : Closed [⟨tok, p⟩]) :
    Sound ⟨phase, q, s.depth, indents, ⟨tok, p⟩ :: s.lexemes⟩ := by
  have hinline : tok.isLayout = false := hclosed.inline ⟨tok, p⟩ (by simp)
  refine h.write (hclosed.depth s.depth).symm ?_
  rintro rfl
  cases hinline

theorem readInLine (h : Sound s) (hread : s.readInLine c = .ok t) : Sound t := by
  rcases readInLine_cases hread with ⟨-, -, rfl⟩ | ⟨_, -, rfl⟩ | ⟨_, rfl⟩
  · exact h.write rfl (by simp)
  · exact h.quiet
  · exact h.write rfl (by simp)

theorem settle (h : Sound s) (hs : s.settle = .ok t) : Sound t := by
  rcases settle_cases hs with ⟨-, rfl⟩ | ⟨_, _, hclosed, rfl⟩
  · exact h
  · exact h.closed hclosed

theorem layout {width : Nat} (h : Sound s) (hs : s.layout width = .ok t) : Sound t := by
  rcases layout_cases hs with ⟨-, rfl⟩ | ⟨-, kept, n, -, -, rfl⟩
  · exact h.write rfl (by simp)
  · clear hs
    induction n with
    | zero => exact h.quiet
    | succ n ih => exact ih.write rfl (by simp)

theorem step (h : Sound s) (hs : s.step mode c = .ok t) : Sound t := by
  rcases step_cases hs with
    ⟨_, -, rfl⟩ | ⟨_, _, hclosed, rfl⟩ | ⟨s', hs, hread⟩ | ⟨-, width, s', -, hs, hread⟩
  · exact h.quiet
  · exact h.closed hclosed
  · exact (h.settle hs).readInLine hread
  · exact (h.layout hs).readInLine hread

theorem run (h : Sound s) (hs : s.run mode cs = .ok t) : Sound t :=
  run_induction (fun h _ hs => h.step hs) h hs

end Sound

/-- A line begins, and one that holds a comment only ends, behind a line end or nothing. -/
theorem fresh_of_step (h : s.phase.isOuter = true → s.Fresh) (hs : s.step mode c = .ok t) :
    t.phase.isOuter = true → t.Fresh := by
  have hread : ∀ {s t : Scanner}, s.readInLine c = .ok t → t.phase.isOuter = true → t.Fresh := by
    intro s t hread ht
    rcases readInLine_cases hread with ⟨-, -, rfl⟩ | ⟨_, hphase, rfl⟩ | ⟨_, rfl⟩
    · simp [Fresh, move, emit]
    · exact absurd ht (by simp [move, hphase])
    · cases ht
  intro ht
  rcases step_cases hs with
    ⟨_, hphase, rfl⟩ | ⟨_, _, -, rfl⟩ | ⟨s', hs, hs'⟩ | ⟨-, width, s', -, hs, hs'⟩
  · exact h (hphase ht)
  · cases ht
  · exact hread hs' ht
  · exact hread hs' ht

theorem fresh_of_run (h : start.run mode cs = .ok t) : t.phase.isOuter = true → t.Fresh :=
  run_induction (P := fun t => t.phase.isOuter = true → t.Fresh) (fun h _ hs => fresh_of_step h hs)
    (fun _ => by simp [Fresh, start]) h

/-! ## Expressions and programs -/

theorem readInLine_indents (h : s.readInLine c = .ok t) : t.indents = s.indents := by
  rcases readInLine_cases h with ⟨-, -, rfl⟩ | ⟨_, -, rfl⟩ | ⟨_, rfl⟩ <;> rfl

theorem settle_indents (h : s.settle = .ok t) : t.indents = s.indents := by
  rcases settle_cases h with ⟨-, rfl⟩ | ⟨_, _, -, rfl⟩ <;> rfl

theorem step_indents (h : s.step .expression c = .ok t) : t.indents = s.indents := by
  rcases step_cases h with
    ⟨_, -, rfl⟩ | ⟨_, _, -, rfl⟩ | ⟨s', hs, h⟩ | ⟨hmode, -⟩
  · rfl
  · rfl
  · rw [readInLine_indents h, settle_indents hs]
  · cases hmode

/-- Is no token a layout token? -/
def Inline (s : Scanner) : Prop :=
  ∀ l ∈ s.lexemes, l.token.isLayout = false

theorem settle_inline (h : s.Inline) (hs : s.settle = .ok t) : t.Inline := by
  rcases settle_cases hs with ⟨-, rfl⟩ | ⟨_, _, hclosed, rfl⟩
  · exact h
  · exact List.forall_mem_cons.2 ⟨hclosed.inline _ (by simp), h⟩

/-- Within a line of an expression no layout is written. -/
theorem step_inline (hc : c ≠ '\n') (h : s.Inline) (hs : s.step .expression c = .ok t) :
    t.Inline := by
  rcases step_cases hs with
    ⟨_, -, rfl⟩ | ⟨_, _, hclosed, rfl⟩ | ⟨s', hs, hread⟩ | ⟨hmode, -⟩
  · exact h
  · exact List.forall_mem_cons.2 ⟨hclosed.inline _ (by simp), h⟩
  · have h' := settle_inline h hs
    rcases readInLine_cases hread with ⟨hline, -, rfl⟩ | ⟨_, hphase, rfl⟩ | ⟨_, rfl⟩
    · exact absurd hline hc
    · exact h'
    · exact List.forall_mem_cons.2 ⟨rfl, h'⟩
  · cases hmode

theorem run_inline (hcs : '\n' ∉ cs) (h : s.Inline) (hs : s.run .expression cs = .ok t) :
    t.Inline :=
  run_induction (fun h hc hs => step_inline (fun hn => hcs (hn ▸ hc)) h hs) h hs

theorem layout_outermost {width : Nat} (hindents : s.indents = []) (h : s.layout width = .ok t) :
    t = s ∨ t = { s.emit s.pos .indent with indents := [width] } := by
  have hindent : s.indent = 0 := by rw [indent, hindents, List.headD_nil]
  rw [layout, hindent, hindents] at h
  by_cases hwidth : 0 < width
  · rw [if_pos hwidth] at h
    cases h
    exact .inr rfl
  · obtain rfl : width = 0 := by omega
    cases h
    obtain ⟨_, _, _, _, _⟩ := s
    cases hindents
    exact .inl rfl

/-- Outside every block, a program is read like an expression, unless a line is indented. -/
theorem step_program (hindents : s.indents = []) (h : s.step .program c = .ok t) :
    s.step .expression c = .ok t ∨
      (s.phase.isOuter = true ∧ ⟨.indent, s.pos⟩ :: s.lexemes <:+ t.lexemes) := by
  unfold step at h ⊢
  cases hphase : s.phase with
  | lineStart width =>
    simp only [hphase, readLineStart] at h ⊢
    by_cases hspace : c = ' '
    · rw [if_pos hspace] at h ⊢
      exact .inl h
    by_cases htab : c = '\t'
    · rw [if_neg hspace, if_pos htab] at h ⊢
      exact .inl h
    by_cases hline : (decide (c = '\n') || decide (c = '\r')) = true
    · rw [if_neg hspace, if_neg htab, if_pos hline] at h ⊢
      exact .inl h
    by_cases hhash : c = '#'
    · rw [if_neg hspace, if_neg htab, if_neg hline, if_pos hhash] at h ⊢
      exact .inl h
    rw [if_neg hspace, if_neg htab, if_neg hline, if_neg hhash] at h ⊢
    split at h
    · rename_i s' hlayout
      rcases layout_outermost hindents hlayout with rfl | rfl
      · exact .inl h
      · refine .inr ⟨rfl, ?_⟩
        exact readInLine_grows h
    · cases h
  | _ =>
    simp only [hphase] at h ⊢
    exact .inl h

/-- A program is read like an expression up to the first indented line, if there is one. -/
theorem run_program (hindents : s.indents = []) (hfresh : s.phase.isOuter = true → s.Fresh)
    (h : s.run .program cs = .ok t) :
    (s.run .expression cs = .ok t ∧ t.indents = []) ∨
      ∃ cs₁ cs₂ u p, cs = cs₁ ++ cs₂ ∧ s.run .expression cs₁ = .ok u ∧ u.Fresh ∧
        ⟨.indent, p⟩ :: u.lexemes <:+ t.lexemes := by
  induction cs generalizing s with
  | nil =>
    cases h
    exact .inl ⟨rfl, hindents⟩
  | cons c cs ih =>
    obtain ⟨s', hs', h⟩ := run_cons_eq_ok_iff.1 h
    rcases step_program hindents hs' with hstep | ⟨houter, hindent⟩
    · have hindents' : s'.indents = [] := (step_indents hstep).trans hindents
      rcases ih hindents' (fresh_of_step hfresh hs') h with
        ⟨hrun, ht⟩ | ⟨cs₁, cs₂, u, p, rfl, hrun, hu, ht⟩
      · exact .inl ⟨run_cons_eq_ok_iff.2 ⟨s', hstep, hrun⟩, ht⟩
      · exact .inr ⟨c :: cs₁, cs₂, u, p, rfl, run_cons_eq_ok_iff.2 ⟨s', hstep, hrun⟩, hu, ht⟩
    · exact .inr ⟨[], c :: cs, s, s.pos, rfl, rfl, hfresh houter, hindent.trans (run_grows h)⟩

end Scanner
end ScriptShell
