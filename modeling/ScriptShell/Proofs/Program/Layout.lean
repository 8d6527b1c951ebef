import ScriptShell.Proofs.Program.Print

/-!
# ScriptShell.Proofs.Program.Layout

The tokens of printed lines. From one line to the next the blocks that are open change, by one that
is opened or by some that are closed, and the scanner writes this change in tokens: so the tokens of
some lines depend on nothing but the lines and the blocks around them.

* `layoutTokens`: the change from some open blocks to others.
* `lineTokens`: the tokens of some lines.
* `Linked`: lines of which each stands in blocks that the one before it may lead to.
* `Scanner.run_written`: the scanner reads written lines back.
* `Laid.linked`: the lines of a program are linked.
* `lineTokens_append`, `lineTokens_block`: the tokens of lines one behind the other, and of a block.
* `scan_written`: the scanner reads printed programs back.
-/

namespace ScriptShell

/-- The tokens between a line in some blocks and a line in others. -/
def layoutTokens (ws vs : List Nat) : List Token :=
  if ws.length < vs.length then [.indent] else List.replicate (ws.length - vs.length) .outdent

/-- The tokens of some lines, from the blocks before them up to those behind them. -/
def lineTokens : List Nat → List Line → List Nat → List Token
  | ws, [], vs => layoutTokens ws vs
  | ws, l :: ls, vs =>
    layoutTokens ws l.around ++ (l.tokens ++ .newline :: lineTokens l.around ls vs)

/-- Every block is indented further than the one around it. -/
def Nested (ws : List Nat) : Prop :=
  (ws ++ [0]).Pairwise (fun w v => v < w)

/-- A line in the blocks `vs` may follow on one in the blocks `ws`: one block more is open, or some
are closed. -/
def MayFollow (ws vs : List Nat) : Prop :=
  (∃ w, ws.headD 0 < w ∧ vs = w :: ws) ∨ vs <:+ ws

/-- Every line may follow on the one before it, the first one on a line in the blocks `ws`. -/
inductive Linked : List Nat → List Line → Prop
  | nil {ws} : Linked ws []
  | cons {ws l ls} (h : MayFollow ws l.around) (hs : Linked l.around ls) : Linked ws (l :: ls)

variable {ws vs us : List Nat} {w : Nat}

namespace Nested

theorem nil : Nested [] := List.pairwise_singleton _ _

theorem lt_of_mem_suffix (h : Nested (us ++ ws)) : ∀ v ∈ us, ws.headD 0 < v := by
  intro v hv
  rw [Nested, List.append_assoc] at h
  have hlt := (List.pairwise_append.1 h).2.2 v hv
  cases ws with
  | nil => exact hlt 0 (by simp)
  | cons w ws => exact hlt w (by simp)

theorem cons (h : Nested ws) (hw : ws.headD 0 < w) : Nested (w :: ws) := by
  rw [Nested, List.cons_append, List.pairwise_cons]
  refine ⟨fun v hv => ?_, h⟩
  have hle : v ≤ ws.headD 0 := by
    cases ws with
    | nil => exact Nat.le_of_eq (List.mem_singleton.1 hv)
    | cons u ws =>
      rcases List.mem_cons.1 hv with rfl | hv
      · exact Nat.le_refl _
      · exact Nat.le_of_lt ((List.pairwise_cons.1 h).1 v hv)
  omega

theorem of_mayFollow (h : Nested ws) (hvs : MayFollow ws vs) : Nested vs := by
  rcases hvs with ⟨w, hw, rfl⟩ | ⟨us, rfl⟩
  · exact h.cons hw
  · rw [Nested, List.append_assoc] at h
    exact (List.pairwise_append.1 h).2.1

end Nested

/-! ## The scanner reads lines back -/

namespace Scanner

variable {s : Scanner} {c : Char} {cs ds : List Char}

/-- The indentation of a line is written as the change of the blocks. -/
theorem layout_of_mayFollow (h : Nested s.indents) (hvs : MayFollow s.indents vs) :
    ∃ ms, tokens ms = layoutTokens s.indents vs ∧
      s.layout (vs.headD 0) = .ok { s with indents := vs, lexemes := ms.reverse ++ s.lexemes } := by
  rcases hvs with ⟨w, hw, rfl⟩ | ⟨us, hus⟩
  · refine ⟨[⟨.indent, s.pos⟩], by simp [layoutTokens], ?_⟩
    rw [layout, if_pos (show s.indent < (w :: s.indents).headD 0 from hw)]
    rfl
  · have hlt : ∀ w ∈ us, vs.headD 0 < w := Nested.lt_of_mem_suffix (hus ▸ h)
    have hkept : s.indents.dropWhile (fun w => decide (vs.headD 0 < w)) = vs := by
      rw [← hus, List.dropWhile_append_of_pos (by simpa using hlt)]
      cases vs with
      | nil => rfl
      | cons v vs => exact List.dropWhile_cons_of_neg (by simp)
    have hnot : ¬s.indent < vs.headD 0 := by
      rw [indent, ← hus]
      cases us with
      | nil => simp
      | cons u us =>
        have := hlt u List.mem_cons_self
        simp only [List.cons_append, List.headD_cons]
        omega
    have hlength : vs.length ≤ s.indents.length := by simp [← hus]
    refine ⟨List.replicate (s.indents.length - vs.length) ⟨.outdent, s.pos⟩, ?_, ?_⟩
    · rw [layoutTokens, if_neg (by omega), tokens, List.map_replicate]
    · rw [layout, if_neg hnot]
      dsimp only
      rw [hkept, if_pos rfl, List.reverse_replicate]

theorem run_indentation (hs : s.phase = .lineStart 0) (n : Nat) (cs : List Char) :
    ∃ p, s.run .program (List.replicate n ' ' ++ cs) =
      run .program { s with phase := .lineStart n, pos := p } cs := by
  suffices h : ∀ w, s.phase = .lineStart w → ∃ p, s.run .program (List.replicate n ' ' ++ cs) =
      run .program { s with phase := .lineStart (w + n), pos := p } cs by
    simpa using h 0 hs
  clear hs
  induction n generalizing s with
  | zero =>
    intro w hs
    exact ⟨s.pos, by rw [Nat.add_zero, ← hs]; rfl⟩
  | succ n ih =>
    intro w hs
    have hstep : s.step .program ' ' = .ok (s.move ' ' (.lineStart (w + 1))) := by
      rw [step, hs]
      rfl
    obtain ⟨p, hp⟩ := ih (s := s.move ' ' (.lineStart (w + 1))) (w + 1) rfl
    refine ⟨p, ?_⟩
    rw [List.replicate_succ, List.cons_append, run_cons_of_ok hstep, hp, move,
      show w + 1 + n = w + (n + 1) by omega]

/-- At the first character of a line the blocks are compared, and the line is read. -/
theorem run_lineStart (hs : s.phase = .lineStart (vs.headD 0)) (hc : isInk c = true)
    (h : Nested s.indents) (hvs : MayFollow s.indents vs) (cs : List Char) :
    ∃ ms, tokens ms = layoutTokens s.indents vs ∧ s.run .program (c :: cs) =
      run .program { s with phase := .inLine, indents := vs, lexemes := ms.reverse ++ s.lexemes }
        (c :: cs) := by
  obtain ⟨ms, hms, hlayout⟩ := layout_of_mayFollow h hvs
  refine ⟨ms, hms, ?_⟩
  simp only [isInk, Bool.and_eq_true, bne_iff_ne] at hc
  obtain ⟨⟨⟨⟨hspace, htab⟩, hline⟩, hreturn⟩, hhash⟩ := hc
  apply run_cons_congr
  refine Eq.trans ?_ (step_inLine rfl).symm
  rw [step, hs]
  simp only [readLineStart, hspace, htab, hline, hreturn, hhash, if_false, decide_false,
    Bool.or_false, Bool.false_eq_true, hlayout]
  rfl

/-- The machine behind the tokens of a line. -/
theorem run_written_line {l : Line} (hl : l.Legible) (h : Spelled l.tokens cs)
    (hs : s.phase = .lineStart 0) (hdepth : s.depth = 0) (hnested : Nested s.indents)
    (hfollow : MayFollow s.indents l.around) :
    ∃ u ms p, tokens ms = layoutTokens s.indents l.around ++ l.tokens ∧
      s.run .program (List.replicate l.indent ' ' ++ cs) = .ok u ∧
      Settles .program u ⟨.inLine, p, 0, l.around, ms.reverse ++ s.lexemes⟩ '\n' := by
  obtain ⟨c, rest, rfl, hc⟩ := h.eq_cons hl.nonempty hl.spellable
  obtain ⟨p, hp⟩ := run_indentation hs l.indent (c :: rest)
  obtain ⟨ms, hms, hrun⟩ := run_lineStart (s := { s with phase := .lineStart l.indent, pos := p })
    rfl hc hnested hfollow rest
  obtain ⟨u, ls, q, hls, hrun', hu⟩ := run_spelled .program
    (s := ⟨.inLine, p, s.depth, l.around, ms.reverse ++ s.lexemes⟩) h hl.spellable rfl
  refine ⟨u, ms ++ ls, q, by rw [tokens_append, hms, hls], by rw [hp, hrun, hrun'], ?_⟩
  rw [hl.balanced, hdepth] at hu
  rwa [List.reverse_append, List.append_assoc]

theorem tokens_ending (s : Scanner) :
    tokens s.ending = layoutTokens s.indents [] ++ [.endOfInput] := by
  simp [ending, layoutTokens, tokens]

/-- The last token of a line is no line end. -/
theorem not_fresh_of_legible {l : Line} {ts : List Token} {ms : List Lexeme} {p : Pos}
    (hl : l.Legible) (hms : tokens ms = ts ++ l.tokens) :
    ¬Fresh ⟨.inLine, p, 0, l.around, ms.reverse ++ s.lexemes⟩ := by
  intro hfresh
  rcases List.eq_nil_or_concat l.tokens with hnil | ⟨us, t, hus⟩
  · exact hl.nonempty hnil
  · rw [hus, List.concat_eq_append, ← List.append_assoc] at hms
    obtain ⟨ns, m, rfl, -, hm⟩ := tokens_eq_append_iff.1 hms
    obtain ⟨x, m, rfl, hx, hm⟩ := tokens_eq_cons_iff.1 hm
    obtain rfl := List.map_eq_nil_iff.1 hm
    have hnewline : x.token = .newline := hfresh x (by simp)
    have hspell := hl.spellable t (by simp [hus])
    rw [← hx, hnewline] at hspell
    cases hspell

/-- Behind a line end, or nothing, the scanner reads written lines back. -/
theorem run_written {ls : List Line} (h : Written ls cs) (hls : ∀ l ∈ ls, l.Legible)
    (hlinked : Linked s.indents ls) (hnested : Nested s.indents) (hs : s.phase = .lineStart 0)
    (hdepth : s.depth = 0) (hfresh : s.Fresh) :
    ∃ t ms, s.run .program cs = .ok t ∧ t.finish = .ok (s.lexemes.reverse ++ ms) ∧
      tokens ms = lineTokens s.indents ls [] ++ [.endOfInput] := by
  induction h generalizing s with
  | nil =>
    refine ⟨s, s.ending, rfl, ?_, tokens_ending s⟩
    rw [← closing_of_fresh hfresh]
    exact finish_eq_ok_iff.2 ⟨by rw [hs]; rfl, s, by rw [settle, hs], rfl⟩
  | @last l cs h =>
    cases hlinked with
    | cons hfollow _ =>
      obtain ⟨hl, -⟩ := List.forall_mem_cons.1 hls
      obtain ⟨u, ms, p, hms, hrun, hu⟩ := run_written_line hl h hs hdepth hnested hfollow
      have hclosing := closing_of_not_fresh (not_fresh_of_legible (p := p) (s := s) hl hms)
      refine ⟨u, ms ++ ⟨.newline, p⟩ :: Scanner.ending ⟨.inLine, p, 0, l.around, []⟩, hrun, ?_, ?_⟩
      · refine finish_eq_ok_iff.2 ⟨hu.unbroken, _, hu.settle, ?_⟩
        rw [hclosing]
        simp [ending]
      · simp [hms, lineTokens, tokens_ending]
  | @cons l ls cs ds h hds ih =>
    cases hlinked with
    | cons hfollow hlinked =>
      obtain ⟨hl, hls⟩ := List.forall_mem_cons.1 hls
      obtain ⟨u, ms, p, hms, hrun, hu⟩ := run_written_line hl h hs hdepth hnested hfollow
      have hnewline : ∀ {t : Scanner}, t.depth = 0 → t.phase = .inLine →
          t.step .program '\n' = .ok ((t.emit t.pos .newline).move '\n' (.lineStart 0)) :=
        fun hdepth hphase => (step_inLine hphase).trans (readInLine_newline hdepth)
      obtain ⟨t, ns, hrun', hfinish, hns⟩ := ih (s := ⟨.lineStart 0, p.advance '\n', 0, l.around,
        ⟨.newline, p⟩ :: (ms.reverse ++ s.lexemes)⟩) hls hlinked (hnested.of_mayFollow hfollow)
        rfl rfl (by simp [Fresh])
      refine ⟨t, ms ++ ⟨.newline, p⟩ :: ns, ?_, ?_, ?_⟩
      · rw [← List.append_assoc, run_append, hrun, Except.bind, hu.run_eq,
          run_cons_of_ok (hnewline rfl rfl)]
        exact hrun'
      · simpa using hfinish
      · simp [hms, hns, lineTokens]

end Scanner
/-! ## The lines of a program -/

variable {ls ms : List Line}

theorem layoutTokens_self (ws : List Nat) : layoutTokens ws ws = [] := by
  simp [layoutTokens]

theorem layoutTokens_cons (ws : List Nat) (w : Nat) : layoutTokens ws (w :: ws) = [.indent] := by
  simp [layoutTokens]

/-- The innermost block is closed first. -/
theorem layoutTokens_close (h : w :: ws <:+ vs) :
    layoutTokens vs ws = layoutTokens vs (w :: ws) ++ [.outdent] := by
  have hlength := h.length_le
  rw [List.length_cons] at hlength
  rw [layoutTokens, if_neg (by omega), layoutTokens, if_neg (by simpa using hlength),
    List.length_cons, show vs.length - ws.length = vs.length - (ws.length + 1) + 1 by omega,
    List.replicate_succ']

/-- The first line stands in the blocks `ws`, and all of them inside these. -/
structure Starts (ws : List Nat) (ls : List Line) : Prop where
  head : ∀ l ∈ ls.head?, l.around = ws
  inside : ∀ l ∈ ls, ws <:+ l.around

namespace Starts

theorem nil : Starts ws [] := ⟨by simp, by simp⟩

theorem cons {l : Line} (hl : l.around = ws) (h : ∀ l ∈ ls, ws <:+ l.around) :
    Starts ws (l :: ls) where
  head := by simpa using hl
  inside := List.forall_mem_cons.2 ⟨hl ▸ List.suffix_refl _, h⟩

theorem append (h : Starts ws ls) (h' : Starts ws ms) : Starts ws (ls ++ ms) where
  head := by
    cases ls with
    | nil => exact h'.head
    | cons l ls => exact h.head
  inside := List.forall_mem_append.2 ⟨h.inside, h'.inside⟩

/-- The lines of a block stand inside the blocks around it. -/
theorem outer (h : Starts (w :: ws) ls) : ∀ l ∈ ls, ws <:+ l.around :=
  fun l hl => (List.suffix_cons w ws).trans (h.inside l hl)

end Starts

theorem Laid.starts {wrap : Bool} {φ : Part} (h : Laid wrap ws φ ls) : Starts ws ls := by
  induction h with
  | simple => exact .cons rfl (by simp)
  | define _ _ ih => exact .cons rfl ih.outer
  | while_ _ _ ih => exact .cons rfl ih.outer
  | if_ _ ih => exact ih
  | branch _ _ _ ihthen ihelse =>
    exact .cons rfl (List.forall_mem_append.2 ⟨ihthen.outer, ihelse.inside⟩)
  | noElse => exact .nil
  | elif _ ih => exact ih
  | else_ _ _ _ ih => exact .cons rfl ih.outer
  | noStmts => exact .nil
  | stmts _ _ ih ihs => exact ih.append ihs

theorem Linked.append (h : Linked vs ls) (hls : ∀ l ∈ ls, ws <:+ l.around) (hvs : ws <:+ vs)
    (hstarts : Starts ws ms) (h' : Linked ws ms) : Linked vs (ls ++ ms) := by
  induction h with
  | nil =>
    cases h' with
    | nil => exact .nil
    | @cons _ m ms _ hs =>
      refine .cons (.inr ?_) hs
      rw [hstarts.head m rfl]
      exact hvs
  | cons h _ ih =>
    obtain ⟨hl, hls⟩ := List.forall_mem_cons.1 hls
    exact .cons h (ih hls hl)

/-- The lines of a block may follow on a line outside it. -/
theorem Linked.enter (h : Linked (w :: ws) ls) (hstarts : Starts (w :: ws) ls)
    (hw : ws.headD 0 < w) : Linked ws ls := by
  cases h with
  | nil => exact .nil
  | @cons _ l ls _ hs =>
    refine .cons (.inl ⟨w, hw, ?_⟩) hs
    exact hstarts.head l rfl

theorem MayFollow.refl (ws : List Nat) : MayFollow ws ws :=
  .inr (List.suffix_refl ws)

theorem Laid.linked {wrap : Bool} {φ : Part} (h : Laid wrap ws φ ls) : Linked ws ls := by
  induction h with
  | simple => exact .cons (.refl _) .nil
  | define hw h ih => exact .cons (.refl _) (ih.enter h.starts hw)
  | while_ hw h ih => exact .cons (.refl _) (ih.enter h.starts hw)
  | if_ _ ih => exact ih
  | branch hw hthen helse ihthen ihelse =>
    exact .cons (.refl _) ((ihthen.enter hthen.starts hw).append hthen.starts.outer
      (List.suffix_refl _) helse.starts ihelse)
  | noElse => exact .nil
  | elif _ ih => exact ih
  | else_ _ hw h ih => exact .cons (.refl _) (ih.enter h.starts hw)
  | noStmts => exact .nil
  | stmts h hs ih ihs => exact ih.append h.starts.inside (List.suffix_refl _) hs.starts ihs

theorem lineTokens_cons {l : Line} (hl : l.around = ws) :
    lineTokens ws (l :: ls) vs = l.tokens ++ .newline :: lineTokens ws ls vs := by
  rw [lineTokens, hl, layoutTokens_self, List.nil_append]

theorem lineTokens_nil (ws : List Nat) : lineTokens ws [] ws = [] := layoutTokens_self ws

theorem lineTokens_append (hls : ∀ l ∈ ls, ws <:+ l.around) (hvs : ws <:+ vs)
    (hstarts : Starts ws ms) :
    lineTokens vs (ls ++ ms) ws = lineTokens vs ls ws ++ lineTokens ws ms ws := by
  induction ls generalizing vs with
  | nil =>
    cases ms with
    | nil => rw [List.nil_append, lineTokens_nil, List.append_nil]
    | cons m ms => simp only [List.nil_append, lineTokens, hstarts.head m rfl, layoutTokens_self]
  | cons l ls ih =>
    obtain ⟨hl, hls⟩ := List.forall_mem_cons.1 hls
    simp only [List.cons_append, lineTokens, ih hls hl, List.append_assoc]

/-- Behind the lines of a block, its end is what is left to be written. -/
theorem lineTokens_close (hls : ∀ l ∈ ls, w :: ws <:+ l.around) (hvs : w :: ws <:+ vs) :
    lineTokens vs ls ws = lineTokens vs ls (w :: ws) ++ [.outdent] := by
  induction ls generalizing vs with
  | nil => exact layoutTokens_close hvs
  | cons l ls ih =>
    obtain ⟨hl, hls⟩ := List.forall_mem_cons.1 hls
    simp only [lineTokens, ih hls hl, List.append_assoc, List.cons_append]

theorem lineTokens_block (hne : ls ≠ []) (hstarts : Starts (w :: ws) ls) :
    lineTokens ws ls ws = .indent :: (lineTokens (w :: ws) ls (w :: ws) ++ [.outdent]) := by
  cases ls with
  | nil => exact absurd rfl hne
  | cons l ls =>
    have hl := hstarts.head l rfl
    have hls := (List.forall_mem_cons.1 hstarts.inside).2
    rw [lineTokens, hl, layoutTokens_cons, lineTokens_cons hl,
      lineTokens_close hls (List.suffix_refl _)]
    simp

/-- The text of a printed program is scanned into the tokens of its lines. -/
theorem scan_written {wrap : Bool} {p : Program} {text : String}
    (hp : p.isPrintable = true) (h : Laid wrap [] (.stmts p) ls) (htext : Written ls text.toList) :
    ∃ ms, scan .program text = .ok ms ∧ tokens ms = lineTokens [] ls [] ++ [.endOfInput] := by
  have hlegible : ∀ l ∈ ls, l.Legible :=
    h.legible (show (Part.stmts p).isPrintable false = true from hp)
  obtain ⟨t, ms, hrun, hfinish, hms⟩ := Scanner.run_written (s := .start) htext hlegible h.linked
    .nil rfl rfl (by simp [Scanner.Fresh, Scanner.start])
  refine ⟨ms, ?_, hms⟩
  rw [scan, hrun]
  exact hfinish

end ScriptShell
