import ScriptShell.Proofs.Program.Moved
import ScriptShell.Proofs.Program.WellFormed
import ScriptShell.Proofs.Token.Brackets

/-!
# ScriptShell.Proofs.Program.Bracketed

The tokens of a text are well bracketed, and so reading them stays within them: the reader of
statements leaves every block by an outdent, and nobody looks behind the end of input. That is shown
by two things that make no difference: what stands behind the list, and what would be done where the
input ends within a block.

* `Paired`: one kind of token opens what another closes.
* `Bracketed`: what the tokens of a text are like.
* `Ahead`: a list with anything behind it looks like the list itself.
* `scan_bracketed`: the main theorem.
-/

namespace ScriptShell

/-- What is closed has been opened, and what is opened is closed. -/
structure Paired (opening closing : Token) (ts : List Token) : Prop where
  opened : ∀ us, us <+: ts → us.count closing ≤ us.count opening
  closed : ts.count closing = ts.count opening

/-- What the tokens of a text are like. -/
structure Bracketed (ts : List Token) : Prop where
  /-- The end of input is the last token and no other, and before it and the blocks that end with it
  a line ends, if there is any token. -/
  ended : ∃ us n, ts = us ++ (List.replicate n .outdent ++ [.endOfInput]) ∧ .endOfInput ∉ us ∧
    (us = [] ∧ n = 0 ∨ us.getLast? = some .newline)
  blocks : Paired .indent .outdent ts
  /-- A block does not end where it begins. -/
  filled : ∀ us t vs, ts = us ++ .indent :: t :: vs → t ≠ .outdent ∧ t ≠ .endOfInput
  /-- No layout stands between a parenthesis and the one that closes it. -/
  surfaced : ∀ us ws vs, ts = us ++ .mark .parenLeft :: (ws ++ .mark .parenRight :: vs) →
    Paired (.mark .parenLeft) (.mark .parenRight) ws → ∀ t ∈ ws, t.isLayout = false

variable {mode : ScanMode} {text : String} {ls ls' : List Lexeme} {k : Nat}

/-! ## The tokens of a text -/

/-- A closing parenthesis closes one at most, and an opening one opens one. -/
theorem add_count_le_depth (ts : List Token) (d : Nat) :
    d + ts.count (.mark .parenLeft) ≤
      ts.foldl Token.depthAfter d + ts.count (.mark .parenRight) := by
  induction ts generalizing d with
  | nil => exact Nat.le_refl _
  | cons t ts ih =>
    have hts := ih (t.depthAfter d)
    by_cases hleft : t = .mark .parenLeft
    · subst hleft
      have hdepth : Token.depthAfter d (.mark .parenLeft) = d + 1 := rfl
      rw [hdepth] at hts
      simp [hdepth]
      omega
    · by_cases hright : t = .mark .parenRight
      · subst hright
        have hdepth : Token.depthAfter d (.mark .parenRight) = d - 1 := rfl
        rw [hdepth] at hts
        simp [hdepth]
        omega
      · have hdepth : t.depthAfter d = d := by
          cases t with
          | mark m => cases m <;> first | rfl | exact absurd rfl hleft | exact absurd rfl hright
          | _ => rfl
        rw [hdepth] at hts
        simpa [hleft, hright, hdepth] using hts

theorem foldl_depthAfter_tokens (ls : List Lexeme) (d : Nat) :
    (tokens ls).foldl Token.depthAfter d = ls.foldl Lexeme.depthAfter d := by
  rw [tokens, List.foldl_map]
  rfl

theorem ended_of_scan (h : scan mode text = .ok ls) :
    ∃ us n, tokens ls = us ++ (List.replicate n .outdent ++ [.endOfInput]) ∧ .endOfInput ∉ us ∧
      (us = [] ∧ n = 0 ∨ us.getLast? = some .newline) := by
  have hcloses := closes_of_scan h
  obtain ⟨s, hs, rfl⟩ := Scanner.ordered_of_scan h
  have hend : .endOfInput ∉ tokens s.lexemes.reverse := by
    rw [tokens, List.mem_map]
    rintro ⟨l, hl, htoken⟩
    exact hs.inner l (List.mem_reverse.1 hl) htoken
  have hending : tokens s.ending = List.replicate s.indents.length .outdent ++ [.endOfInput] := by
    simp [Scanner.tokens_ending, layoutTokens]
  by_cases hfresh : s.Fresh
  · rw [Scanner.closing_of_fresh hfresh] at hcloses ⊢
    refine ⟨tokens s.lexemes.reverse, s.indents.length, by rw [tokens_append, hending], hend, ?_⟩
    · cases hlexemes : s.lexemes with
      | nil =>
        -- with nothing written there is no block to close
        have hcount := hcloses.count_eq
        rw [tokens_append, hlexemes, hending] at hcount
        exact .inl ⟨rfl, by simpa [List.count_replicate] using hcount⟩
      | cons l us =>
        have hl : l.token = .newline := hfresh l (by simp [hlexemes])
        exact .inr (by simp [hl])
  · rw [Scanner.closing_of_not_fresh hfresh]
    refine ⟨tokens s.lexemes.reverse ++ [.newline], s.indents.length, ?_, by simpa using hend,
      .inr (by simp)⟩
    rw [tokens_append, tokens_cons, hending, List.append_assoc, List.singleton_append]

theorem filled_tokens_of_scan (h : scan mode text = .ok ls) {us vs : List Token} {t : Token}
    (hls : tokens ls = us ++ .indent :: t :: vs) : t ≠ .outdent ∧ t ≠ .endOfInput := by
  obtain ⟨ms, ns, rfl, -, hns⟩ := tokens_eq_append_iff.1 hls
  obtain ⟨l, ns, rfl, hl, hns⟩ := tokens_eq_cons_iff.1 hns
  obtain ⟨m, ns, rfl, rfl, -⟩ := tokens_eq_cons_iff.1 hns
  exact filled_of_scan h (List.suffix_append ms _) hl

theorem surfaced_of_scan (h : scan mode text = .ok ls) {us ws vs : List Token}
    (hls : tokens ls = us ++ .mark .parenLeft :: (ws ++ .mark .parenRight :: vs))
    (hws : Paired (.mark .parenLeft) (.mark .parenRight) ws) : ∀ t ∈ ws, t.isLayout = false := by
  intro t ht
  by_contra hlayout
  obtain ⟨ws₁, ws₂, rfl⟩ := List.append_of_mem ht
  have hopened := hws.opened ws₁ (List.prefix_append _ _)
  have hsplit : tokens ls =
      (us ++ .mark .parenLeft :: ws₁) ++ t :: (ws₂ ++ .mark .parenRight :: vs) := by simp [hls]
  obtain ⟨ms, ns, rfl, hms, hns⟩ := tokens_eq_append_iff.1 hsplit
  obtain ⟨l, ns, rfl, hl, hns⟩ := tokens_eq_cons_iff.1 hns
  obtain ⟨ns, ns', rfl, -, hns⟩ := tokens_eq_append_iff.1 hns
  obtain ⟨m, ns', rfl, hm, -⟩ := tokens_eq_cons_iff.1 hns
  have hdepth : ms.foldl Lexeme.depthAfter 0 = 0 :=
    depth_of_layout (m := m) h (by simpa [hl] using hlayout) (by simp) (by rw [hm]; rfl)
  -- but the parenthesis before it is open there
  rw [← foldl_depthAfter_tokens, hms, List.foldl_append, List.foldl_cons] at hdepth
  have hopen : Token.depthAfter (us.foldl Token.depthAfter 0) (.mark .parenLeft) =
      us.foldl Token.depthAfter 0 + 1 := rfl
  have hle := add_count_le_depth ws₁ (us.foldl Token.depthAfter 0 + 1)
  rw [hopen] at hdepth
  omega

/-- There are no blocks in an expression. -/
theorem flat_of_scan (h : scan .expression text = .ok ls) :
    .indent ∉ tokens ls ∧ .outdent ∉ tokens ls := by
  have hindent : .indent ∉ tokens ls := by
    obtain ⟨s, hs, rfl⟩ := Scanner.ordered_of_scan h
    rw [tokens, List.mem_map]
    rintro ⟨l, hl, htoken⟩
    rcases List.mem_append.1 hl with hl | hl
    · exact hs.flat rfl l (List.mem_reverse.1 hl) htoken
    · have := Scanner.token_of_mem_closing hl
      simp [htoken] at this
  refine ⟨hindent, List.count_eq_zero.1 ?_⟩
  rw [(closes_of_scan h).count_eq, List.count_eq_zero.2 hindent]

theorem bracketed_of_scan (h : scan mode text = .ok ls) : Bracketed (tokens ls) where
  ended := ended_of_scan h
  blocks := {
    opened := by
      rintro us ⟨vs, hvs⟩
      exact (closes_of_scan h).count_le hvs.symm
    closed := (closes_of_scan h).count_eq }
  filled _ _ _ := filled_tokens_of_scan h
  surfaced _ _ _ := surfaced_of_scan h

/-! ## Reading stays within the list -/

/-- The second list is the first one with something behind it. In the first one the blocks that are
open are closed, `k` of them. -/
def Ahead (beyond : List Lexeme) (k : Nat) (ls ls' : List Lexeme) : Prop :=
  Closes k ls ∧ ls' = ls ++ beyond

theorem Closes.exists_cons (h : Closes k ls) : ∃ l ms, ls = l :: ms := by
  cases h <;> exact ⟨_, _, rfl⟩

/-- What stands behind the end of input is not looked at. -/
theorem looksAlike_ahead (beyond : List Lexeme) (k : Nat) : LooksAlike id (Ahead beyond k) where
  ne_nil := by
    rintro ls ls' ⟨hls, -⟩ rfl
    cases hls
  peek_eq := by
    rintro ls ls' ⟨hls, rfl⟩
    obtain ⟨l, ms, rfl⟩ := hls.exists_cons
    rfl
  here_eq := by
    rintro ls ls' ⟨hls, rfl⟩
    obtain ⟨l, ms, rfl⟩ := hls.exists_cons
    rfl
  length_le := by
    rintro ls ls' ⟨-, rfl⟩
    simp
  tail := by
    rintro ls ls' ⟨hls, rfl⟩ hp
    obtain ⟨l, ms, rfl⟩ := hls.exists_cons
    exact ⟨hls.of_other hp, rfl⟩

theorem looksAlikeBlocks_ahead (beyond : List Lexeme) (atEnd : Reader (List Stmt)) :
    LooksAlikeBlocks id (Ahead beyond) atEnd where
  alike := looksAlike_ahead beyond
  enter := by
    rintro k ls ls' ⟨hls, rfl⟩ hp
    obtain ⟨l, ms, rfl⟩ := hls.exists_cons
    exact ⟨hls.of_indent hp, rfl⟩
  leave := by
    rintro k ls ls' ⟨hls, rfl⟩ hp
    obtain ⟨l, ms, rfl⟩ := hls.exists_cons
    exact ⟨hls.of_outdent hp, rfl⟩
  ended h hp := absurd hp h.1.ne_endOfInput

theorem movedBy_id {α : Type} {f : α → α} (hf : ∀ a, f a = a) (x : Except SyntaxError α) :
    movedBy id f x = x := by
  cases x with
  | error e => rfl
  | ok a => exact congrArg Except.ok (hf a)

theorem Expr.ofLexemes_ahead (h : Closes 0 ls) (beyond : List Lexeme) :
    Expr.ofLexemes (ls ++ beyond) = Expr.ofLexemes ls := by
  rw [Expr.ofLexemes_alike (looksAlike_ahead beyond 0) ⟨h, rfl⟩, movedBy_id Expr.mapPos_id]

theorem readStmts_ahead (h : Closes 0 ls) (beyond : List Lexeme) (atEnd : Reader (List Stmt)) :
    readStmtsOr atEnd (ls ++ beyond) (ls ++ beyond) = readStmts ls ls := by
  have htracked : readStmtsOr atEnd (ls ++ beyond) (ls ++ beyond) =
      movedBy id (List.map (Stmt.mapPos id)) (readStmts ls ls) :=
    tracks_readStmts (looksAlikeBlocks_ahead beyond atEnd) ⟨h, rfl⟩ (Nat.le_refl _) (by simp)
  rw [htracked, movedBy_id (List.map_id'' Stmt.mapPos_id)]

/-- The lexemes of a text are well bracketed, the blocks that are open being nested all along, and
an expression has no blocks. What is read off them does not depend on what stands behind them, nor
on what is done where the input ends within a block. -/
theorem scan_bracketed (h : scan mode text = .ok ls) :
    Bracketed (tokens ls) ∧
    (mode = .expression → .indent ∉ tokens ls ∧ .outdent ∉ tokens ls) ∧
    (∀ cs, cs <+: text.toList → ∃ s, Scanner.start.run mode cs = .ok s ∧ Nested s.indents) ∧
    (mode = .expression → ∀ beyond, Expr.ofLexemes (ls ++ beyond) = Expr.parse text) ∧
    (mode = .program → ∀ beyond atEnd,
      readStmtsOr atEnd (ls ++ beyond) (ls ++ beyond) = Program.parse text) := by
  refine ⟨bracketed_of_scan h, ?_, ?_, ?_, ?_⟩
  · rintro rfl
    exact flat_of_scan h
  · rintro cs ⟨ds, hds⟩
    rw [← String.ofList_toList (s := text), ← hds] at h
    obtain ⟨t, ht, -⟩ := Scanner.scan_ofList_eq_ok_iff.1 h
    obtain ⟨s, hs, -⟩ := Scanner.run_append_eq_ok_iff.1 ht
    exact ⟨s, hs, (Scanner.Ordered.start.run hs).nested⟩
  · rintro rfl beyond
    rw [Expr.ofLexemes_ahead (closes_of_scan h), Expr.parse_eq_ofLexemes, h]
    rfl
  · rintro rfl beyond atEnd
    rw [readStmts_ahead (closes_of_scan h), Program.parse, h]
    rfl

/-- Two blocks that end together, in which an argument has a line to itself. -/
def nestedText : String :=
  "while a:\n  if b:\n    f(\n c)\n"

theorem scan_bracketed_nested :
    (∃ ls, scan .program nestedText = .ok ls ∧
      tokens ls = [.keyword .while_, .name "a", .mark .colon, .newline, .indent,
        .keyword .if_, .name "b", .mark .colon, .newline, .indent,
        .name "f", .mark .parenLeft, .name "c", .mark .parenRight, .newline,
        .outdent, .outdent, .endOfInput] ∧
      Bracketed (tokens ls) ∧
      ∀ beyond atEnd, readStmtsOr atEnd (ls ++ beyond) (ls ++ beyond) = Program.parse nestedText) ∧
    ∃ ls, scan .expression "f(\n a)" = .ok ls ∧ .indent ∉ tokens ls ∧
      ∀ beyond, Expr.ofLexemes (ls ++ beyond) = Expr.parse "f(\n a)" := by
  have hprogram : scan .program nestedText = .ok [⟨.keyword .while_, ⟨1, 1⟩⟩, ⟨.name "a", ⟨1, 7⟩⟩,
      ⟨.mark .colon, ⟨1, 8⟩⟩, ⟨.newline, ⟨1, 9⟩⟩, ⟨.indent, ⟨2, 3⟩⟩, ⟨.keyword .if_, ⟨2, 3⟩⟩,
      ⟨.name "b", ⟨2, 6⟩⟩, ⟨.mark .colon, ⟨2, 7⟩⟩, ⟨.newline, ⟨2, 8⟩⟩, ⟨.indent, ⟨3, 5⟩⟩,
      ⟨.name "f", ⟨3, 5⟩⟩, ⟨.mark .parenLeft, ⟨3, 6⟩⟩, ⟨.name "c", ⟨4, 2⟩⟩,
      ⟨.mark .parenRight, ⟨4, 3⟩⟩, ⟨.newline, ⟨4, 4⟩⟩, ⟨.outdent, ⟨5, 1⟩⟩, ⟨.outdent, ⟨5, 1⟩⟩,
      ⟨.endOfInput, ⟨5, 1⟩⟩] := by cbv
  have hexpression : scan .expression "f(\n a)" = .ok [⟨.name "f", ⟨1, 1⟩⟩,
      ⟨.mark .parenLeft, ⟨1, 2⟩⟩, ⟨.name "a", ⟨2, 2⟩⟩, ⟨.mark .parenRight, ⟨2, 3⟩⟩,
      ⟨.newline, ⟨2, 4⟩⟩, ⟨.endOfInput, ⟨2, 4⟩⟩] := by cbv
  obtain ⟨hbracketed, -, -, -, hparse⟩ := scan_bracketed hprogram
  obtain ⟨-, hflat, -, hread, -⟩ := scan_bracketed hexpression
  exact ⟨⟨_, hprogram, rfl, hbracketed, hparse rfl⟩, _, hexpression, (hflat rfl).1, hread rfl⟩

end ScriptShell
