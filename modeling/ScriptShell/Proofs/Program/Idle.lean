import Mathlib
import ScriptShell.Classify
import ScriptShell.Proofs.Program.Moved
import ScriptShell.Proofs.Token.Line

/-!
# ScriptShell.Proofs.Program.Idle

Lines that hold no token. A line of blanks, or of blanks and a comment, may stand anywhere between
two lines of a text: what is read, or refused, is the same with the places behind it moved a line
down.

* `EndsLine`: the texts behind which a line begins.
* `IdleLine`: the lines that hold no token.
* `Scanner.run_endsLine`: the machine where a line begins.
* `scan_idleLine`: the lexemes of a text with an idle line more.
-/

namespace ScriptShell

/-- The place a line further down, for the lines behind the first `n`. -/
def Pos.pushed (n : Nat) (p : Pos) : Pos :=
  if n < p.line then ⟨p.line + 1, p.col⟩ else p

/-- The characters are none, or a line end is the last of them, behind no backslash. -/
def EndsLine (cs : List Char) : Prop :=
  cs = [] ∨ ∃ ds, cs = ds ++ ['\n'] ∧ ds.getLast? ≠ some Text.backslash

/-- A line of blanks, and a comment behind them if there is one. -/
inductive IdleLine : List Char → Prop
  | nil : IdleLine []
  | blank {c : Char} {cs : List Char} : c = ' ' ∨ c = '\t' → IdleLine cs → IdleLine (c :: cs)
  | comment {cs : List Char} : '\n' ∉ cs → IdleLine ('#' :: cs)

theorem IdleLine.not_mem {cs : List Char} (h : IdleLine cs) : '\n' ∉ cs := by
  induction h with
  | nil => simp
  | blank hc _ ih => rcases hc with rfl | rfl <;> simpa using ih
  | comment h => simpa using h

/-! ## Places -/

namespace Pos

variable {n : Nat} {p : Pos} {cs : List Char}

theorem pushed_of_le (h : p.line ≤ n) : p.pushed n = p :=
  if_neg (by omega)

theorem pushed_of_lt (h : n < p.line) : p.pushed n = p.below :=
  if_pos h

theorem line_advanceBy (p : Pos) (cs : List Char) :
    (p.advanceBy cs).line = p.line + cs.count '\n' := by
  induction cs generalizing p with
  | nil => rfl
  | cons c cs ih =>
    have hcons : p.advanceBy (c :: cs) = (p.advance c).advanceBy cs := rfl
    rw [hcons, ih, List.count_cons]
    by_cases hc : c = '\n'
    · simp only [advance, hc, beq_self_eq_true, if_true]
      omega
    · simp [advance, hc]

theorem moves_pushed (h : n < p.line) : p.Moves (Pos.pushed n) := by
  intro cs
  have hline := p.line_advanceBy cs
  rw [pushed_of_lt (by omega), pushed_of_lt h]
  exact p.moves_below cs

theorem advanceBy_lineEnd : (p.advanceBy (cs ++ ['\n'])) = ⟨p.line + cs.count '\n' + 1, 1⟩ := by
  rw [advanceBy_append, ← line_advanceBy]
  rfl

theorem start_advanceBy (h : EndsLine cs) : start.advanceBy cs = ⟨cs.count '\n' + 1, 1⟩ := by
  rcases h with rfl | ⟨ds, rfl, -⟩
  · rfl
  · rw [advanceBy_lineEnd, List.count_append, List.count_singleton_self, Nat.add_comm start.line]
    rfl

end Pos

namespace Scanner

variable {mode : ScanMode} {π : Pos → Pos} {s t : Scanner} {c : Char} {cs : List Char}

/-! ## Idle lines -/

/-- Where a line begins, an idle line leaves the machine as it was. -/
theorem run_idleLine_of_lineStart {width : Nat} (h : IdleLine cs)
    (hs : s.phase = .lineStart width) :
    s.run mode (cs ++ ['\n']) =
      .ok { s with phase := .lineStart 0, pos := s.pos.advanceBy (cs ++ ['\n']) } := by
  induction h generalizing s width with
  | nil =>
    refine run_cons_eq_ok_iff.2 ⟨s.move '\n' (.lineStart 0), ?_, rfl⟩
    exact step_newline_of_outer (by rw [hs]; rfl)
  | @blank c cs hc _ ih =>
    obtain ⟨width', hstep⟩ : ∃ width', s.step mode c = .ok (s.move c (.lineStart width')) := by
      rcases hc with rfl | rfl
      · exact ⟨width + 1, by rw [step, hs]; rfl⟩
      · exact ⟨width + (8 - width % 8), by rw [step, hs]; rfl⟩
    exact run_cons_eq_ok_iff.2 ⟨_, hstep, ih (s := s.move c (.lineStart width')) rfl⟩
  | @comment cs hcs =>
    have hstep : s.step mode '#' = .ok (s.move '#' (.comment true)) := by
      rw [step, hs]
      rfl
    refine run_cons_eq_ok_iff.2 ⟨_, hstep, run_append_eq_ok_iff.2 ⟨_, run_comment hcs rfl, ?_⟩⟩
    refine run_cons_eq_ok_iff.2 ⟨_, step_newline_of_outer rfl, ?_⟩
    simp only [run_nil, move, Except.ok.injEq, mk.injEq, true_and, and_true]
    rw [Pos.advanceBy_append]
    rfl

/-- So it does between parentheses. -/
theorem run_idleLine_of_inLine (h : IdleLine cs) (hs : s.phase = .inLine) (hdepth : s.depth ≠ 0) :
    s.run mode (cs ++ ['\n']) = .ok { s with pos := s.pos.advanceBy (cs ++ ['\n']) } := by
  have hline : ∀ {s : Scanner}, s.depth ≠ 0 →
      s.readInLine '\n' = .ok (s.move '\n' .inLine) := by
    intro s hdepth
    rw [readInLine, if_pos rfl, if_neg hdepth]
  induction h generalizing s with
  | nil =>
    have hstep : s.step mode '\n' = .ok (s.move '\n' .inLine) := by
      rw [step, hs]
      exact hline hdepth
    refine run_cons_eq_ok_iff.2 ⟨_, hstep, ?_⟩
    simp only [run_nil, move, ← hs]
    rfl
  | @blank c cs hc _ ih =>
    have hstep : s.step mode c = .ok (s.move c .inLine) := by
      rw [step, hs]
      rcases hc with rfl | rfl <;> rfl
    refine run_cons_eq_ok_iff.2 ⟨_, hstep, (ih (s := s.move c .inLine) rfl hdepth).trans ?_⟩
    simp only [move, ← hs]
    rfl
  | @comment cs hcs =>
    have hstep : s.step mode '#' = .ok (s.move '#' (.comment false)) := by
      rw [step, hs]
      rfl
    refine run_cons_eq_ok_iff.2 ⟨_, hstep, run_append_eq_ok_iff.2 ⟨_, run_comment hcs rfl, ?_⟩⟩
    refine run_cons_eq_ok_iff.2 ⟨_, hline (by exact hdepth), ?_⟩
    simp only [run_nil, move, ← hs]
    rw [Pos.advanceBy_append]
    rfl

/-! ## Where a line begins -/

theorem backslash_of_run {p : Pos} (h : start.run mode cs = .ok t) (ht : t.phase = .continued p) :
    cs.getLast? = some Text.backslash := by
  rcases List.eq_nil_or_concat cs with rfl | ⟨ds, c, rfl⟩
  · cases h
    cases ht
  · rw [List.concat_eq_append] at h ⊢
    obtain ⟨s, -, h⟩ := run_append_eq_ok_iff.1 h
    obtain ⟨t', hstep, hnil⟩ := run_cons_eq_ok_iff.1 h
    cases hnil
    rw [List.getLast?_append, backslash_of_step hstep ht]
    rfl

/-- What the machine does with places that moving does not change, moving does not change. -/
theorem run_still {n : Nat} (mode : ScanMode) (hπ : ∀ p : Pos, p.line ≤ n → π p = p)
    (hs : s.moved π [] = s) (hn : (s.pos.advanceBy cs).line ≤ n) :
    s.run mode cs = movedBy π (moved π []) (s.run mode cs) := by
  induction cs generalizing s with
  | nil => exact congrArg Except.ok hs.symm
  | cons c cs ih =>
    have hcons : s.pos.advanceBy (c :: cs) = (s.pos.advance c).advanceBy cs := rfl
    have hline := (s.pos.advance c).line_advanceBy cs
    have hline' := s.pos.line_advanceBy (c :: cs)
    have hadvance : π (s.pos.advance c) = (π s.pos).advance c := by
      rw [hπ s.pos (by omega), hπ _ (by rw [hcons] at hn; omega)]
    have hstep : (s.moved π []).step mode c = movedBy π (moved π []) (s.step mode c) :=
      step_moved hadvance
    rw [hs] at hstep
    rw [run_cons]
    cases hu : s.step mode c with
    | error e =>
      rw [hu] at hstep
      exact hstep
    | ok u =>
      rw [hu] at hstep
      refine ih (Except.ok.inj hstep).symm ?_
      rw [step_pos hu, ← hcons]
      exact hn

/-- So it is with a line end, but for the place behind it. -/
theorem newline_still (hs : s.moved π [] = s) (ht : s.step mode '\n' = .ok t)
    (hjoin : ∀ p, s.phase ≠ .continued p) : t.moved π [] = { t with pos := π t.pos } := by
  have hlexemes : ∀ {u : Scanner}, u.moved π [] = u →
      u.lexemes.map (Lexeme.mapPos π) ++ [] = u.lexemes := fun hu => congrArg Scanner.lexemes hu
  rcases newline_cases ht hjoin with ⟨-, rfl⟩ | ⟨u, hu, hread⟩
  · simp only [moved, move, hlexemes hs]
    rfl
  · have hsettle : (s.moved π []).settle = movedBy π (moved π []) s.settle := settle_moved
    rw [hs, hu] at hsettle
    have hstill : u.moved π [] = u := (Except.ok.inj hsettle).symm
    have hpos : π u.pos = u.pos := congrArg Scanner.pos hstill
    rcases hread with ⟨-, rfl⟩ | ⟨-, rfl⟩
    · simp only [moved, move, emit, List.map_cons, List.cons_append, hlexemes hstill, Lexeme.mapPos,
        hpos]
      rfl
    · simp only [moved, move, hlexemes hstill]
      rfl

theorem newline_error_still {e : SyntaxError} (hs : s.moved π [] = s)
    (he : s.step mode '\n' = .error e) (hjoin : ∀ p, s.phase ≠ .continued p) :
    e.mapPos π = e := by
  have hphase : s.phase.mapPos π = s.phase := congrArg Scanner.phase hs
  by_cases houter : s.phase.isOuter = true
  · rw [step_newline_of_outer houter] at he
    cases he
  cases hbroken : s.phase.isBroken with
  | false =>
    rw [step_newline hbroken (by simpa using houter)] at he
    have hsettle : (s.moved π []).settle = movedBy π (moved π []) s.settle := settle_moved
    rw [hs] at hsettle
    cases hu : s.settle with
    | error e' =>
      rw [hu] at he hsettle
      cases he
      exact (Except.error.inj hsettle).symm
    | ok u =>
      rw [hu] at he
      have hread : u.readInLine '\n' = .error e := he
      rw [readInLine, if_pos rfl] at hread
      split at hread <;> cases hread
  | true =>
    rw [step] at he
    cases hp : s.phase with
    | continued p => exact absurd hp (hjoin p)
    | string p quote read =>
      rw [hp] at he hphase
      cases he
      rw [SyntaxError.mapPos, (Phase.string.inj hphase).1]
    | escape p quote read =>
      rw [hp] at he hphase
      cases he
      rw [SyntaxError.mapPos, (Phase.escape.inj hphase).1]
    | _ => rw [hp] at hbroken; cases hbroken

/-- Where a line begins the machine is between lines, or between parentheses. -/
theorem phase_of_endsLine (h : EndsLine cs) (ht : start.run mode cs = .ok t) :
    t.phase = .lineStart 0 ∨ (t.phase = .inLine ∧ t.depth ≠ 0) := by
  rcases h with rfl | ⟨ds, rfl, hds⟩
  · cases ht
    exact .inl rfl
  · obtain ⟨s, hs, ht⟩ := run_append_eq_ok_iff.1 ht
    obtain ⟨t', hstep, hnil⟩ := run_cons_eq_ok_iff.1 ht
    cases hnil
    rcases newline_cases hstep fun p hp => hds (backslash_of_run hs hp) with
      ⟨-, rfl⟩ | ⟨u, -, ⟨-, rfl⟩ | ⟨hdepth, rfl⟩⟩
    · exact .inl rfl
    · exact .inl rfl
    · exact .inr ⟨rfl, hdepth⟩

/-- Of what was done before a line begins, moving what is behind it changes the place where the line
begins alone. -/
theorem run_endsLine (mode : ScanMode) (h : EndsLine cs) :
    (∀ e, start.run mode cs = .error e → e.mapPos (Pos.pushed (cs.count '\n')) = e) ∧
    (∀ t, start.run mode cs = .ok t →
      t.moved (Pos.pushed (cs.count '\n')) [] = { t with pos := t.pos.below }) := by
  rcases h with rfl | ⟨ds, rfl, hds⟩
  · rw [run_nil]
    refine ⟨fun e he => ?_, fun t ht => ?_⟩ <;> cases ‹Except.ok start = _›
    rfl
  have hcount : (ds ++ ['\n']).count '\n' = ds.count '\n' + 1 := by
    rw [List.count_append, List.count_singleton_self]
  rw [hcount]
  have hstart : start.moved (Pos.pushed (ds.count '\n' + 1)) [] = start := by
    have hpos : start.pos.pushed (ds.count '\n' + 1) = start.pos :=
      Pos.pushed_of_le (Nat.le_add_left 1 _)
    rw [moved, hpos]
    rfl
  have hline : (start.pos.advanceBy ds).line = ds.count '\n' + 1 := by
    rw [Pos.line_advanceBy, Nat.add_comm]
    rfl
  have hrun := run_still mode (fun p => Pos.pushed_of_le) hstart (Nat.le_of_eq hline)
  rw [run_append]
  cases hs : start.run mode ds with
  | error e =>
    rw [hs] at hrun
    refine ⟨fun e' he' => ?_, fun t ht => by cases ht⟩
    cases he'
    exact (Except.error.inj hrun).symm
  | ok s =>
    rw [hs] at hrun
    have hstill : s.moved (Pos.pushed (ds.count '\n' + 1)) [] = s := (Except.ok.inj hrun).symm
    have hjoin : ∀ p, s.phase ≠ .continued p := fun p hp => hds (backslash_of_run hs hp)
    have hone : s.run mode ['\n'] = s.step mode '\n' := by
      rw [run_cons]
      cases s.step mode '\n' <;> rfl
    show (∀ e, s.run mode ['\n'] = .error e → _) ∧ (∀ t, s.run mode ['\n'] = .ok t → _)
    rw [hone]
    refine ⟨fun e he => newline_error_still hstill he hjoin, fun t ht => ?_⟩
    have hpos : t.pos.line = (start.pos.advanceBy ds).line + 1 := by
      rw [step_pos ht, run_pos hs]
      rfl
    rw [newline_still hstill ht hjoin, Pos.pushed_of_lt (by omega)]

/-- Where a line begins, an idle line moves the place where the next one begins, and nothing
else. -/
theorem run_idleLine {ls : List Char} (h : EndsLine cs) (ht : start.run mode cs = .ok t)
    (hl : IdleLine ls) : t.run mode (ls ++ ['\n']) = .ok { t with pos := t.pos.below } := by
  have hpos : t.pos.advanceBy (ls ++ ['\n']) = t.pos.below := by
    have hstart : t.pos = ⟨cs.count '\n' + 1, 1⟩ := (run_pos ht).trans (Pos.start_advanceBy h)
    rw [Pos.advanceBy_lineEnd, List.count_eq_zero_of_not_mem hl.not_mem, hstart]
    rfl
  rcases phase_of_endsLine h ht with hphase | ⟨hphase, hdepth⟩
  · rw [run_idleLine_of_lineStart hl hphase, hpos, ← hphase]
  · rw [run_idleLine_of_inLine hl hphase hdepth, hpos]

end Scanner

/-- The lexemes of a text with an idle line more are its lexemes, those behind the line a line
further down. So is what it is refused for. -/
theorem scan_idleLine (mode : ScanMode) {cs ls : List Char} (h : EndsLine cs) (hl : IdleLine ls)
    (ds : List Char) :
    scan mode (String.ofList (cs ++ ((ls ++ ['\n']) ++ ds))) =
      movedBy (Pos.pushed (cs.count '\n')) (movedLexemes (Pos.pushed (cs.count '\n')))
        (scan mode (String.ofList (cs ++ ds))) := by
  obtain ⟨herror, hok⟩ := Scanner.run_endsLine mode h
  rw [scan, scan, String.toList_ofList, String.toList_ofList, Scanner.run_append,
    Scanner.run_append]
  cases ht : Scanner.start.run mode cs with
  | error e => exact congrArg Except.error (herror e ht).symm
  | ok t =>
    have hline : cs.count '\n' < t.pos.line := by
      rw [Scanner.run_pos ht]
      exact Nat.lt_of_lt_of_eq (Nat.lt_succ_self _)
        (congrArg Pos.line (Pos.start_advanceBy h)).symm
    have hbehind : (t.run mode ((ls ++ ['\n']) ++ ds)) =
        movedBy (Pos.pushed (cs.count '\n')) (Scanner.moved (Pos.pushed (cs.count '\n')) [])
          (t.run mode ds) := by
      rw [Scanner.run_append, Scanner.run_idleLine h ht hl, ← hok t ht]
      exact Scanner.run_moved (Pos.moves_pushed hline)
    dsimp only [Except.bind]
    rw [hbehind]
    cases t.run mode ds with
    | error e => rfl
    | ok u => exact Scanner.finish_moved

/-! ## Trees -/

/-- A failure with its place moved, if it is that of a text which is not accepted. -/
def Error.mapTextPos (π : Pos → Pos) : Error → Error
  | .parse location text => .parse ⟨location.file, π location.pos⟩ text
  | e => e

theorem mapError_movedBy {α : Type} (π : Pos → Pos) (f : α → α) (file : String)
    (x : Except SyntaxError α) :
    (movedBy π f x).mapError (SyntaxError.inFile file) =
      ((x.mapError (SyntaxError.inFile file)).map f).mapError (Error.mapTextPos π) := by
  cases x <;> rfl

/-- A line that holds no token may stand where a line begins. The tree is the same, with the places
behind the line a line further down, and so is the failure of a text that is not accepted. -/
theorem parse_idleLine (file : String) {before line : String} (hb : EndsLine before.toList)
    (hl : IdleLine line.toList) (behind : String) :
    parseProgram file (before ++ line ++ "\n" ++ behind) =
      ((parseProgram file (before ++ behind)).map
        (List.map (Stmt.mapPos (Pos.pushed (before.toList.count '\n'))))).mapError
          (Error.mapTextPos (Pos.pushed (before.toList.count '\n'))) ∧
    parseExpr file (before ++ line ++ "\n" ++ behind) =
      ((parseExpr file (before ++ behind)).map
        (Expr.mapPos (Pos.pushed (before.toList.count '\n')))).mapError
          (Error.mapTextPos (Pos.pushed (before.toList.count '\n'))) := by
  have htext : before ++ line ++ "\n" ++ behind =
      String.ofList (before.toList ++ ((line.toList ++ ['\n']) ++ behind.toList)) := by
    apply String.toList_inj.1
    simp
  have htext' : before ++ behind = String.ofList (before.toList ++ behind.toList) := by
    apply String.toList_inj.1
    simp
  have hscan := fun mode => scan_idleLine mode hb hl behind.toList
  rw [← htext, ← htext'] at hscan
  constructor
  · rw [parseProgram, Program.parse_moved (hscan .program)]
    exact mapError_movedBy _ _ _ _
  · rw [parseExpr, Expr.parse_moved (hscan .expression)]
    exact mapError_movedBy _ _ _ _

theorem parse_idleLine_else :
    EndsLine "if x:\n  y\n".toList ∧ IdleLine " \t# c".toList ∧
      parseProgram "t" ("if x:\n  y\n" ++ " \t# c" ++ "\n" ++ "else:\n  z\n") =
        .ok [.if_ (.name "x" ⟨1, 4⟩) [.expr (.name "y" ⟨2, 3⟩) ⟨2, 3⟩]
          [.expr (.name "z" ⟨5, 3⟩) ⟨5, 3⟩] ⟨1, 1⟩] ∧
      parseExpr "t" ("if x:\n  y\n" ++ " \t# c" ++ "\n" ++ "else:\n  z\n") =
        .error (.parse ⟨"t", ⟨1, 1⟩⟩ "got if, want primary expression") := by
  have hb : EndsLine "if x:\n  y\n".toList :=
    .inr ⟨"if x:\n  y".toList, by simp, by simp [Text.backslash]⟩
  have hl : IdleLine " \t# c".toList := by
    have hline : " \t# c".toList = [' ', '\t', '#', ' ', 'c'] := by simp
    rw [hline]
    exact .blank (.inl rfl) (.blank (.inr rfl) (.comment (by decide)))
  have hcount : "if x:\n  y\n".toList.count '\n' = 2 := by simp
  have hp : parseProgram "t" ("if x:\n  y\n" ++ "else:\n  z\n") =
      .ok [.if_ (.name "x" ⟨1, 4⟩) [.expr (.name "y" ⟨2, 3⟩) ⟨2, 3⟩]
        [.expr (.name "z" ⟨4, 3⟩) ⟨4, 3⟩] ⟨1, 1⟩] := by cbv
  have he : parseExpr "t" ("if x:\n  y\n" ++ "else:\n  z\n") =
      .error (.parse ⟨"t", ⟨1, 1⟩⟩ "got if, want primary expression") := by
    have hparse : Expr.parse ("if x:\n  y\n" ++ "else:\n  z\n") =
        .error ⟨⟨1, 1⟩, .wantPrimary (.keyword .if_)⟩ := by cbv
    rw [parseExpr, hparse]
    rfl
  obtain ⟨hprogram, hexpr⟩ := parse_idleLine "t" hb hl "else:\n  z\n"
  refine ⟨hb, hl, ?_, ?_⟩
  · rw [hprogram, hp, hcount]
    rfl
  · rw [hexpr, he, hcount]
    rfl

end ScriptShell
