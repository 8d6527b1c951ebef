import ScriptShell.Proofs.Token.Moved

/-!
# ScriptShell.Proofs.Token.Below

Reading a text behind a line is reading it by itself: the machine does the same a line further
down, with the lexemes of that line behind those it has written.

* `Scanner.below`: the machine a line further down, behind some lexemes: it is
  `Scanner.moved` by `Pos.below`.
* `Scanner.lowers_run`: a run of it is a run of the machine.
* `Scanner.finish_below`: so are the lexemes of a text.
-/

namespace ScriptShell

/-- The place a line further down. -/
def Pos.below (p : Pos) : Pos :=
  ⟨p.line + 1, p.col⟩

theorem Pos.below_advance (p : Pos) (c : Char) : p.below.advance c = (p.advance c).below := by
  unfold Pos.advance Pos.below
  split <;> rfl

theorem Pos.moves_below (p : Pos) : p.Moves Pos.below :=
  .of_step (fun p c => (below_advance p c).symm) p

def Phase.below : Phase → Phase
  | .continued p => .continued p.below
  | .word p read => .word p.below read
  | .number p read => .number p.below read
  | .string p quote read => .string p.below quote read
  | .escape p quote read => .escape p.below quote read
  | .pair p first => .pair p.below first
  | phase => phase

def Lexeme.below (l : Lexeme) : Lexeme :=
  ⟨l.token, l.pos.below⟩

namespace Scanner

/-- The machine a line further down, where some lexemes were written before. -/
def below (before : List Lexeme) (s : Scanner) : Scanner :=
  ⟨s.phase.below, s.pos.below, s.depth, s.indents, s.lexemes.map Lexeme.below ++ before⟩

variable {mode : ScanMode} {s : Scanner} {before : List Lexeme}

theorem below_eq_moved : s.below before = s.moved Pos.below before := by
  unfold below moved
  congr 1

/-- What a reader of characters does a line further down. -/
def Lowers (r : Scanner → Except SyntaxError Scanner) : Prop :=
  ∀ (before : List Lexeme) (s : Scanner),
    (r (s.below before)).toOption = (r s).toOption.map (below before)

theorem lowers_run (cs : List Char) : Lowers (run mode · cs) := by
  intro before s
  dsimp only
  rw [below_eq_moved, run_moved (Pos.moves_below s.pos)]
  cases s.run mode cs with
  | error e => rfl
  | ok t => exact congrArg some below_eq_moved.symm

theorem Lowers.ok {r : Scanner → Except SyntaxError Scanner} {t : Scanner} (hr : Lowers r)
    (h : r (s.below before) = .ok t) : ∃ s', r s = .ok s' ∧ t = s'.below before := by
  have hlow := hr before s
  rw [h] at hlow
  cases hs : r s with
  | error e =>
    rw [hs] at hlow
    cases hlow
  | ok s' =>
    rw [hs] at hlow
    exact ⟨s', rfl, Option.some.inj hlow⟩

/-- The lexemes of a text behind others that end a line are these and those of the text. -/
theorem finish_below {ls : List Lexeme} (hbefore : ∀ l ∈ before.head?, l.token = .newline)
    (h : (s.below before).finish = .ok ls) :
    ∃ ls', s.finish = .ok ls' ∧ ls = before.reverse ++ ls'.map Lexeme.below := by
  obtain ⟨hbroken, t, ht, -⟩ := finish_eq_ok_iff.1 h
  obtain ⟨ls', hs⟩ : ∃ ls', s.finish = .ok ls' := by
    have hphase : s.phase.isBroken = false := by
      rw [← hbroken, below]
      cases s.phase <;> rfl
    rw [below_eq_moved, settle_moved] at ht
    cases hsettle : s.settle with
    | error e => rw [hsettle] at ht; cases ht
    | ok s' => exact ⟨_, finish_eq_ok_iff.2 ⟨hphase, s', hsettle, rfl⟩⟩
  obtain ⟨gap, hfinish, -, hgap⟩ := finish_behind (π := Pos.below) before hs
  rw [hgap hbefore, List.nil_append, ← below_eq_moved] at hfinish
  exact ⟨ls', hs, Except.ok.inj (h.symm.trans hfinish)⟩

end Scanner
end ScriptShell
