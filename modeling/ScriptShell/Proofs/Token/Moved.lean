import ScriptShell.Proofs.Token.Scan

/-!
# ScriptShell.Proofs.Token.Moved

Where a text stands, and what has been written before it, means nothing to the scanner. If every
place is moved, in a way that goes along with reading on, and other lexemes were written before, the
machine does the same, and what it writes and what it refuses is moved.

* `Scanner.moved`: the machine with every place moved, behind other lexemes.
* `Pos.Moves`: moving goes along with reading on.
* `Scanner.step_moved`, `Scanner.run_moved`: a step and a run of a moved machine.
* `Scanner.finish_moved`, `Scanner.finish_behind`: the lexemes of a text.
-/

namespace ScriptShell

/-- A lexeme with its place moved. -/
def Lexeme.mapPos (π : Pos → Pos) (l : Lexeme) : Lexeme :=
  ⟨l.token, π l.pos⟩

/-- A refusal with its place moved. -/
def SyntaxError.mapPos (π : Pos → Pos) (e : SyntaxError) : SyntaxError :=
  ⟨π e.pos, e.fault⟩

/-- Is the machine in the middle of something that no text may end in? -/
def Phase.isBroken : Phase → Bool
  | .continued _ | .string .. | .escape .. => true
  | _ => false

/-- An outcome moved: what there is by `f`, a refusal by its place. -/
def movedBy {α β : Type} (π : Pos → Pos) (f : α → β) : Except SyntaxError α → Except SyntaxError β
  | .ok a => .ok (f a)
  | .error e => .error (e.mapPos π)

theorem movedBy_bind {α : Type} {π : Pos → Pos} {f : α → α} {x : Except SyntaxError α}
    {k : α → Except SyntaxError α} (hk : ∀ a, x = .ok a → k (f a) = movedBy π f (k a)) :
    (movedBy π f x).bind k = movedBy π f (x.bind k) := by
  cases x with
  | error e => rfl
  | ok a => exact hk a rfl

/-- A phase with the place of the pending token moved. -/
def Phase.mapPos (π : Pos → Pos) : Phase → Phase
  | .continued p => .continued (π p)
  | .word p read => .word (π p) read
  | .number p read => .number (π p) read
  | .string p quote read => .string (π p) quote read
  | .escape p quote read => .escape (π p) quote read
  | .pair p first => .pair (π p) first
  | phase => phase

/-- Moving goes along with reading on from `p`. -/
def Pos.Moves (π : Pos → Pos) (p : Pos) : Prop :=
  ∀ cs, π (p.advanceBy cs) = (π p).advanceBy cs

namespace Pos.Moves

variable {π : Pos → Pos} {p : Pos}

theorem step (h : Pos.Moves π p) (c : Char) : π (p.advance c) = (π p).advance c :=
  h [c]

theorem advance (h : Pos.Moves π p) (c : Char) : Pos.Moves π (p.advance c) := by
  intro cs
  have hcs : π ((p.advance c).advanceBy cs) = ((π p).advance c).advanceBy cs := h (c :: cs)
  rw [hcs, h.step c]

/-- It does if it goes along with every character. -/
theorem of_step (h : ∀ p c, π (p.advance c) = (π p).advance c) (p : Pos) : Pos.Moves π p := by
  intro cs
  induction cs generalizing p with
  | nil => rfl
  | cons c cs ih => exact (ih (p.advance c)).trans (by rw [h]; rfl)

end Pos.Moves

namespace Scanner

variable {mode : ScanMode} {π : Pos → Pos} {before : List Lexeme} {s t : Scanner} {c : Char}
  {cs : List Char}

/-- The machine with every place moved, behind lexemes that were written before. -/
def moved (π : Pos → Pos) (before : List Lexeme) (s : Scanner) : Scanner :=
  ⟨s.phase.mapPos π, π s.pos, s.depth, s.indents, s.lexemes.map (Lexeme.mapPos π) ++ before⟩

/-! ## A step -/

theorem move_moved (h : π (s.pos.advance c) = (π s.pos).advance c) (phase : Phase) :
    (s.moved π before).move c (phase.mapPos π) = (s.move c phase).moved π before := by
  simp [move, moved, h]

theorem ok_move_moved (h : π (s.pos.advance c) = (π s.pos).advance c) (phase : Phase) :
    .ok ((s.moved π before).move c (phase.mapPos π)) =
      movedBy π (moved π before) (.ok (s.move c phase)) :=
  congrArg Except.ok (move_moved h phase)

theorem emit_moved (p : Pos) (tok : Token) :
    (s.moved π before).emit (π p) tok = (s.emit p tok).moved π before := rfl

theorem readInLine_moved (h : π (s.pos.advance c) = (π s.pos).advance c) :
    (s.moved π before).readInLine c = movedBy π (moved π before) (s.readInLine c) := by
  have hdepth : (s.moved π before).depth = s.depth := rfl
  have hpos : (s.moved π before).pos = π s.pos := rfl
  simp only [readInLine, hdepth, hpos]
  split_ifs
  · rw [emit_moved]
    exact congrArg Except.ok (move_moved (s := s.emit s.pos .newline) h (.lineStart 0))
  · exact ok_move_moved h .inLine
  · exact ok_move_moved h .inLine
  · exact ok_move_moved h (.comment false)
  · exact ok_move_moved h (.continued s.pos)
  · exact ok_move_moved h (.string s.pos c [])
  · exact ok_move_moved h (.number s.pos [c])
  · exact ok_move_moved h (.word s.pos [c])
  · exact ok_move_moved h (.pair s.pos c)
  · cases Mark.single? c with
    | none => rfl
    | some m => simp [movedBy, moved, move, emit, h, Lexeme.mapPos, Phase.mapPos]

theorem settle_moved : (s.moved π before).settle = movedBy π (moved π before) s.settle := by
  obtain ⟨phase, pos, depth, indents, lexemes⟩ := s
  cases phase with
  | number p read =>
    simp only [settle, moved, Phase.mapPos]
    cases Integer.ofDigits? read.reverse <;> rfl
  | pair p first =>
    simp only [settle, moved, Phase.mapPos]
    cases Mark.lone? first <;> rfl
  | _ => rfl

theorem layout_moved (width : Nat) :
    (s.moved π before).layout width = movedBy π (moved π before) (s.layout width) := by
  have hindent : (s.moved π before).indent = s.indent := rfl
  have hindents : (s.moved π before).indents = s.indents := rfl
  simp only [layout, hindent, hindents]
  split_ifs
  · rfl
  · simp [movedBy, moved, Lexeme.mapPos]
  · rfl

theorem settleAndRead_eq_bind :
    s.settleAndRead c = s.settle.bind (readInLine · c) := by
  unfold settleAndRead
  cases s.settle <;> rfl

theorem settleAndRead_moved (h : π (s.pos.advance c) = (π s.pos).advance c) :
    (s.moved π before).settleAndRead c = movedBy π (moved π before) (s.settleAndRead c) := by
  rw [settleAndRead_eq_bind, settleAndRead_eq_bind, settle_moved]
  refine movedBy_bind fun t ht => readInLine_moved ?_
  rwa [settle_pos ht]

theorem readLineStart_moved (h : π (s.pos.advance c) = (π s.pos).advance c) (width : Nat) :
    (s.moved π before).readLineStart mode width c =
      movedBy π (moved π before) (s.readLineStart mode width c) := by
  simp only [readLineStart]
  split_ifs
  · exact ok_move_moved h (.lineStart (width + 1))
  · exact ok_move_moved h (.lineStart (width + (8 - width % 8)))
  · exact ok_move_moved h (.lineStart 0)
  · exact ok_move_moved h (.comment true)
  · cases mode with
    | expression => exact readInLine_moved h
    | program =>
      dsimp only
      rw [layout_moved]
      cases hs : s.layout width with
      | error e => rfl
      | ok t =>
        refine readInLine_moved ?_
        rwa [layout_pos hs]

/-- Reading a character is the same elsewhere, and behind other lexemes. -/
theorem step_moved (h : π (s.pos.advance c) = (π s.pos).advance c) :
    (s.moved π before).step mode c = movedBy π (moved π before) (s.step mode c) := by
  have hphase : (s.moved π before).phase = s.phase.mapPos π := rfl
  unfold step
  rw [hphase]
  cases hs : s.phase with
  | lineStart width => exact readLineStart_moved h width
  | inLine => exact readInLine_moved h
  | comment whole =>
    simp only [Phase.mapPos]
    split_ifs
    · exact ok_move_moved h (.lineStart 0)
    · exact readInLine_moved h
    · exact ok_move_moved h (.comment whole)
  | continued p =>
    simp only [Phase.mapPos]
    split_ifs
    · exact ok_move_moved h .inLine
    · rfl
  | word p read =>
    simp only [Phase.mapPos]
    split_ifs
    · exact ok_move_moved h (.word p (c :: read))
    · exact settleAndRead_moved h
  | number p read =>
    simp only [Phase.mapPos]
    split_ifs
    · exact ok_move_moved h (.number p (c :: read))
    · exact settleAndRead_moved h
  | pair p first =>
    simp only [Phase.mapPos]
    cases Mark.pair? first c with
    | none => exact settleAndRead_moved h
    | some m => exact congrArg Except.ok (move_moved (s := s.emit p (.mark m)) h .inLine)
  | string p quote read =>
    simp only [Phase.mapPos]
    split_ifs
    · rfl
    · exact congrArg Except.ok
        (move_moved (s := s.emit p (.str (String.ofList read.reverse))) h .inLine)
    · exact ok_move_moved h (.escape p quote read)
    · exact ok_move_moved h (.string p quote (c :: read))
  | escape p quote read =>
    simp only [Phase.mapPos]
    cases escapeValue? c with
    | none => rfl
    | some d => exact ok_move_moved h (.string p quote (d :: read))

/-! ## A text -/

/-- Reading a text is the same elsewhere, and behind other lexemes. -/
theorem run_moved (h : Pos.Moves π s.pos) :
    (s.moved π before).run mode cs = movedBy π (moved π before) (s.run mode cs) := by
  induction cs generalizing s with
  | nil => rfl
  | cons c cs ih =>
    rw [run_cons, run_cons, step_moved (h.step c)]
    refine movedBy_bind fun t ht => ih ?_
    rw [step_pos ht]
    exact h.advance c

theorem finish_eq_ok_iff {ls : List Lexeme} :
    s.finish = .ok ls ↔ s.phase.isBroken = false ∧ ∃ s', s.settle = .ok s' ∧
      ls = s'.lexemes.reverse ++ s'.closing := by
  unfold finish
  cases hphase : s.phase <;> cases hs : s.settle <;> simp [Phase.isBroken, eq_comm]

theorem closing_moved (h : s.lexemes = [] → ∀ l ∈ before.head?, l.token = .newline) :
    (s.moved π before).closing = s.closing.map (Lexeme.mapPos π) := by
  have hlexemes : (s.moved π before).lexemes = s.lexemes.map (Lexeme.mapPos π) ++ before := rfl
  unfold closing
  rw [hlexemes]
  cases hs : s.lexemes with
  | nil =>
    cases before with
    | nil => simp [moved, Lexeme.mapPos]
    | cons l before => simp [moved, Lexeme.mapPos, h hs l rfl]
  | cons l ls => by_cases hl : l.token = .newline <;> simp [moved, Lexeme.mapPos, hl]

/-- The lexemes of a text elsewhere. -/
theorem finish_moved :
    (s.moved π []).finish = movedBy π (List.map (Lexeme.mapPos π)) s.finish := by
  have hclosing : ∀ t : Scanner, (t.moved π []).lexemes.reverse ++ (t.moved π []).closing =
      (t.lexemes.reverse ++ t.closing).map (Lexeme.mapPos π) := by
    intro t
    rw [closing_moved (by simp)]
    simp [moved]
  have hphase : (s.moved π []).phase = s.phase.mapPos π := rfl
  unfold finish
  rw [hphase, settle_moved]
  cases s.phase <;> try rfl
  all_goals
    cases s.settle with
    | error e => rfl
    | ok t => exact congrArg Except.ok (hclosing t)

/-- The lexemes of a text behind others. If it has none of its own, a line end may have to be made
up for. -/
theorem finish_behind (before : List Lexeme) {ls : List Lexeme} (h : s.finish = .ok ls) :
    ∃ gap, (s.moved π before).finish =
        .ok (before.reverse ++ (gap ++ ls.map (Lexeme.mapPos π))) ∧
      (∀ l ∈ gap, l.token = .newline) ∧
      ((∀ l ∈ before.head?, l.token = .newline) → gap = []) := by
  obtain ⟨hbroken, t, ht, rfl⟩ := finish_eq_ok_iff.1 h
  have hbroken' : (s.moved π before).phase.isBroken = false := by
    rw [← hbroken, moved]
    cases s.phase <;> rfl
  have ht' : (s.moved π before).settle = .ok (t.moved π before) := by
    rw [settle_moved, ht]
    rfl
  by_cases hfresh : t.lexemes = [] → ∀ l ∈ before.head?, l.token = .newline
  · refine ⟨[], finish_eq_ok_iff.2 ⟨hbroken', _, ht', ?_⟩, by simp, fun _ => rfl⟩
    rw [closing_moved hfresh]
    simp [moved]
  · obtain ⟨hempty, hfresh⟩ := Classical.not_imp.1 hfresh
    refine ⟨[⟨.newline, π t.pos⟩], finish_eq_ok_iff.2 ⟨hbroken', _, ht', ?_⟩, by simp,
      fun h => absurd h hfresh⟩
    cases before with
    | nil => exact absurd (by simp) hfresh
    | cons l before =>
      have hl : l.token ≠ .newline := fun hl => hfresh (by simpa using hl)
      simp [closing, moved, hempty, hl, Lexeme.mapPos]

end Scanner
end ScriptShell
