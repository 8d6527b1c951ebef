import Mathlib
import ScriptShell.Proofs.Program.Line

/-!
# ScriptShell.Proofs.Program.Returns

Line ends of two characters. A carriage return before a line end means nothing to the scanner, but
for the places of the line ends it writes, which no tree notes. Only behind a backslash it is in the
way: there nothing but the line end itself is accepted.

* `returned`: the text with a carriage return before every line end.
* `Scanner.Apart`: machines that differ in the places of line ends and outdents alone.
* `Scanner.joint?`: the first backslash that joins two lines.
* `Scanner.run_returned`: a run through the text with returns.
* `Program.parse_returned`, `Expr.parse_returned`: what it is read as.
-/

namespace ScriptShell

theorem SameText.trans {π : Pos → Pos} {ls ms ns : List Lexeme} (h : SameText π ls ms)
    (h' : SameText π ms ns) : SameText π ls ns := by
  induction h generalizing ns with
  | nil => exact h'
  | cons hl _ ih =>
    cases h' with
    | cons hm hms =>
      exact .cons ⟨hl.token.trans hm.token,
        fun hp => (hl.pos hp).trans (hm.pos (hl.token ▸ hp))⟩ (ih hms)

/-- Characters with a carriage return before every line end. -/
def withReturns (cs : List Char) : List Char :=
  cs.flatMap fun c => if c = '\n' then ['\r', '\n'] else [c]

/-- A text with a carriage return before every line end. -/
def returned (text : String) : String :=
  String.ofList (withReturns text.toList)

namespace Scanner

variable {mode : ScanMode} {s s' t u : Scanner} {c : Char} {cs : List Char}

/-! ## Places that mean nothing -/

/-- The machines are in the same state and have written the same tokens, those that stand for layout
maybe at other places. -/
structure Apart (s s' : Scanner) : Prop where
  phase : s'.phase = s.phase
  pos : s'.pos = s.pos
  depth : s'.depth = s.depth
  indents : s'.indents = s.indents
  lexemes : SameText id s.lexemes s'.lexemes

theorem Apart.refl (s : Scanner) : Apart s s :=
  ⟨rfl, rfl, rfl, rfl, .refl _⟩

theorem Apart.trans (h : Apart s t) (h' : Apart t u) : Apart s u where
  phase := h'.phase.trans h.phase
  pos := h'.pos.trans h.pos
  depth := h'.depth.trans h.depth
  indents := h'.indents.trans h.indents
  lexemes := h.lexemes.trans h'.lexemes

theorem apart_moved {before before' : List Lexeme} (h : SameText id before before') :
    Apart (s.moved id before) (s.moved id before') :=
  ⟨rfl, rfl, rfl, rfl, sameText_append (.refl _) h⟩

theorem moved_id : ({ s with lexemes := [] } : Scanner).moved id s.lexemes = s := by
  obtain ⟨phase, pos, depth, indents, lexemes⟩ := s
  cases phase <;> rfl

/-- What does not look at the lexemes written before keeps machines together. -/
theorem Apart.through {r : Scanner → Except SyntaxError Scanner}
    (hr : ∀ before s, r (s.moved id before) = movedBy id (moved id before) (r s))
    (h : Apart s s') (hs : r s = .ok t) : ∃ t', r s' = .ok t' ∧ Apart t t' := by
  obtain ⟨bare, hbare, hbare'⟩ : ∃ bare : Scanner,
      bare.moved id s.lexemes = s ∧ bare.moved id s'.lexemes = s' := by
    refine ⟨{ s with lexemes := [] }, moved_id, ?_⟩
    rw [← h.phase, ← h.pos, ← h.depth, ← h.indents]
    exact moved_id
  rw [← hbare, hr] at hs
  rw [← hbare', hr]
  cases hread : r bare with
  | error e =>
    rw [hread] at hs
    cases hs
  | ok u =>
    rw [hread] at hs
    cases hs
    exact ⟨_, rfl, apart_moved h.lexemes⟩

theorem Apart.step (h : Apart s s') (hs : s.step mode c = .ok t) :
    ∃ t', s'.step mode c = .ok t' ∧ Apart t t' :=
  h.through (r := (Scanner.step mode · c)) (fun _ _ => step_moved rfl) hs

theorem Apart.closing (h : Apart s s') : s'.closing = s.closing := by
  unfold Scanner.closing
  rw [h.pos, h.indents]
  have hhead : ∀ {ls ls' : List Lexeme}, SameText id ls ls' →
      ls'.head?.map Lexeme.token = ls.head?.map Lexeme.token := by
    intro ls ls' hls
    cases hls with
    | nil => rfl
    | cons hl _ => exact congrArg some hl.token.symm
  have hlexemes := hhead h.lexemes
  cases hs : s.lexemes <;> cases hs' : s'.lexemes <;> simp_all

theorem Apart.finish {ls : List Lexeme} (h : Apart s s') (hs : s.finish = .ok ls) :
    ∃ ls', s'.finish = .ok ls' ∧ SameText id ls ls' := by
  obtain ⟨hbroken, u, hu, rfl⟩ := finish_eq_ok_iff.1 hs
  obtain ⟨u', hu', hsame⟩ := h.through (fun _ _ => settle_moved) hu
  refine ⟨_, finish_eq_ok_iff.2 ⟨h.phase ▸ hbroken, u', hu', rfl⟩, ?_⟩
  rw [hsame.closing]
  exact sameText_append (List.rel_reverse hsame.lexemes) (.refl _)

/-! ## A return before a line end -/

theorem apart_lineEnd (phase : Phase) (h : s.readInLine '\n' = .ok t) :
    ∃ t', (s.move '\r' phase).readInLine '\n' = .ok t' ∧ Apart t t' := by
  by_cases hdepth : s.depth = 0
  · rw [readInLine_newline hdepth] at h
    cases h
    exact ⟨_, readInLine_newline hdepth, rfl, rfl, rfl, rfl,
      .cons (rel_layout rfl) (SameText.refl _)⟩
  · rw [readInLine, if_pos rfl, if_neg hdepth] at h
    cases h
    refine ⟨(s.move '\r' phase).move '\n' .inLine, ?_, rfl, rfl, rfl, rfl, SameText.refl _⟩
    rw [readInLine, if_pos rfl]
    exact if_neg hdepth

theorem step_return_of_outer (mode : ScanMode) (houter : s.phase.isOuter = true) :
    ∃ phase, phase.isOuter = true ∧ s.step mode '\r' = .ok (s.move '\r' phase) := by
  rw [step]
  cases hphase : s.phase with
  | lineStart width => exact ⟨.lineStart 0, rfl, rfl⟩
  | comment whole =>
    rw [hphase] at houter
    exact ⟨.comment whole, houter, rfl⟩
  | _ => rw [hphase] at houter; cases houter

/-- A return ends a token, and is part of a comment. -/
theorem step_return (mode : ScanMode) (hbroken : s.phase.isBroken = false)
    (houter : s.phase.isOuter = false) (hu : s.settle = .ok u) :
    ∃ phase, s.step mode '\r' = .ok (u.move '\r' phase) ∧
      (u.move '\r' phase).step mode '\n' = (u.move '\r' phase).readInLine '\n' := by
  have hread : s.settleAndRead '\r' = .ok (u.move '\r' .inLine) := by
    rw [settleAndRead, hu]
    rfl
  rw [step]
  cases hphase : s.phase with
  | inLine =>
    rw [settle, hphase] at hu
    cases hu
    exact ⟨.inLine, rfl, rfl⟩
  | comment whole =>
    rw [settle, hphase] at hu
    cases hu
    cases whole with
    | false => exact ⟨.comment false, rfl, rfl⟩
    | true => rw [hphase] at houter; cases houter
  | word p read => exact ⟨.inLine, hread, rfl⟩
  | number p read => exact ⟨.inLine, hread, rfl⟩
  | pair p first =>
    have hpair : Mark.pair? first '\r' = none := by simp [Mark.pair?]
    simp only [hpair]
    exact ⟨.inLine, hread, rfl⟩
  | lineStart _ => rw [hphase] at houter; cases houter
  | continued _ => rw [hphase] at hbroken; cases hbroken
  | string _ _ _ => rw [hphase] at hbroken; cases hbroken
  | escape _ _ _ => rw [hphase] at hbroken; cases hbroken

/-- A return before a line end means nothing, unless a backslash stands before it. -/
theorem run_return (hs : s.step mode '\n' = .ok t) (hjoin : ∀ p, s.phase ≠ .continued p) :
    ∃ t', s.run mode ['\r', '\n'] = .ok t' ∧ Apart t t' := by
  have hbroken := not_isBroken_of_newline hs hjoin
  by_cases houter : s.phase.isOuter = true
  · rw [step_newline_of_outer houter] at hs
    cases hs
    obtain ⟨phase, hphase, hreturn⟩ := step_return_of_outer mode houter
    refine ⟨(s.move '\r' phase).move '\n' (.lineStart 0), ?_, rfl, rfl, rfl, rfl, SameText.refl _⟩
    exact run_cons_eq_ok_iff.2 ⟨_, hreturn,
      run_cons_eq_ok_iff.2 ⟨_, step_newline_of_outer hphase, rfl⟩⟩
  · have houter : s.phase.isOuter = false := by simpa using houter
    rw [step_newline hbroken houter] at hs
    obtain ⟨u, hu, hread⟩ : ∃ u, s.settle = .ok u ∧ u.readInLine '\n' = .ok t :=
      bind_eq_ok_iff.1 hs
    obtain ⟨phase, hreturn, hline⟩ := step_return mode hbroken houter hu
    obtain ⟨t', ht', hsame⟩ := apart_lineEnd phase hread
    exact ⟨t', run_cons_eq_ok_iff.2 ⟨_, hreturn, run_cons_eq_ok_iff.2 ⟨_, hline.trans ht', rfl⟩⟩,
      hsame⟩

/-! ## A text with returns -/

/-- The place of a backslash that a line end stands behind. -/
def lineJoint? (s : Scanner) (c : Char) : Option Pos :=
  match s.phase with
  | .continued p => if c = '\n' then some p else none
  | _ => none

/-- The place of the first backslash that joins two lines. -/
def joint? (mode : ScanMode) (s : Scanner) : List Char → Option Pos
  | [] => none
  | c :: cs =>
    match s.lineJoint? c with
    | some p => some p
    | none =>
      match s.step mode c with
      | .ok t => t.joint? mode cs
      | .error _ => none

theorem lineJoint?_eq_some_iff {p : Pos} :
    s.lineJoint? c = some p ↔ s.phase = .continued p ∧ c = '\n' := by
  unfold lineJoint?
  split
  · rename_i q hq
    by_cases hc : c = '\n' <;> simp [hq, hc]
  · rename_i hne
    simpa using fun h => absurd h (hne p)

/-- The returns of a text mean nothing up to the first backslash that joins two lines, which is
refused. -/
theorem run_returned (h : Apart s s') (hs : s.run mode cs = .ok t) :
    (∀ p, s.joint? mode cs = some p →
      s'.run mode (withReturns cs) = .error ⟨p, .strayBackslash⟩) ∧
    (s.joint? mode cs = none →
      ∃ t', s'.run mode (withReturns cs) = .ok t' ∧ Apart t t') := by
  induction cs generalizing s s' with
  | nil =>
    cases hs
    exact ⟨nofun, fun _ => ⟨s', rfl, h⟩⟩
  | cons c cs ih =>
    obtain ⟨s₁, hs₁, hs⟩ := run_cons_eq_ok_iff.1 hs
    rw [joint?]
    cases hjoint : s.lineJoint? c with
    | some p =>
      obtain ⟨hphase, rfl⟩ := lineJoint?_eq_some_iff.1 hjoint
      refine ⟨fun q hq => ?_, nofun⟩
      cases hq
      have hstep : s'.step mode '\r' = .error ⟨p, .strayBackslash⟩ := by
        rw [step, h.phase.trans hphase]
        rfl
      show s'.run mode ('\r' :: '\n' :: withReturns cs) = _
      rw [run_cons, hstep]
      rfl
    | none =>
      have hjoin : c = '\n' → ∀ p, s.phase ≠ .continued p := by
        intro hc p hp
        rw [lineJoint?_eq_some_iff.2 ⟨hp, hc⟩] at hjoint
        cases hjoint
      rw [hs₁]
      obtain ⟨t', ht', hsame⟩ : ∃ t', s'.run mode (withReturns [c]) = .ok t' ∧ Apart s₁ t' := by
        obtain ⟨t₁, ht₁, hsame⟩ := h.step hs₁
        by_cases hc : c = '\n'
        · subst hc
          obtain ⟨t', ht', hsame'⟩ := run_return ht₁ fun p => h.phase ▸ hjoin rfl p
          exact ⟨t', ht', hsame.trans hsame'⟩
        · have hone : withReturns [c] = [c] := by simp [withReturns, hc]
          rw [hone]
          exact ⟨t₁, run_cons_eq_ok_iff.2 ⟨t₁, ht₁, rfl⟩, hsame⟩
      have hcons : withReturns (c :: cs) = withReturns [c] ++ withReturns cs := by
        simp [withReturns]
      rw [hcons, run_append, ht']
      exact ih hsame hs

/-- Lines are joined only where a line end stands behind a backslash. -/
theorem infix_of_joint {p : Pos} (h : s.joint? mode cs = some p) :
    (s.phase = .continued p ∧ cs.head? = some '\n') ∨ [Text.backslash, '\n'] <:+: cs := by
  induction cs generalizing s with
  | nil => cases h
  | cons c cs ih =>
    rw [joint?] at h
    cases hjoint : s.lineJoint? c with
    | some q =>
      obtain ⟨hphase, rfl⟩ := lineJoint?_eq_some_iff.1 hjoint
      rw [hjoint] at h
      cases h
      exact .inl ⟨hphase, rfl⟩
    | none =>
      rw [hjoint] at h
      cases ht : s.step mode c with
      | error e =>
        rw [ht] at h
        cases h
      | ok t =>
        rw [ht] at h
        refine .inr ?_
        rcases ih h with ⟨hphase, hhead⟩ | hinfix
        · obtain ⟨ds, rfl⟩ : ∃ ds, cs = '\n' :: ds := by
            cases cs with
            | nil => cases hhead
            | cons d ds => exact ⟨ds, by rw [Option.some.inj hhead]⟩
          rw [backslash_of_step ht hphase]
          exact (List.prefix_append [Text.backslash, '\n'] ds).isInfix
        · exact hinfix.trans (List.suffix_cons c cs).isInfix

end Scanner

/-- The place of the first backslash that joins two lines of a text. -/
def joint? (mode : ScanMode) (text : String) : Option Pos :=
  Scanner.start.joint? mode text.toList

theorem scan_returned {mode : ScanMode} {text : String} {ls : List Lexeme}
    (h : scan mode text = .ok ls) :
    (∀ p, joint? mode text = some p →
      scan mode (returned text) = .error ⟨p, .strayBackslash⟩) ∧
    (joint? mode text = none →
      ∃ ls', scan mode (returned text) = .ok ls' ∧ SameText id ls ls') := by
  rw [← String.ofList_toList (s := text)] at h
  obtain ⟨s, hs, hls⟩ := Scanner.scan_ofList_eq_ok_iff.1 h
  obtain ⟨hjoint, hplain⟩ := Scanner.run_returned (.refl _) hs
  constructor
  · intro p hp
    rw [scan, returned, String.toList_ofList, hjoint p hp]
  · intro hp
    obtain ⟨s', hs', hsame⟩ := hplain hp
    obtain ⟨ls', hls', hsame'⟩ := hsame.finish hls
    exact ⟨ls', Scanner.scan_ofList_eq_ok_iff.2 ⟨s', hs', hls'⟩, hsame'⟩

/-! ## Trees -/

theorem Expr.eq_of_same {e e' : Expr} (h : Expr.Same id e e') : e = e' := by
  rwa [Expr.Same, Expr.mapPos_id, Expr.mapPos_id] at h

theorem Program.parse_returned {text : String} {p : Program} (h : Program.parse text = .ok p) :
    (∀ q, joint? .program text = some q →
      Program.parse (returned text) = .error ⟨q, .strayBackslash⟩) ∧
    (joint? .program text = none → Program.parse (returned text) = .ok p) := by
  obtain ⟨ls, hls, hp⟩ := Program.parse_eq_ok_iff.1 h
  obtain ⟨hjoint, hplain⟩ := scan_returned hls
  constructor
  · intro q hq
    rw [Program.parse, hjoint q hq]
    rfl
  · intro hq
    obtain ⟨ls', hls', hsame⟩ := hplain hq
    obtain ⟨p', hp', hsame'⟩ := hp.same hsame
    rw [eq_of_sameBlock hsame']
    exact Program.parse_eq_ok_iff.2 ⟨ls', hls', hp'⟩

theorem Expr.parse_returned {text : String} {e : Expr} (h : Expr.parse text = .ok e) :
    (∀ q, joint? .expression text = some q →
      Expr.parse (returned text) = .error ⟨q, .strayBackslash⟩) ∧
    (joint? .expression text = Option.none → Expr.parse (returned text) = .ok e) := by
  obtain ⟨ls, rest, hls, he, hend⟩ := Expr.parse_eq_ok_iff.1 h
  obtain ⟨hjoint, hplain⟩ := scan_returned hls
  constructor
  · intro q hq
    rw [Expr.parse, hjoint q hq]
    rfl
  · intro hq
    obtain ⟨ls', hls', hsame⟩ := hplain hq
    obtain ⟨-, e', rest', he', hsame', hrest⟩ :=
      (Expr.frames_read maxNesting).carries hsame.skipNewlines he
    rw [Expr.eq_of_same hsame']
    exact Expr.parse_eq_ok_iff.2 ⟨ls', rest', hls', he', hrest.skipNewlines.peek_eq.trans hend⟩

/-- A text that is accepted is read as the same tree if a carriage return stands before every line
end, places included, unless a backslash joins two lines of it: then that backslash is refused. A
text in which no line end stands behind a backslash is none of these. -/
theorem accepted_returned (file text : String) :
    (∀ p, parseProgram file text = .ok p →
      parseProgram file (returned text) =
        match joint? .program text with
        | none => .ok p
        | some q => .error (.parse ⟨file, q⟩ "unexpected character after line continuation")) ∧
    (∀ e, parseExpr file text = .ok e →
      parseExpr file (returned text) =
        match joint? .expression text with
        | none => .ok e
        | some q => .error (.parse ⟨file, q⟩ "unexpected character after line continuation")) ∧
    (¬[Text.backslash, '\n'] <:+: text.toList → ∀ mode, joint? mode text = none) := by
  refine ⟨fun p hp => ?_, fun e he => ?_, fun hplain mode => ?_⟩
  · obtain ⟨hjoint, hplain⟩ := Program.parse_returned (parseProgram_eq_ok_iff.1 hp)
    cases hq : joint? .program text with
    | none => exact parseProgram_eq_ok_iff.2 (hplain hq)
    | some q =>
      rw [parseProgram, hjoint q hq]
      rfl
  · obtain ⟨hjoint, hplain⟩ := Expr.parse_returned (parseExpr_eq_ok_iff.1 he)
    cases hq : joint? .expression text with
    | none => exact parseExpr_eq_ok_iff.2 (hplain hq)
    | some q =>
      rw [parseExpr, hjoint q hq]
      rfl
  · cases hjoint : joint? mode text with
    | none => rfl
    | some q =>
      rcases Scanner.infix_of_joint hjoint with ⟨hphase, -⟩ | hinfix
      · cases hphase
      · exact absurd hinfix hplain

/-- A block with an expression on three lines. -/
def returnedBlock : Program :=
  [.if_ (.name "x" ⟨1, 4⟩)
    [.assign "y" (.binary .add (.name "a" ⟨2, 8⟩) (.name "b" ⟨4, 2⟩) ⟨2, 10⟩) ⟨2, 3⟩] [] ⟨1, 1⟩]

theorem accepted_returned_block :
    parseProgram "t" "if x:\n  y = (a + # c\n\n b)\n" = .ok returnedBlock ∧
      ¬[Text.backslash, '\n'] <:+: "if x:\n  y = (a + # c\n\n b)\n".toList ∧
      returned "if x:\n  y = (a + # c\n\n b)\n" = "if x:\r\n  y = (a + # c\r\n\r\n b)\r\n" ∧
      parseProgram "t" "if x:\r\n  y = (a + # c\r\n\r\n b)\r\n" = .ok returnedBlock := by
  have hp : parseProgram "t" "if x:\n  y = (a + # c\n\n b)\n" = .ok returnedBlock := by cbv
  have hplain : ¬[Text.backslash, '\n'] <:+: "if x:\n  y = (a + # c\n\n b)\n".toList := by
    simp [Text.backslash, List.infix_cons_iff]
  have hreturned : returned "if x:\n  y = (a + # c\n\n b)\n" =
      "if x:\r\n  y = (a + # c\r\n\r\n b)\r\n" := by cbv
  obtain ⟨hprogram, -, hnone⟩ := accepted_returned "t" "if x:\n  y = (a + # c\n\n b)\n"
  refine ⟨hp, hplain, hreturned, ?_⟩
  rw [← hreturned, hprogram _ hp, hnone hplain]

/-- A sum on two lines that a backslash joins is refused if returns end them. -/
theorem refused_returned_sum :
    ∃ text p, '\r' ∉ text.toList ∧ parseProgram "t" text = .ok p ∧
      parseProgram "t" (returned text) =
        .error (.parse ⟨"t", ⟨1, 9⟩⟩ "unexpected character after line continuation") := by
  have hparse : Program.parse (returned "x = 1 + \\\n2\n") = .error ⟨⟨1, 9⟩, .strayBackslash⟩ := by
    cbv
  refine ⟨"x = 1 + \\\n2\n", [.assign "x" (.binary .add (.int ⟨1, by decide, by decide⟩)
    (.int ⟨2, by decide, by decide⟩) ⟨1, 7⟩) ⟨1, 1⟩], by simp, by cbv, ?_⟩
  rw [parseProgram, hparse]
  rfl

end ScriptShell
