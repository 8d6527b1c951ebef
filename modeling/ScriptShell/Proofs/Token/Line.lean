import ScriptShell.Proofs.Token.Below
import ScriptShell.Text.Blank

/-!
# ScriptShell.Proofs.Token.Line

What the scanner makes of the first line of a program, and of a last line without its end.

* `Scanner.run_idle`: a comment leaves the machine as it was.
* `Scanner.run_line`: so does a line that closes its parentheses, its lexemes aside.
* `Scanner.Dangling`: the texts that a line end more gives a token more.
* `Scanner.scan_lineEnd`: a line end more changes no other text.
-/

namespace ScriptShell
namespace Scanner

variable {mode : ScanMode} {s t u : Scanner} {c : Char} {cs ds : List Char}

/-! ## Blanks -/

/-- Can the character begin no token, and end no line? -/
def isStray (c : Char) : Bool :=
  c != '\n' && c != '#' && c != Text.backslash && c != Text.quoteMark && c != '\x27' &&
    !c.isDigit && !isNameStart c && !Mark.opensPair c && (Mark.single? c).isNone

theorem isStray_oddBlanks : ∀ n ∈ [11, 12, 0x85, 0xA0, 0x1680, 0x2000, 0x2001, 0x2002, 0x2003,
    0x2004, 0x2005, 0x2006, 0x2007, 0x2008, 0x2009, 0x200A, 0x2028, 0x2029, 0x202F, 0x205F, 0x3000],
    isStray (Char.ofNat n) = true := by decide +kernel

/-- A blank that does not move the machine on is refused by it. -/
theorem isStray_of_isBlank (h : Text.isBlank c = true) (hspace : c ≠ ' ') (htab : c ≠ '\t')
    (hreturn : c ≠ '\r') (hline : c ≠ '\n') : isStray c = true := by
  have hne : ∀ n, Char.ofNat n ≠ c → c.toNat ≠ n := by
    intro n hn hc
    exact hn (by rw [← hc, Char.ofNat_toNat])
  have hspace' := hne 32 hspace.symm
  have htab' := hne 9 htab.symm
  have hreturn' := hne 13 hreturn.symm
  have hline' := hne 10 hline.symm
  rw [← Char.ofNat_toNat c]
  apply isStray_oddBlanks
  simp only [Text.isBlank, Bool.or_eq_true, Bool.and_eq_true, decide_eq_true_eq, beq_iff_eq] at h
  simp only [List.mem_cons, List.not_mem_nil, or_false]
  omega

theorem readInLine_of_isStray (h : isStray c = true) (hspace : c ≠ ' ') (htab : c ≠ '\t')
    (hreturn : c ≠ '\r') : s.readInLine c = .error ⟨s.pos, .unexpectedChar c⟩ := by
  simp only [isStray, Bool.and_eq_true, bne_iff_ne, Bool.not_eq_true', Option.isNone_iff_eq_none]
    at h
  obtain ⟨⟨⟨⟨⟨⟨⟨⟨hline, hhash⟩, hslash⟩, hquote⟩, hprime⟩, hdigit⟩, hname⟩, hpair⟩, hmark⟩ := h
  simp [readInLine, hline, hspace, htab, hreturn, hhash, hslash, hquote, hprime, hdigit, hname,
    hpair, hmark]

/-! ## Lines of comments -/

theorem advanceBy_line {p : Pos} (hcs : '\n' ∉ cs) : (p.advanceBy cs).line = p.line := by
  induction cs generalizing p with
  | nil => rfl
  | cons c cs ih =>
    have hc : c ≠ '\n' := fun h => hcs (by simp [h])
    have h : (p.advance c).line = p.line := by rw [Pos.advance, if_neg hc]
    exact (ih fun h => hcs (List.mem_cons_of_mem _ h)).trans h

theorem advance_lineEnd {p : Pos} (hp : p.line = 1) : p.advance '\n' = start.pos.below := by
  rw [Pos.advance, if_pos rfl, hp]
  rfl

theorem run_comment {whole : Bool} (hcs : '\n' ∉ cs) (hs : s.phase = .comment whole) :
    s.run mode cs = .ok { s with pos := s.pos.advanceBy cs } := by
  induction cs generalizing s with
  | nil => rfl
  | cons c cs ih =>
    have hc : c ≠ '\n' := fun h => hcs (by simp [h])
    have hstep : s.step mode c = .ok (s.move c s.phase) := by
      rw [step, hs]
      dsimp only
      rw [if_neg hc]
    refine run_cons_eq_ok_iff.2 ⟨_, hstep, ?_⟩
    exact ih (s := s.move c s.phase) (fun h => hcs (List.mem_cons_of_mem _ h)) hs

theorem run_idle {width : Nat} {p : Pos} (hcs : '\n' ∉ cs)
    (hink : cs.find? (fun c => !Text.isBlank c) = some '#')
    (h : (⟨.lineStart width, p, 0, [], []⟩ : Scanner).run .program cs = .ok t) :
    t = ⟨.comment true, p.advanceBy cs, 0, [], []⟩ := by
  induction cs generalizing width p with
  | nil => cases hink
  | cons c cs ih =>
    have hcs' : '\n' ∉ cs := fun h => hcs (List.mem_cons_of_mem _ h)
    obtain ⟨s, hs, h⟩ := run_cons_eq_ok_iff.1 h
    rw [step] at hs
    dsimp only [readLineStart] at hs
    by_cases hblank : Text.isBlank c = true
    · have hink' : cs.find? (fun c => !Text.isBlank c) = some '#' := by
        rwa [List.find?_cons_of_neg (by simp [hblank])] at hink
      have hline : c ≠ '\n' := fun h => hcs (by simp [h])
      have hhash : c ≠ '#' := by
        rintro rfl
        exact absurd hblank (by decide)
      by_cases hspace : c = ' '
      · rw [if_pos hspace] at hs
        cases hs
        exact ih hcs' hink' h
      by_cases htab : c = '\t'
      · rw [if_neg hspace, if_pos htab] at hs
        cases hs
        exact ih hcs' hink' h
      by_cases hreturn : c = '\r'
      · rw [if_neg hspace, if_neg htab, if_pos (by simp [hreturn])] at hs
        cases hs
        exact ih hcs' hink' h
      · -- the indentation may be written before, but the blank is refused all the same
        rw [if_neg hspace, if_neg htab, if_neg (by simp [hline, hreturn]), if_neg hhash] at hs
        have hstray := isStray_of_isBlank hblank hspace htab hreturn hline
        split at hs
        · rw [readInLine_of_isStray hstray hspace htab hreturn] at hs
          cases hs
        · cases hs
    · obtain rfl : c = '#' := by
        rw [List.find?_cons_of_pos (by simpa using hblank)] at hink
        exact Option.some.inj hink
      cases hs
      have hphase :
          (⟨.comment true, p.advance '#', 0, [], []⟩ : Scanner).phase = .comment true := rfl
      have hrun := (run_comment hcs' hphase).symm.trans h
      cases hrun
      rfl

/-- Behind a comment the machine is at the start, a line further down. -/
theorem run_idle_line (hcs : '\n' ∉ cs) (hink : cs.find? (fun c => !Text.isBlank c) = some '#')
    (h : start.run .program (cs ++ '\n' :: ds) = .ok t) :
    (start.below []).run .program ds = .ok t := by
  obtain ⟨s, hs, h⟩ := run_append_eq_ok_iff.1 h
  obtain rfl := run_idle hcs hink hs
  obtain ⟨s', hs', h⟩ := run_cons_eq_ok_iff.1 h
  have hpos := advance_lineEnd (p := Pos.start.advanceBy cs) (advanceBy_line hcs)
  cases hs'
  rw [← h]
  dsimp only [move]
  rw [hpos]
  rfl

/-! ## Lines with tokens -/

/-- A line end behind a token writes it and reads on. -/
theorem step_newline (hbroken : s.phase.isBroken = false) (houter : s.phase.isOuter = false) :
    s.step mode '\n' = s.settle.bind (readInLine · '\n') := by
  rw [← settleAndRead_eq_bind, settleAndRead, step]
  cases hphase : s.phase with
  | lineStart _ => rw [hphase] at houter; cases houter
  | inLine => rw [settle, hphase]
  | comment whole =>
    rw [settle, hphase]
    cases whole with
    | false => rfl
    | true => rw [hphase] at houter; cases houter
  | word p read => rfl
  | number p read => rfl
  | pair p first =>
    have hpair : Mark.pair? first '\n' = none := by simp [Mark.pair?]
    simp only [hpair]
    rfl
  | continued _ => rw [hphase] at hbroken; cases hbroken
  | string _ _ _ => rw [hphase] at hbroken; cases hbroken
  | escape _ _ _ => rw [hphase] at hbroken; cases hbroken

theorem readInLine_newline (hdepth : s.depth = 0) :
    s.readInLine '\n' = .ok ((s.emit s.pos .newline).move '\n' (.lineStart 0)) := by
  rw [readInLine, if_pos rfl, if_pos hdepth]

theorem step_newline_of_outer (houter : s.phase.isOuter = true) :
    s.step mode '\n' = .ok (s.move '\n' (.lineStart 0)) := by
  rw [step]
  cases hphase : s.phase with
  | lineStart width => rfl
  | comment whole =>
    cases whole with
    | true => rfl
    | false => rw [hphase] at houter; cases houter
  | _ => rw [hphase] at houter; cases houter

/-- No line ends in the middle of a string. -/
theorem not_isBroken_of_newline (hs : s.step mode '\n' = .ok t)
    (hjoin : ∀ p, s.phase ≠ .continued p) : s.phase.isBroken = false := by
  unfold step at hs
  cases hphase : s.phase with
  | continued p => exact absurd hphase (hjoin p)
  | string p quote read =>
    rw [hphase] at hs
    cases hs
  | escape p quote read =>
    rw [hphase] at hs
    cases hs
  | _ => rfl

/-- A line end behind no backslash ends the line, or is a blank between parentheses. -/
theorem newline_cases (hs : s.step mode '\n' = .ok t) (hjoin : ∀ p, s.phase ≠ .continued p) :
    (s.phase.isOuter = true ∧ t = s.move '\n' (.lineStart 0)) ∨
    ∃ u, s.settle = .ok u ∧
      ((u.depth = 0 ∧ t = (u.emit u.pos .newline).move '\n' (.lineStart 0)) ∨
       (u.depth ≠ 0 ∧ t = u.move '\n' .inLine)) := by
  by_cases houter : s.phase.isOuter = true
  · rw [step_newline_of_outer houter] at hs
    cases hs
    exact .inl ⟨houter, rfl⟩
  · rw [step_newline (not_isBroken_of_newline hs hjoin) (by simpa using houter)] at hs
    obtain ⟨u, hu, hread⟩ : ∃ u, s.settle = .ok u ∧ u.readInLine '\n' = .ok t :=
      bind_eq_ok_iff.1 hs
    refine .inr ⟨u, hu, ?_⟩
    rw [readInLine, if_pos rfl] at hread
    split at hread <;> cases hread
    · exact .inl ⟨‹_›, rfl⟩
    · exact .inr ⟨‹_›, rfl⟩

/-- Behind a line that closes its parentheses the machine is at the start, a line further down, with
the lexemes of the line behind it. -/
theorem run_line (hcs : '\n' ∉ cs) (hs : start.run .program cs = .ok s)
    (hbroken : s.phase.isBroken = false) (houter : s.phase.isOuter = false)
    (hu : s.settle = .ok u) (hindents : u.indents = []) (hdepth : u.depth = 0)
    (h : start.run .program (cs ++ '\n' :: ds) = .ok t) :
    (start.below (⟨.newline, u.pos⟩ :: u.lexemes)).run .program ds = .ok t := by
  obtain ⟨s₁, hs₁, h⟩ := run_append_eq_ok_iff.1 h
  rw [hs] at hs₁
  cases hs₁
  obtain ⟨s', hs', h⟩ := run_cons_eq_ok_iff.1 h
  have hread : u.readInLine '\n' = .ok s' := by
    rwa [step_newline hbroken houter, hu] at hs'
  rw [readInLine_newline hdepth] at hread
  cases hread
  have hpos : u.pos.advance '\n' = start.pos.below := by
    apply advance_lineEnd
    rw [settle_pos hu, run_pos hs]
    exact advanceBy_line hcs
  rw [← h, move, emit, hpos, hindents, hdepth]
  rfl

theorem closing_line (hindents : s.indents = []) (hinline : s.Inline) (hne : s.lexemes ≠ []) :
    s.closing = [⟨.newline, s.pos⟩, ⟨.endOfInput, s.pos⟩] := by
  unfold closing
  cases hs : s.lexemes with
  | nil => exact absurd hs hne
  | cons l ls =>
    have hl : l.token ≠ .newline := by
      intro hl
      have := hinline l (by simp [hs])
      rw [hl] at this
      cases this
    simp [hl, hindents]

/-! ## The end of a last line -/

theorem scan_ofList_eq_ok_iff {ls : List Lexeme} :
    scan mode (String.ofList cs) = .ok ls ↔ ∃ s, start.run mode cs = .ok s ∧ s.finish = .ok ls := by
  rw [scan, String.toList_ofList]
  cases start.run mode cs <;> simp

/-- The text ends in a comment behind a backslash, with no token since the last line end. A line end
behind it is a token, which the end of the text does not make up for. -/
def Dangling (cs : List Char) : Prop :=
  ∃ s, start.run .program cs = .ok s ∧ s.phase = .comment false ∧ s.Fresh

theorem Fresh.below {before : List Lexeme} (h : s.Fresh)
    (hbefore : ∀ l ∈ before.head?, l.token = .newline) : (s.below before).Fresh := by
  intro l hl
  have hlexemes : (s.below before).lexemes = s.lexemes.map Lexeme.below ++ before := rfl
  rw [hlexemes] at hl
  cases hs : s.lexemes with
  | nil =>
    rw [hs] at hl
    exact hbefore l hl
  | cons l' ls =>
    rw [hs] at hl
    cases hl
    exact h l' (by rw [hs]; rfl)

/-- The end of the rest of a text is the end of the text. -/
theorem Dangling.behind {before : List Lexeme} (hds : Dangling ds)
    (hbefore : ∀ l ∈ before.head?, l.token = .newline) (h : start.run .program cs = .ok t)
    (hrest : (start.below before).run .program ds = .ok t) : Dangling cs := by
  obtain ⟨s, hs, hphase, hfresh⟩ := hds
  obtain ⟨s', hs', rfl⟩ := (lowers_run ds).ok hrest
  rw [hs] at hs'
  cases hs'
  refine ⟨_, h, ?_, hfresh.below hbefore⟩
  show s.phase.below = _
  rw [hphase]
  rfl

theorem not_fresh_of_closed {p : Pos} {tok : Token} (hclosed : Closed [⟨tok, p⟩])
    (h : ∀ l ∈ (⟨tok, p⟩ :: s.lexemes : List Lexeme).head?, l.token = .newline) : False := by
  have htok : tok = .newline := h _ rfl
  have hinline := hclosed.inline _ List.mem_cons_self
  rw [htok] at hinline
  cases hinline

theorem settle_fresh (hbroken : s.phase.isBroken = false) (houter : s.phase.isOuter = false)
    (h : s.settle = .ok u) (hu : u.Fresh) :
    s.Fresh ∧ (s.phase = .inLine ∨ s.phase = .comment false) := by
  rcases settle_cases h with ⟨hpending, rfl⟩ | ⟨p, tok, hclosed, rfl⟩
  · refine ⟨hu, ?_⟩
    cases hphase : u.phase with
    | inLine => exact .inl rfl
    | comment whole =>
      cases whole with
      | false => exact .inr rfl
      | true => rw [hphase] at houter; cases houter
    | lineStart _ => rw [hphase] at houter; cases houter
    | word _ _ => rw [hphase] at hpending; cases hpending
    | number _ _ => rw [hphase] at hpending; cases hpending
    | pair _ _ => rw [hphase] at hpending; cases hpending
    | _ => rw [hphase] at hbroken; cases hbroken
  · exact (not_fresh_of_closed hclosed hu).elim

/-- Without a token since the last line end the machine reads nothing but blanks between tokens. -/
theorem blank_of_readInLine (hc : c ≠ '\n') (h : s.readInLine c = .ok t) (ht : t.phase = .inLine)
    (hfresh : t.Fresh) : s.Fresh ∧ (c = ' ' ∨ c = '\t' ∨ c = '\r') := by
  unfold readInLine at h
  rw [if_neg hc] at h
  split at h
  · rename_i hblank
    cases h
    exact ⟨hfresh, by simpa [or_assoc] using hblank⟩
  repeat' split at h
  case h_1 m _ =>
    cases h
    have hmark : Token.mark m = .newline := hfresh ⟨.mark m, s.pos⟩ rfl
    cases hmark
  all_goals cases h
  all_goals cases ht

theorem blank_of_settleAndRead (hc : c ≠ '\n') (hpending : s.phase.isPending = true)
    (h : s.settleAndRead c = .ok t) (ht : t.phase = .inLine) (hfresh : t.Fresh) : False := by
  obtain ⟨u, hu, h⟩ := settleAndRead_eq_ok_iff.1 h
  obtain ⟨hu', -⟩ := blank_of_readInLine hc h ht hfresh
  rcases settle_cases hu with ⟨hnot, -⟩ | ⟨p, tok, hclosed, rfl⟩
  · rw [hpending] at hnot
    cases hnot
  · exact not_fresh_of_closed hclosed hu'

/-- The machine leaves the start of a line by a token. -/
theorem not_fresh_of_readLineStart {width : Nat} (hc : c ≠ '\n')
    (h : s.readLineStart .program width c = .ok t) (ht : t.phase = .inLine) : ¬ t.Fresh := by
  intro hfresh
  unfold readLineStart at h
  split_ifs at h with hspace htab hend hhash
  · cases h
    cases ht
  · cases h
    cases ht
  · cases h
    cases ht
  · cases h
    cases ht
  · dsimp only at h
    split at h
    · obtain ⟨-, hblank⟩ := blank_of_readInLine hc h ht hfresh
      rcases hblank with hblank | hblank | hblank
      · exact hspace hblank
      · exact htab hblank
      · exact hend (by simp [hblank])
    · cases h

theorem blank_of_step (hc : c ≠ '\n') (h : s.step .program c = .ok t) (ht : t.phase = .inLine)
    (hfresh : t.Fresh) : s.phase = .inLine ∧ s.Fresh ∧ Text.isBlank c = true := by
  unfold step at h
  cases hphase : s.phase with
  | inLine =>
    simp only [hphase] at h
    obtain ⟨hs, hblank⟩ := blank_of_readInLine hc h ht hfresh
    refine ⟨rfl, hs, ?_⟩
    rcases hblank with rfl | rfl | rfl <;> decide
  | lineStart width =>
    simp only [hphase] at h
    exact absurd hfresh (not_fresh_of_readLineStart hc h ht)
  | comment whole =>
    simp only [hphase, if_neg hc] at h
    cases h
    cases ht
  | continued p =>
    simp only [hphase, if_neg hc] at h
    cases h
  | word p read =>
    simp only [hphase] at h
    split at h
    · cases h
      cases ht
    · exact (blank_of_settleAndRead hc (by rw [hphase]; rfl) h ht hfresh).elim
  | number p read =>
    simp only [hphase] at h
    split at h
    · cases h
      cases ht
    · exact (blank_of_settleAndRead hc (by rw [hphase]; rfl) h ht hfresh).elim
  | pair p first =>
    simp only [hphase] at h
    split at h
    · cases h
      exact (not_fresh_of_closed (closed_pair ‹_› p) hfresh).elim
    · exact (blank_of_settleAndRead hc (by rw [hphase]; rfl) h ht hfresh).elim
  | string p quote read =>
    simp only [hphase, if_neg hc] at h
    split at h
    · cases h
      have hstr : Token.str (String.ofList read.reverse) = .newline := hfresh ⟨_, p⟩ rfl
      cases hstr
    · split at h
      all_goals cases h
      all_goals cases ht
  | escape p quote read =>
    simp only [hphase] at h
    split at h
    · cases h
      cases ht
    · cases h

/-- A line through which the machine writes nothing and stays between tokens is blank. -/
theorem blank_of_run (hcs : '\n' ∉ cs) (h : s.run .program cs = .ok t) (ht : t.phase = .inLine)
    (hfresh : t.Fresh) (hne : cs ≠ []) :
    s.phase = .inLine ∧ s.Fresh ∧ cs.all Text.isBlank = true := by
  induction cs generalizing s with
  | nil => exact absurd rfl hne
  | cons c cs ih =>
    have hc : c ≠ '\n' := fun h => hcs (by simp [h])
    obtain ⟨s', hs', h⟩ := run_cons_eq_ok_iff.1 h
    by_cases hcs' : cs = []
    · subst hcs'
      cases h
      obtain ⟨hphase, hs, hblank⟩ := blank_of_step hc hs' ht hfresh
      exact ⟨hphase, hs, by simp [hblank]⟩
    · obtain ⟨hphase', hs'', hall⟩ := ih (fun h => hcs (List.mem_cons_of_mem _ h)) h hcs'
      obtain ⟨hphase, hs, hblank⟩ := blank_of_step hc hs' hphase' hs''
      exact ⟨hphase, hs, by simp [hblank, hall]⟩

theorem sameText_append {π : Pos → Pos} {ls ls' ms ms' : List Lexeme} (h : SameText π ls ls')
    (h' : SameText π ms ms') : SameText π (ls ++ ms) (ls' ++ ms') := by
  induction h with
  | nil => exact h'
  | cons hl _ ih => exact .cons hl ih

theorem rel_layout {π : Pos → Pos} {tok : Token} {p q : Pos} (htok : tok.isLayout = true) :
    Lexeme.Rel π ⟨tok, p⟩ ⟨tok, q⟩ :=
  ⟨rfl, fun h => absurd (htok.symm.trans h) (by decide)⟩

/-- The lexemes that close a text whose last line is ended. -/
def ending (s : Scanner) : List Lexeme :=
  List.replicate s.indents.length ⟨.outdent, s.pos⟩ ++ [⟨.endOfInput, s.pos⟩]

theorem sameText_ending {π : Pos → Pos} (hindents : s.indents = t.indents) :
    SameText π s.ending t.ending := by
  rw [ending, ending, hindents]
  refine sameText_append ?_ (.cons (rel_layout rfl) .nil)
  induction t.indents.length with
  | zero => exact .nil
  | succ n ih => exact .cons (rel_layout rfl) ih

theorem closing_of_fresh (h : s.Fresh) : s.closing = s.ending := by
  unfold closing
  cases hs : s.lexemes with
  | nil => rfl
  | cons l ls =>
    have hl : l.token = .newline := h l (by rw [hs]; rfl)
    simp only [if_pos hl]
    rfl

theorem closing_of_not_fresh (h : ¬s.Fresh) : s.closing = ⟨.newline, s.pos⟩ :: s.ending := by
  unfold closing
  cases hs : s.lexemes with
  | nil => exact absurd (by simp [Fresh, hs]) h
  | cons l ls =>
    have hl : l.token ≠ .newline := fun hl => h (by simp [Fresh, hs, hl])
    simp only [if_neg hl]
    rfl

theorem sameText_closing {π : Pos → Pos} (hlexemes : s.lexemes = t.lexemes)
    (hindents : s.indents = t.indents) : SameText π s.closing t.closing := by
  by_cases h : s.Fresh
  · have ht : t.Fresh := by rwa [Fresh, ← hlexemes]
    rw [closing_of_fresh h, closing_of_fresh ht]
    exact sameText_ending hindents
  · have ht : ¬t.Fresh := by rwa [Fresh, ← hlexemes]
    rw [closing_of_not_fresh h, closing_of_not_fresh ht]
    exact .cons (rel_layout rfl) (sameText_ending hindents)

theorem settle_of_outer (houter : s.phase.isOuter = true) : s.settle = .ok s := by
  rw [settle]
  cases hphase : s.phase with
  | word _ _ => rw [hphase] at houter; cases houter
  | number _ _ => rw [hphase] at houter; cases houter
  | pair _ _ => rw [hphase] at houter; cases houter
  | _ => rfl

/-- A line end more is a line end that the end of the text would have made up for, unless there was
nothing to end. -/
theorem finish_lineEnd {π : Pos → Pos} {ls : List Lexeme} (h : s.finish = .ok ls)
    (hloose : ¬((s.phase = .inLine ∨ s.phase = .comment false) ∧ s.Fresh)) :
    ∃ t ls', s.step mode '\n' = .ok t ∧ t.finish = .ok ls' ∧ SameText π ls ls' := by
  obtain ⟨hbroken, u, hu, rfl⟩ := finish_eq_ok_iff.1 h
  by_cases houter : s.phase.isOuter = true
  · refine ⟨_, _, step_newline_of_outer houter, finish_eq_ok_iff.2 ⟨rfl, _, rfl, rfl⟩, ?_⟩
    rw [settle_of_outer houter] at hu
    cases hu
    exact sameText_append (.refl _) (sameText_closing rfl rfl)
  · have houter : s.phase.isOuter = false := by simpa using houter
    have hstep : s.step mode '\n' = u.readInLine '\n' := by
      rw [step_newline hbroken houter, hu]
      rfl
    have hfresh : ¬u.Fresh := by
      intro hf
      obtain ⟨hf', hphase⟩ := settle_fresh hbroken houter hu hf
      exact hloose ⟨hphase, hf'⟩
    by_cases hdepth : u.depth = 0
    · rw [readInLine_newline hdepth] at hstep
      refine ⟨_, _, hstep, finish_eq_ok_iff.2 ⟨rfl, _, rfl, rfl⟩, ?_⟩
      have hended : ((u.emit u.pos .newline).move '\n' (.lineStart 0)).Fresh := by
        simp [Fresh, move, emit]
      rw [closing_of_not_fresh hfresh, closing_of_fresh hended]
      simp only [move, emit, List.reverse_cons, List.append_assoc, List.singleton_append]
      exact sameText_append (.refl _) (.cons (rel_layout rfl) (sameText_ending rfl))
    · rw [readInLine, if_pos rfl, if_neg hdepth] at hstep
      refine ⟨_, _, hstep, finish_eq_ok_iff.2 ⟨rfl, _, rfl, rfl⟩, ?_⟩
      exact sameText_append (.refl _) (sameText_closing rfl rfl)

/-- A text whose last line is not blank, and which does not dangle, may be ended. -/
theorem scan_lineEnd {π : Pos → Pos} {ls : List Lexeme} (hcs : '\n' ∉ cs)
    (hblank : cs.all Text.isBlank = false) (hdangling : ¬Dangling (ds ++ cs))
    (h : scan .program (String.ofList (ds ++ cs)) = .ok ls) :
    ∃ ls', scan .program (String.ofList (ds ++ cs ++ ['\n'])) = .ok ls' ∧ SameText π ls ls' := by
  obtain ⟨s, hs, hls⟩ := scan_ofList_eq_ok_iff.1 h
  obtain ⟨s₁, hs₁, hs₂⟩ := run_append_eq_ok_iff.1 hs
  have hloose : ¬((s.phase = .inLine ∨ s.phase = .comment false) ∧ s.Fresh) := by
    intro ⟨hphase, hfresh⟩
    rcases hphase with hphase | hphase
    · have hne : cs ≠ [] := by
        rintro rfl
        cases hblank
      obtain ⟨-, -, hall⟩ := blank_of_run hcs hs₂ hphase hfresh hne
      rw [hblank] at hall
      cases hall
    · exact hdangling ⟨s, hs, hphase, hfresh⟩
  obtain ⟨t, ls', ht, hls', hsame⟩ := finish_lineEnd hls hloose
  refine ⟨ls', scan_ofList_eq_ok_iff.2 ⟨t, run_append_eq_ok_iff.2 ⟨s, hs, ?_⟩, hls'⟩, hsame⟩
  exact run_cons_eq_ok_iff.2 ⟨t, ht, rfl⟩

end Scanner
end ScriptShell
