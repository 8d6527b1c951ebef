import Mathlib.Data.List.Infix
import ScriptShell.Proofs.Token.Moved
import ScriptShell.Proofs.Token.Spelling

/-!
# ScriptShell.Proofs.Token.Place

The places of lexemes are exact. What the scanner writes stands in the text where the scanner says,
spelled as the token is spelled, and one token stands behind the other. What it refuses, it refuses
at a place in the text.

* `Pos.behind`: the place behind a text, by counting its characters.
* `Token.Reads`: the characters that a token is read from.
* `Placed`: lexemes that stand in a text, one behind the other, at their places.
* `Scanner.Exact`: the lexemes written are placed in what has been read, and so is the pending one.
* `placed_of_scan`, `within_of_scan`: the lexemes of a text, and where a text is refused.
-/

namespace ScriptShell

variable {cs ds : List Char} {c : Char}

/-- The place behind a text: one more than its line ends, and one more than the characters that
stand behind the last of them. -/
def Pos.behind (cs : List Char) : Pos :=
  ⟨1 + cs.count '\n', 1 + (cs.reverse.takeWhile (· != '\n')).length⟩

theorem Pos.behind_concat (cs : List Char) (c : Char) :
    Pos.behind (cs ++ [c]) = (Pos.behind cs).advance c := by
  by_cases hc : c = '\n'
  · subst hc
    simp [behind, advance, Nat.add_assoc]
  · have hcount : [c].count '\n' = 0 := by simp [hc]
    simp [behind, advance, hc, hcount]
    omega

/-- The place is one of a character of the text or of its end. -/
def Within (cs : List Char) (p : Pos) : Prop :=
  ∃ before, before <+: cs ∧ p = .behind before

instance (cs : List Char) (p : Pos) : Decidable (Within cs p) :=
  decidable_of_iff (∃ before ∈ cs.inits, p = .behind before) (by simp only [Within, List.mem_inits])

theorem Within.append {p : Pos} (h : Within cs p) (ds : List Char) : Within (cs ++ ds) p := by
  obtain ⟨before, hbefore, hp⟩ := h
  exact ⟨before, hbefore.trans (List.prefix_append cs ds), hp⟩

theorem within_behind (cs : List Char) : Within cs (.behind cs) :=
  ⟨cs, List.prefix_refl cs, rfl⟩

/-! ## What tokens are read from -/

/-- The characters between the quotes of a literal, and the string that they stand for. -/
inductive Escapes (quote : Char) : List Char → List Char → Prop
  | nil : Escapes quote [] []
  | plain {raw value c} (h : Escapes quote raw value) (hline : c ≠ '\n') (hquote : c ≠ quote)
      (hslash : c ≠ Text.backslash) : Escapes quote (raw ++ [c]) (value ++ [c])
  | escape {raw value c d} (h : Escapes quote raw value) (hd : escapeValue? c = some d) :
      Escapes quote (raw ++ [Text.backslash, c]) (value ++ [d])

/-- `t.Reads cs`: the token is read from the characters `cs`. The layout of a text is read from
none, but for the line ends that are in it. -/
inductive Token.Reads : Token → List Char → Prop
  | int {i cs} (hne : cs ≠ []) (h : Integer.ofDigits? cs = some i) : Reads (.int i) cs
  | str {quote raw s} (hquote : quote = Text.quoteMark ∨ quote = '\x27')
      (h : Escapes quote raw s.toList) : Reads (.str s) (quote :: raw ++ [quote])
  | name {id} (h : isIdentifier id = true) : Reads (.name id) id.toList
  | keyword (k : Keyword) : Reads (.keyword k) k.text.toList
  | mark (m : Mark) : Reads (.mark m) m.text.toList
  | newline : Reads .newline ['\n']
  | lineEnd : Reads .newline []
  | indent : Reads .indent []
  | outdent : Reads .outdent []
  | endOfInput : Reads .endOfInput []

theorem Keyword.text_of_ofWord? {word : String} {k : Keyword} (h : Keyword.ofWord? word = some k) :
    k.text = word := by
  simpa using List.find?_some h

theorem Mark.text_of_single? {m : Mark} (h : Mark.single? c = some m) : m.text.toList = [c] := by
  unfold Mark.single? at h
  repeat' split at h
  all_goals cases h
  all_goals
    subst c
    rfl

theorem Mark.text_of_lone? {m : Mark} (h : Mark.lone? c = some m) : m.text.toList = [c] := by
  unfold Mark.lone? at h
  repeat' split at h
  all_goals cases h
  all_goals
    subst c
    rfl

theorem Mark.text_of_pair? {d : Char} {m : Mark} (h : Mark.pair? c d = some m) :
    m.text.toList = [c, d] := by
  unfold Mark.pair? at h
  repeat' split at h
  all_goals cases h
  all_goals
    simp_all
    subst_vars
    rfl

/-- A word is a keyword or an identifier. -/
theorem Token.Reads.word (hc : isNameStart c = true) (hcs : cs.all isNameChar = true) :
    (wordToken (String.ofList (c :: cs))).Reads (c :: cs) := by
  unfold wordToken
  split
  · rename_i k hk
    have htext : k.text.toList = c :: cs := by
      rw [Keyword.text_of_ofWord? hk, String.toList_ofList]
    rw [← htext]
    exact .keyword k
  · rename_i hk
    have hid : isIdentifier (String.ofList (c :: cs)) = true := by
      rw [isIdentifier, String.toList_ofList]
      simp only [hc, hcs, hk, Option.isNone_none, Bool.and_self]
    have hreads := Token.Reads.name hid
    rwa [String.toList_ofList] at hreads

/-- A token of the text that is no layout can be written. -/
theorem Token.Reads.isSpellable {t : Token} (h : t.Reads cs) (ht : t.isLayout = false) :
    t.isSpellable = true := by
  cases h with
  | @int i cs hne h =>
    unfold Integer.ofDigits? at h
    split at h
    · obtain ⟨-, -, hval⟩ : True ∧ True ∧ i.val = Nat.ofDigitChars 10 cs 0 := by
        unfold Integer.ofInt? at h
        split at h
        · cases h
          exact ⟨trivial, trivial, rfl⟩
        · cases h
      simp [Token.isSpellable, hval]
    · cases h
  | str => rfl
  | name h => exact h
  | keyword => rfl
  | mark => rfl
  | _ => cases ht

/-! ## Lexemes in a text -/

/-- The lexemes, the newest first, stand in the text one behind the other, each at its place. -/
inductive Placed : List Char → List Lexeme → Prop
  | nil : Placed [] []
  | skip {cs ls} (h : Placed cs ls) (c : Char) : Placed (cs ++ [c]) ls
  | lexeme {cs ls t piece} (h : Placed cs ls) (ht : t.Reads piece) :
      Placed (cs ++ piece) (⟨t, .behind cs⟩ :: ls)

/-- The token stands in the text at the place. -/
def StandsAt (cs : List Char) (p : Pos) (t : Token) : Prop :=
  ∃ before piece behind, cs = before ++ (piece ++ behind) ∧ p = .behind before ∧ t.Reads piece

theorem StandsAt.append {p : Pos} {t : Token} (h : StandsAt cs p t) (ds : List Char) :
    StandsAt (cs ++ ds) p t := by
  obtain ⟨before, piece, behind, rfl, hp, ht⟩ := h
  exact ⟨before, piece, behind ++ ds, by simp, hp, ht⟩

theorem StandsAt.within {p : Pos} {t : Token} (h : StandsAt cs p t) : Within cs p := by
  obtain ⟨before, piece, behind, rfl, hp, -⟩ := h
  exact ⟨before, List.prefix_append _ _, hp⟩

theorem Placed.standsAt {ls : List Lexeme} (h : Placed cs ls) :
    ∀ l ∈ ls, StandsAt cs l.pos l.token := by
  induction h with
  | nil => simp
  | skip _ c ih => exact fun l hl => (ih l hl).append [c]
  | @lexeme cs ls t piece _ ht ih =>
    intro l hl
    rcases List.mem_cons.1 hl with rfl | hl
    · exact ⟨cs, piece, [], by simp, rfl, ht⟩
    · exact (ih l hl).append piece

/-- Layout that takes no characters. -/
theorem Placed.replicate {ls : List Lexeme} {t : Token} (h : Placed cs ls) (ht : t.Reads [])
    (n : Nat) : Placed cs (List.replicate n ⟨t, .behind cs⟩ ++ ls) := by
  induction n with
  | zero => exact h
  | succ n ih =>
    rw [List.replicate_succ, List.cons_append]
    simpa using Placed.lexeme ih ht

/-- What has been read of the token that a phase is in the middle of, and that began at `p`. -/
inductive Phase.Midway (p : Pos) : Phase → List Char → Prop
  | outside {phase} (hpending : phase.isPending = false) (hbroken : phase.isBroken = false) :
      Midway p phase []
  | continued : Midway p (.continued p) [Text.backslash]
  | word {c cs read} (hread : read.reverse = c :: cs) (hc : isNameStart c = true)
      (hcs : cs.all isNameChar = true) : Midway p (.word p read) (c :: cs)
  | number {read} (hne : read ≠ []) : Midway p (.number p read) read.reverse
  | string {quote raw read} (hquote : quote = Text.quoteMark ∨ quote = '\x27')
      (h : Escapes quote raw read.reverse) : Midway p (.string p quote read) (quote :: raw)
  | escape {quote raw read} (hquote : quote = Text.quoteMark ∨ quote = '\x27')
      (h : Escapes quote raw read.reverse) :
      Midway p (.escape p quote read) (quote :: raw ++ [Text.backslash])
  | pair (c : Char) : Midway p (.pair p c) [c]

namespace Scanner

variable {mode : ScanMode} {s t : Scanner} {e : SyntaxError} {P : Scanner → Prop}

/-- What has been read is `cs`. The lexemes that were written stand in it, and behind them what has
been read of the next one. -/
structure Exact (cs : List Char) (s : Scanner) : Prop where
  pos : s.pos = .behind cs
  read : ∃ before piece, cs = before ++ piece ∧ Placed before s.lexemes ∧
    s.phase.Midway (.behind before) piece

/-- What has been read is `cs`, and the lexemes that were written stand in it. -/
structure Settled (cs : List Char) (s : Scanner) : Prop where
  pos : s.pos = .behind cs
  placed : Placed cs s.lexemes

/-- The machine goes on in a state of the kind `P`, or it refuses at a place in `cs`. -/
def Outcome (cs : List Char) (P : Scanner → Prop) : Except SyntaxError Scanner → Prop
  | .ok t => P t
  | .error e => Within cs e.pos

/-- Between tokens nothing is pending. -/
theorem Exact.between (hpos : s.pos = .behind cs) (h : Placed cs s.lexemes)
    (hphase : ∀ p, s.phase.Midway p []) : Exact cs s :=
  ⟨hpos, cs, [], by simp, h, hphase _⟩

theorem Exact.start : Exact [] Scanner.start :=
  .between rfl .nil fun _ => .outside rfl rfl

/-- A character that belongs to no token. -/
theorem Settled.skip (h : Settled cs s) (c : Char) {phase : Phase}
    (hphase : ∀ p, phase.Midway p []) : Exact (cs ++ [c]) (s.move c phase) :=
  .between (by rw [Pos.behind_concat, ← h.pos]; rfl) (h.placed.skip c) hphase

/-- The first character of a token. -/
theorem Settled.begin (h : Settled cs s) {phase : Phase} (hphase : phase.Midway s.pos [c]) :
    Exact (cs ++ [c]) (s.move c phase) :=
  ⟨by rw [Pos.behind_concat, ← h.pos]; rfl, cs, [c], rfl, h.placed, h.pos ▸ hphase⟩

/-- The last character of a token. -/
theorem Exact.write {before piece : List Char} {tok : Token} {depth : Nat} {phase : Phase}
    {indents : List Nat} (hpos : s.pos = .behind cs) (hcs : cs ++ [c] = before ++ piece)
    (h : Placed before s.lexemes) (htok : tok.Reads piece) (hphase : ∀ p, phase.Midway p []) :
    Exact (cs ++ [c])
      ⟨phase, s.pos.advance c, depth, indents, ⟨tok, .behind before⟩ :: s.lexemes⟩ := by
  refine .between (by rw [Pos.behind_concat, ← hpos]) ?_ hphase
  rw [hcs]
  exact .lexeme h htok

/-! ## Steps -/

theorem settle_of_not_pending (h : s.phase.isPending = false) : s.settle = .ok s := by
  unfold Scanner.settle
  split <;> first
    | rfl
    | (rename_i hs; rw [hs] at h; cases h)

theorem Settled.readInLine (h : Settled cs s) (c : Char) :
    Outcome cs (Exact (cs ++ [c])) (s.readInLine c) := by
  unfold Scanner.readInLine
  split_ifs with hline hdepth hblank hhash hslash hquote hdigit hname hpair
  · rw [h.pos]
    exact .write h.pos (by rw [hline]) h.placed .newline fun _ => .outside rfl rfl
  · exact h.skip c fun _ => .outside rfl rfl
  · exact h.skip c fun _ => .outside rfl rfl
  · exact h.skip c fun _ => .outside rfl rfl
  · exact h.begin (hslash ▸ .continued)
  · exact h.begin (.string (by simpa using hquote) .nil)
  · show Exact (cs ++ [c]) (s.move c (.number s.pos [c]))
    exact h.begin (.number (by simp))
  · exact h.begin (.word rfl hname rfl)
  · exact h.begin (.pair c)
  · split
    · rename_i m hm
      rw [h.pos]
      refine .write h.pos ?_ h.placed (.mark m) fun _ => .outside rfl rfl
      rw [Mark.text_of_single? hm]
    · show Within cs s.pos
      rw [h.pos]
      exact within_behind cs

/-- The pending token is written, or it is refused at its start. -/
theorem Exact.settle (h : Exact cs s) (hbroken : s.phase.isBroken = false) :
    Outcome cs (Settled cs) s.settle := by
  obtain ⟨before, piece, rfl, hplaced, hphase⟩ := h.read
  have hpos := h.pos
  have hstart : Within (before ++ piece) (.behind before) := ⟨before, by simp, rfl⟩
  generalize hs : s.phase = phase at hphase hbroken
  cases hphase with
  | outside hpending _ =>
    rw [List.append_nil] at hpos ⊢
    rw [settle_of_not_pending (hs ▸ hpending)]
    exact ⟨hpos, hplaced⟩
  | word hread hc hcs =>
    rw [Scanner.settle, hs]
    dsimp only
    rw [hread]
    exact ⟨hpos, .lexeme hplaced (.word hc hcs)⟩
  | number hne =>
    rw [Scanner.settle, hs]
    dsimp only
    split
    · exact ⟨hpos, .lexeme hplaced (.int (by simpa using hne) ‹_›)⟩
    · exact hstart
  | pair first =>
    rw [Scanner.settle, hs]
    dsimp only
    split
    · rename_i m hm
      rw [← Mark.text_of_lone? hm] at hpos ⊢
      exact ⟨hpos, .lexeme hplaced (.mark m)⟩
    · exact hstart
  | _ => cases hbroken

theorem Exact.settleAndRead (h : Exact cs s) (hbroken : s.phase.isBroken = false) (c : Char) :
    Outcome cs (Exact (cs ++ [c])) (s.settleAndRead c) := by
  have hsettle := h.settle hbroken
  unfold Scanner.settleAndRead
  split
  · rename_i t ht
    rw [ht] at hsettle
    exact Settled.readInLine hsettle c
  · rename_i e he
    rw [he] at hsettle
    exact hsettle

/-- The indentation of a line is compared at the place of its first token. -/
theorem Settled.layout (h : Settled cs s) (width : Nat) :
    Outcome cs (Settled cs) (s.layout width) := by
  unfold Scanner.layout
  dsimp only
  split_ifs
  · refine ⟨h.pos, ?_⟩
    rw [h.pos]
    simpa [emit] using Placed.lexeme h.placed .indent
  · refine ⟨h.pos, ?_⟩
    rw [h.pos]
    exact h.placed.replicate .outdent _
  · show Within cs s.pos
    rw [h.pos]
    exact within_behind cs

/-- One more character of the pending token. -/
theorem Exact.extend {before piece : List Char} {phase : Phase} (hpos : s.pos = .behind cs)
    (hcs : cs = before ++ piece) (h : Placed before s.lexemes)
    (hphase : phase.Midway (.behind before) (piece ++ [c])) :
    Exact (cs ++ [c]) (s.move c phase) :=
  ⟨by rw [Pos.behind_concat, ← hpos]; rfl, before, piece ++ [c], by rw [hcs, List.append_assoc], h,
    hphase⟩

theorem Settled.readLineStart (h : Settled cs s) (mode : ScanMode) (width : Nat) (c : Char) :
    Outcome cs (Exact (cs ++ [c])) (s.readLineStart mode width c) := by
  unfold Scanner.readLineStart
  split_ifs
  · exact h.skip c fun _ => .outside rfl rfl
  · exact h.skip c fun _ => .outside rfl rfl
  · exact h.skip c fun _ => .outside rfl rfl
  · exact h.skip c fun _ => .outside rfl rfl
  · cases mode with
    | expression => exact h.readInLine c
    | program =>
      have hlayout := h.layout width
      dsimp only
      split
      · rename_i t ht
        rw [ht] at hlayout
        exact Settled.readInLine hlayout c
      · rename_i e he
        rw [he] at hlayout
        exact hlayout

/-- Outside every token, a step skips a character, or begins a token with it. -/
theorem Settled.step (h : Settled cs s) (hpending : s.phase.isPending = false)
    (hbroken : s.phase.isBroken = false) (c : Char) :
    Outcome cs (Exact (cs ++ [c])) (s.step mode c) := by
  unfold Scanner.step
  cases hs : s.phase with
  | lineStart width => exact h.readLineStart mode width c
  | inLine => exact h.readInLine c
  | comment whole =>
    dsimp only
    split_ifs
    · exact h.skip c fun _ => .outside rfl rfl
    · exact h.readInLine c
    · exact h.skip c fun _ => .outside rfl rfl
  | word _ _ => rw [hs] at hpending; cases hpending
  | number _ _ => rw [hs] at hpending; cases hpending
  | pair _ _ => rw [hs] at hpending; cases hpending
  | _ => rw [hs] at hbroken; cases hbroken

/-- Reading a character keeps the places exact. -/
theorem Exact.step (h : Exact cs s) (c : Char) :
    Outcome cs (Exact (cs ++ [c])) (s.step mode c) := by
  obtain ⟨before, piece, rfl, hplaced, hphase⟩ := h.read
  have hpos := h.pos
  have hstart : Within (before ++ piece) (.behind before) := ⟨before, by simp, rfl⟩
  have hsettle : s.phase.isBroken = false →
      Outcome (before ++ piece) (Exact (before ++ piece ++ [c])) (s.settleAndRead c) :=
    fun hbroken => h.settleAndRead hbroken c
  generalize hs : s.phase = phase at hphase hsettle
  cases hphase with
  | outside hpending hbroken =>
    rw [List.append_nil] at hpos ⊢
    exact Settled.step ⟨hpos, hplaced⟩ (hs ▸ hpending) (hs ▸ hbroken) c
  | continued =>
    rw [Scanner.step, hs]
    dsimp only
    split
    · exact .between (by rw [Pos.behind_concat, ← hpos]; rfl) ((hplaced.skip _).skip c)
        fun _ => .outside rfl rfl
    · exact hstart
  | word hread hc hcs =>
    rw [Scanner.step, hs]
    dsimp only
    split
    · rename_i hname
      exact .extend hpos rfl hplaced (.word (by simp [hread]) hc (by simp [hcs, hname]))
    · exact hsettle rfl
  | @number read hne =>
    rw [Scanner.step, hs]
    dsimp only
    split
    · refine .extend hpos rfl hplaced ?_
      rw [← List.reverse_cons]
      exact .number (by simp)
    · exact hsettle rfl
  | pair first =>
    rw [Scanner.step, hs]
    dsimp only
    split
    · rename_i m hm
      refine .write hpos ?_ hplaced (.mark m) fun _ => .outside rfl rfl
      rw [Mark.text_of_pair? hm]
      simp
    · exact hsettle rfl
  | string hquote hescapes =>
    rw [Scanner.step, hs]
    dsimp only
    split_ifs with hline hend hslash
    · exact hstart
    · refine .write hpos ?_ hplaced (.str hquote (by simpa using hescapes))
        fun _ => .outside rfl rfl
      simp [hend]
    · refine .extend hpos rfl hplaced ?_
      rw [hslash]
      exact .escape hquote hescapes
    · refine .extend hpos rfl hplaced (.string hquote ?_)
      rw [List.reverse_cons]
      exact .plain hescapes hline hend hslash
  | escape hquote hescapes =>
    rw [Scanner.step, hs]
    dsimp only
    split
    · rename_i d hd
      refine .extend hpos rfl hplaced ?_
      rw [List.append_assoc]
      refine .string hquote ?_
      rw [List.reverse_cons]
      exact .escape hescapes hd
    · exact hstart

/-! ## Texts -/

theorem Exact.run (h : Exact cs s) (ds : List Char) :
    Outcome (cs ++ ds) (Exact (cs ++ ds)) (s.run mode ds) := by
  induction ds generalizing cs s with
  | nil =>
    rw [List.append_nil]
    exact h
  | cons d ds ih =>
    have hstep : Outcome cs (Exact (cs ++ [d])) (s.step mode d) := h.step d
    rw [run_cons]
    cases hs : s.step mode d with
    | error e =>
      rw [hs] at hstep
      exact Within.append hstep (d :: ds)
    | ok t =>
      rw [hs] at hstep
      have hrun := ih hstep
      rwa [List.append_assoc] at hrun

theorem exact_run (mode : ScanMode) (cs : List Char) :
    Outcome cs (Exact cs) (start.run mode cs) :=
  Exact.start.run cs

/-- The closing lexemes take no characters. -/
theorem Settled.closing (h : Settled cs s) :
    Placed cs (s.lexemes.reverse ++ s.closing).reverse := by
  have hending : ∀ {ls}, Placed cs ls → Placed cs (s.ending.reverse ++ ls) := by
    intro ls hls
    rw [ending, h.pos, List.reverse_append, List.reverse_replicate, List.append_assoc]
    simpa using Placed.lexeme (hls.replicate .outdent s.indents.length) .endOfInput
  rw [List.reverse_append, List.reverse_reverse]
  by_cases hfresh : s.Fresh
  · rw [closing_of_fresh hfresh]
    exact hending h.placed
  · rw [closing_of_not_fresh hfresh, List.reverse_cons, List.append_assoc, h.pos]
    refine hending ?_
    simpa using Placed.lexeme h.placed .lineEnd

theorem finish_of_not_broken (h : s.phase.isBroken = false) :
    s.finish = s.settle.bind fun t => .ok (t.lexemes.reverse ++ t.closing) := by
  unfold Scanner.finish
  cases hs : s.phase <;> cases s.settle <;> first
    | rfl
    | (rw [hs] at h; cases h)

/-- The lexemes of a text stand in it. -/
theorem Exact.placed {ls : List Lexeme} (h : Exact cs s) (hls : s.finish = .ok ls) :
    Placed cs ls.reverse := by
  obtain ⟨hbroken, t, ht, rfl⟩ := finish_eq_ok_iff.1 hls
  have hsettle := h.settle hbroken
  rw [ht] at hsettle
  exact Settled.closing hsettle

/-- A text that cannot end where it does is refused where its last token begins. -/
theorem Exact.within (h : Exact cs s) (he : s.finish = .error e) : Within cs e.pos := by
  obtain ⟨before, piece, hcs, -, hphase⟩ := h.read
  have hstart : Within cs (.behind before) := ⟨before, by simp [hcs], rfl⟩
  by_cases hbroken : s.phase.isBroken = false
  · have hsettle := h.settle hbroken
    rw [finish_of_not_broken hbroken] at he
    cases hs : s.settle with
    | ok t =>
      rw [hs] at he
      cases he
    | error f =>
      rw [hs] at he hsettle
      cases he
      exact hsettle
  · unfold Scanner.finish at he
    generalize s.phase = phase at hphase hbroken he
    cases hphase with
    | outside _ hphase => exact absurd hphase hbroken
    | continued | string | escape =>
      cases he
      exact hstart
    | _ => exact absurd rfl hbroken

end Scanner

variable {mode : ScanMode} {text : String}

/-- The lexemes of a text stand in it, one behind the other, at their places. -/
theorem placed_of_scan {ls : List Lexeme} (h : scan mode text = .ok ls) :
    Placed text.toList ls.reverse := by
  rw [← String.ofList_toList (s := text)] at h
  obtain ⟨s, hs, hls⟩ := Scanner.scan_ofList_eq_ok_iff.1 h
  have hrun := Scanner.exact_run mode text.toList
  rw [hs] at hrun
  exact Scanner.Exact.placed hrun hls

/-- The lexemes of a text each stand in it at their place. -/
theorem standsAt_of_scan {ls : List Lexeme} (h : scan mode text = .ok ls) :
    ∀ l ∈ ls, StandsAt text.toList l.pos l.token :=
  fun l hl => (placed_of_scan h).standsAt l (List.mem_reverse.2 hl)

end ScriptShell
