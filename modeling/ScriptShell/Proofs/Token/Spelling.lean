import ScriptShell.Proofs.Expr.Grammar
import ScriptShell.Proofs.Token.Line

/-!
# ScriptShell.Proofs.Token.Spelling

How tokens are written, and that the scanner reads them back. Between two tokens any number of
spaces may stand, none only where the first character of the second would not be taken for a part of
the first.

* `Token.spelling`: the characters of a token. In a string, the backslash, the quote, the line end
  and the tab are escaped and nothing else is.
* `Spelled`: the characters of a row of tokens, with spaces between them.
* `Scanner.readsBack`: a token is read back, whatever else comes behind it.
* `Scanner.run_spelled`: so is a row of tokens, up to the end of its line.
-/

namespace ScriptShell

/-- Is the word an identifier, that is a name that is no keyword? -/
def isIdentifier (word : String) : Bool :=
  match word.toList with
  | c :: cs => isNameStart c && cs.all isNameChar && (Keyword.ofWord? word).isNone
  | [] => false

/-- How a character is written between double quotes. -/
def quotedChar (c : Char) : List Char :=
  if c = Text.backslash || c = Text.quoteMark then [Text.backslash, c]
  else if c = '\n' then [Text.backslash, 'n']
  else if c = '\t' then [Text.backslash, 't']
  else [c]

namespace Token

/-- How a token is written. The layout of a text is not written by characters of its own. -/
def spelling : Token → List Char
  | .int i => i.text.toList
  | .str s => Text.quoteMark :: (s.toList.flatMap quotedChar ++ [Text.quoteMark])
  | .name id => id.toList
  | .keyword k => k.text.toList
  | .mark m => m.text.toList
  | .newline | .indent | .outdent | .endOfInput => []

/-- Can the token be written? A negative integer has no literal, and not every word is a name. -/
def isSpellable : Token → Bool
  | .int i => 0 ≤ i.val
  | .name id => isIdentifier id
  | .str _ | .keyword _ | .mark _ => true
  | .newline | .indent | .outdent | .endOfInput => false

/-- Would the character behind the token be taken for a part of it? -/
def glues : Token → Char → Bool
  | .int _, c => isNumberChar c
  | .name _, c | .keyword _, c => isNameChar c
  | .mark .assign, c | .mark .lt, c | .mark .gt, c => c = '='
  | _, _ => false

/-- The number of open parentheses behind a token. -/
def depthAfter (depth : Nat) : Token → Nat
  | .mark m => Scanner.depthAfter depth m
  | _ => depth

theorem glues_space (t : Token) : t.glues ' ' = false := by
  unfold glues
  split <;> rfl

theorem glues_newline (t : Token) : t.glues '\n' = false := by
  unfold glues
  split <;> rfl

end Token

/-- The characters of a row of tokens, each with spaces behind it. Where there are none, the next
token does not begin with a character that glues. -/
inductive Spelled : List Token → List Char → Prop
  | nil : Spelled [] []
  | cons {t ts cs} (n : Nat) (hglue : n = 0 → ∀ c ∈ cs.head?, t.glues c = false)
      (h : Spelled ts cs) : Spelled (t :: ts) (t.spelling ++ (List.replicate n ' ' ++ cs))

namespace Spelled

variable {t : Token} {ts : List Token} {cs : List Char}

theorem beside (hglue : cs.head?.all (!t.glues ·)) (h : Spelled ts cs) :
    Spelled (t :: ts) (t.spelling ++ cs) :=
  .cons 0 (fun _ c hc => by simpa [Option.mem_def.1 hc] using hglue) h

theorem apart (h : Spelled ts cs) : Spelled (t :: ts) (t.spelling ++ ' ' :: cs) :=
  .cons 1 (by simp) h

end Spelled

/-- A row of tokens can be written, for instance with one space behind each. -/
theorem exists_spelled (ts : List Token) : ∃ cs, Spelled ts cs := by
  induction ts with
  | nil => exact ⟨[], .nil⟩
  | cons t ts ih =>
    obtain ⟨cs, hcs⟩ := ih
    exact ⟨_, hcs.apart⟩

/-! ## First characters -/

theorem toNat_of_isDigit {c : Char} (h : c.isDigit = true) : 48 ≤ c.toNat ∧ c.toNat ≤ 57 := by
  simp only [Char.isDigit, Bool.and_eq_true, decide_eq_true_eq] at h
  exact ⟨h.1, h.2⟩

theorem isDigit_of_isNameStart {c : Char} (h : isNameStart c = true) : c.isDigit = false := by
  by_contra hdigit
  obtain ⟨h₁, h₂⟩ := toNat_of_isDigit (by simpa using hdigit)
  have hc : c = Char.ofNat c.toNat := (Char.ofNat_toNat c).symm
  have hnot : ∀ n < 58, 48 ≤ n → isNameStart (Char.ofNat n) = false := by decide
  rw [hc, hnot _ (by omega) h₁] at h
  cases h

/-- Is the character neither blank nor the first of a comment? -/
def isInk (c : Char) : Bool :=
  c != ' ' && c != '\t' && c != '\n' && c != '\r' && c != '#'

theorem ne_of_class {P : Char → Bool} {c d : Char} (hc : P c = true) (hd : P d = false) :
    c ≠ d := by
  rintro rfl
  rw [hc] at hd
  cases hd

theorem isInk_of_class {P : Char → Bool} {c : Char} (hc : P c = true) (hspace : P ' ' = false)
    (htab : P '\t' = false) (hline : P '\n' = false) (hreturn : P '\r' = false)
    (hhash : P '#' = false) : isInk c = true := by
  simp [isInk, ne_of_class hc hspace, ne_of_class hc htab, ne_of_class hc hline,
    ne_of_class hc hreturn, ne_of_class hc hhash]

theorem isInk_of_isNameStart {c : Char} (h : isNameStart c = true) : isInk c = true := by
  apply isInk_of_class h <;> decide

theorem isInk_of_isDigit {c : Char} (h : c.isDigit = true) : isInk c = true := by
  apply isInk_of_class h <;> decide

theorem isIdentifier_iff {word : String} : isIdentifier word = true ↔
    ∃ c cs, word.toList = c :: cs ∧ isNameStart c = true ∧ cs.all isNameChar = true ∧
      wordToken word = .name word := by
  unfold isIdentifier wordToken
  cases word.toList with
  | nil => simp
  | cons c cs =>
    cases hword : Keyword.ofWord? word <;> simp [and_assoc]

theorem keyword_word (k : Keyword) : ∃ c cs, k.text.toList = c :: cs ∧ isNameStart c = true ∧
    cs.all isNameChar = true ∧ wordToken k.text = .keyword k := by
  cases k <;> exact ⟨_, _, rfl, by decide, by decide, by decide⟩

theorem digits_of_nonneg {i : Integer} (h : 0 ≤ i.val) : ∃ c cs, i.text.toList = c :: cs ∧
    c.isDigit = true ∧ cs.all Char.isDigit = true ∧ Integer.ofDigits? (c :: cs) = some i := by
  obtain ⟨n, hn⟩ := Int.eq_ofNat_of_zero_le h
  have htext : i.text.toList = Nat.toDigits 10 n := by
    rw [Integer.text, hn]
    show (toString n).toList = _
    rw [Nat.toString_eq_ofList_toDigits, String.toList_ofList]
  have hdigit : ∀ c ∈ Nat.toDigits 10 n, c.isDigit = true := fun c hc =>
    Nat.isDigit_of_mem_toDigits (by decide) (by decide) hc
  have hvalue : Integer.ofDigits? (Nat.toDigits 10 n) = some i := by
    rw [Integer.ofDigits?, if_pos (List.all_eq_true.2 hdigit), Nat.ofDigitChars_ten_toDigits,
      Integer.ofInt?_eq_some_iff, hn]
  cases hcs : Nat.toDigits 10 n with
  | nil => exact absurd hcs Nat.toDigits_ne_nil
  | cons c cs =>
    rw [hcs] at hdigit hvalue
    obtain ⟨hc, hcs'⟩ := List.forall_mem_cons.1 hdigit
    exact ⟨c, cs, htext.trans hcs, hc, List.all_eq_true.2 hcs', hvalue⟩

/-- A token is written by at least one character, with which a line may begin. -/
theorem Token.spelling_eq_cons {t : Token} (h : t.isSpellable = true) :
    ∃ c cs, t.spelling = c :: cs ∧ isInk c = true := by
  cases t with
  | int i =>
    obtain ⟨c, cs, hcs, hc, -⟩ := digits_of_nonneg (by simpa [isSpellable] using h)
    exact ⟨c, cs, hcs, isInk_of_isDigit hc⟩
  | name id =>
    obtain ⟨c, cs, hcs, hc, -⟩ := isIdentifier_iff.1 h
    exact ⟨c, cs, hcs, isInk_of_isNameStart hc⟩
  | keyword k =>
    obtain ⟨c, cs, hcs, hc, -⟩ := keyword_word k
    exact ⟨c, cs, hcs, isInk_of_isNameStart hc⟩
  | str s => exact ⟨_, _, rfl, by decide⟩
  | mark m => cases m <;> exact ⟨_, _, rfl, by decide⟩
  | newline | indent | outdent | endOfInput => cases h

theorem Spelled.eq_cons {ts : List Token} {cs : List Char} (h : Spelled ts cs) (hne : ts ≠ [])
    (hts : ∀ t ∈ ts, t.isSpellable = true) : ∃ c ds, cs = c :: ds ∧ isInk c = true := by
  cases h with
  | nil => exact absurd rfl hne
  | cons n _ _ =>
    obtain ⟨c, ds, hcs, hc⟩ := Token.spelling_eq_cons (hts _ List.mem_cons_self)
    exact ⟨c, _, by rw [hcs, List.cons_append], hc⟩

/-! ## Reading tokens back -/

namespace Scanner

variable {mode : ScanMode} {s : Scanner} {c : Char} {cs ds : List Char} {t : Token}

theorem readInLine_nameStart (h : isNameStart c = true) :
    s.readInLine c = .ok (s.move c (.word s.pos [c])) := by
  have hne := fun d => ne_of_class (P := isNameStart) (d := d) h
  simp [readInLine, isDigit_of_isNameStart h, h, hne '\n' (by decide), hne ' ' (by decide),
    hne '\t' (by decide), hne '\r' (by decide), hne '#' (by decide),
    hne Text.backslash (by decide), hne Text.quoteMark (by decide), hne '\x27' (by decide)]

theorem readInLine_digit (h : c.isDigit = true) :
    s.readInLine c = .ok (s.move c (.number s.pos [c])) := by
  have hne := fun d => ne_of_class (P := Char.isDigit) (d := d) h
  simp [readInLine, h, hne '\n' (by decide), hne ' ' (by decide), hne '\t' (by decide),
    hne '\r' (by decide), hne '#' (by decide), hne Text.backslash (by decide),
    hne Text.quoteMark (by decide), hne '\x27' (by decide)]

/-- The machine behind a token that it read between two tokens of a line. -/
def past (s : Scanner) (t : Token) : Scanner where
  phase := .inLine
  pos := s.pos.advanceBy t.spelling
  depth := t.depthAfter s.depth
  indents := s.indents
  lexemes := ⟨t, s.pos⟩ :: s.lexemes

theorem run_cons_congr {s s' : Scanner} (h : s.step mode c = s'.step mode c) :
    s.run mode (c :: cs) = s'.run mode (c :: cs) := by
  rw [run_cons, run_cons, h]

theorem run_cons_of_ok {s' : Scanner} (h : s.step mode c = .ok s') :
    s.run mode (c :: cs) = s'.run mode cs := by
  rw [run_cons, h]
  rfl

theorem run_singleton_of_ok {s' : Scanner} (h : s.step mode c = .ok s') :
    s.run mode [c] = .ok s' :=
  run_cons_of_ok h

theorem step_inLine (h : s.phase = .inLine) : s.step mode c = s.readInLine c := by
  rw [step, h]

/-- The machine keeps what it reads of a token, character by character. -/
theorem run_gather {P : Char → Bool} {enc : Char → List Char} {phase : List Char → Phase}
    (henc : ∀ {s : Scanner} {read c}, s.phase = phase read → P c = true →
      s.run mode (enc c) =
        .ok { s with phase := phase (c :: read), pos := s.pos.advanceBy (enc c) })
    {read : List Char} (hs : s.phase = phase read) (hcs : cs.all P = true) :
    s.run mode (cs.flatMap enc) =
      .ok { s with phase := phase (cs.reverse ++ read),
                   pos := s.pos.advanceBy (cs.flatMap enc) } := by
  induction cs generalizing s read with
  | nil =>
    rw [List.flatMap_nil, List.reverse_nil, List.nil_append, ← hs]
    rfl
  | cons c cs ih =>
    rw [List.all_cons, Bool.and_eq_true] at hcs
    rw [List.flatMap_cons, run_append, henc hs hcs.1, Except.bind, ih rfl hcs.2,
      Pos.advanceBy_append, List.reverse_cons, List.append_assoc, List.singleton_append]

theorem run_kept {P : Char → Bool} {phase : List Char → Phase}
    (hstep : ∀ {s : Scanner} {read c}, s.phase = phase read → P c = true →
      s.step mode c = .ok (s.move c (phase (c :: read))))
    {read : List Char} (hs : s.phase = phase read) (hcs : cs.all P = true) :
    s.run mode cs =
      .ok { s with phase := phase (cs.reverse ++ read), pos := s.pos.advanceBy cs } := by
  have h : s.run mode (cs.flatMap fun c => [c]) =
      .ok { s with phase := phase (cs.reverse ++ read),
                   pos := s.pos.advanceBy (cs.flatMap fun c => [c]) } :=
    run_gather (fun hs hc => run_singleton_of_ok (hstep hs hc)) hs hcs
  rwa [List.flatMap_singleton'] at h

theorem run_word {p : Pos} {read : List Char} (hs : s.phase = .word p read)
    (hcs : cs.all isNameChar = true) : s.run mode cs =
      .ok { s with phase := .word p (cs.reverse ++ read), pos := s.pos.advanceBy cs } := by
  refine run_kept (fun {s read c} hs hc => ?_) hs hcs
  rw [step, hs]
  exact if_pos hc

theorem run_number {p : Pos} {read : List Char} (hs : s.phase = .number p read)
    (hcs : cs.all isNumberChar = true) : s.run mode cs =
      .ok { s with phase := .number p (cs.reverse ++ read), pos := s.pos.advanceBy cs } := by
  refine run_kept (fun {s read c} hs hc => ?_) hs hcs
  rw [step, hs]
  exact if_pos hc

/-- In a string, a character is read as the one that it was written for. -/
theorem run_quotedChar {p : Pos} {read : List Char} (hs : s.phase = .string p Text.quoteMark read) :
    s.run mode (quotedChar c) =
      .ok { s with phase := .string p Text.quoteMark (c :: read),
                   pos := s.pos.advanceBy (quotedChar c) } := by
  have hescape : ∀ d e, escapeValue? d = some e →
      s.run mode [Text.backslash, d] =
        .ok { s with phase := .string p Text.quoteMark (e :: read),
                     pos := s.pos.advanceBy [Text.backslash, d] } := by
    intro d e hd
    have hstep : s.step mode Text.backslash =
        .ok (s.move Text.backslash (.escape p Text.quoteMark read)) := by
      rw [step, hs]
      rfl
    rw [run_cons_of_ok hstep]
    refine run_singleton_of_ok ?_
    simp only [step, move, hd]
    rfl
  unfold quotedChar
  split
  · refine hescape c c ?_
    rename_i h
    simp only [Bool.or_eq_true, decide_eq_true_eq] at h
    obtain rfl | rfl := h <;> rfl
  split
  · subst c
    exact hescape 'n' '\n' rfl
  split
  · subst c
    exact hescape 't' '\t' rfl
  · rename_i hplain hline htab
    simp only [Bool.or_eq_true, decide_eq_true_eq, not_or] at hplain
    refine run_singleton_of_ok ?_
    rw [step, hs]
    dsimp only
    rw [if_neg hline, if_neg hplain.2, if_neg hplain.1]
    rfl

/-! ## Tokens and their ends -/

/-- The machine `s` is behind the last character of a token, or further: when the token is settled
it is `t`, and so it is before the character `c`. -/
structure Settles (mode : ScanMode) (s t : Scanner) (c : Char) : Prop where
  settle : s.settle = .ok t
  phase : t.phase = .inLine
  step : s.step mode c = s.settleAndRead c

theorem Settles.of_inLine (hs : s.phase = .inLine) : Settles mode s s c where
  settle := by rw [Scanner.settle, hs]
  phase := hs
  step := by rw [step_inLine hs, settleAndRead, Scanner.settle, hs]

theorem Settles.run_eq {s' : Scanner} (h : Settles mode s s' c) :
    s.run mode (c :: cs) = s'.run mode (c :: cs) := by
  apply run_cons_congr
  rw [h.step, settleAndRead, h.settle, step_inLine h.phase]

theorem Settles.unbroken {s' : Scanner} (h : Settles mode s s' c) : s.phase.isBroken = false := by
  have hsettle := h.settle
  have hphase := h.phase
  unfold Scanner.settle at hsettle
  cases hs : s.phase with
  | continued _ | string _ _ _ | escape _ _ _ =>
    rw [hs] at hsettle
    cases hsettle
    rw [hs] at hphase
    cases hphase
  | _ => rfl

/-- Before a character that is no part of the token, the token is read back. -/
def ReadsBack (mode : ScanMode) (s : Scanner) (t : Token) : Prop :=
  ∃ u, s.run mode t.spelling = .ok u ∧ ∀ c, t.glues c = false → Settles mode u (s.past t) c

theorem readsBack_wordToken {word : String} {d : Char} {read : List Char} (hs : s.phase = .inLine)
    (hword : word.toList = d :: read) (hd : isNameStart d = true)
    (hread : read.all isNameChar = true) (ht : wordToken word = t)
    (hspelling : t.spelling = word.toList) (hdepth : ∀ n, t.depthAfter n = n)
    (hglues : ∀ c, t.glues c = isNameChar c) : ReadsBack mode s t := by
  have hstep : s.step mode d = .ok (s.move d (.word s.pos [d])) := by
    rw [step_inLine hs, readInLine_nameStart hd]
  refine ⟨_, by rw [hspelling, hword, run_cons_of_ok hstep, run_word rfl hread], fun c hc => ?_⟩
  refine ⟨?_, rfl, ?_⟩
  · rw [settle]
    simp only [List.reverse_append, List.reverse_reverse, List.reverse_cons, List.reverse_nil,
      List.nil_append, List.singleton_append, ← hword, String.ofList_toList, ht]
    simp only [past, hspelling, hword, hdepth]
    rfl
  · rw [step]
    exact if_neg (by simp [← hglues, hc])

theorem readsBack_int {i : Integer} (hs : s.phase = .inLine) (hi : 0 ≤ i.val) :
    ReadsBack mode s (.int i) := by
  obtain ⟨d, read, htext, hd, hread, hvalue⟩ := digits_of_nonneg hi
  have hstep : s.step mode d = .ok (s.move d (.number s.pos [d])) := by
    rw [step_inLine hs, readInLine_digit hd]
  have hread' : read.all isNumberChar = true := by
    refine List.all_eq_true.2 fun c hc => ?_
    have := List.all_eq_true.1 hread c hc
    simp [isNumberChar, Char.isAlphanum, this]
  have hspelling : (Token.int i).spelling = d :: read := htext
  refine ⟨_, by rw [hspelling, run_cons_of_ok hstep, run_number rfl hread'], fun c hc => ?_⟩
  refine ⟨?_, rfl, ?_⟩
  · rw [settle]
    simp only [List.reverse_append, List.reverse_reverse, List.reverse_cons, List.reverse_nil,
      List.nil_append, List.singleton_append, hvalue]
    simp only [past, hspelling]
    rfl
  · rw [step]
    exact if_neg (by simpa [Token.glues] using hc)

theorem readsBack_str {w : String} (hs : s.phase = .inLine) : ReadsBack mode s (.str w) := by
  have hopen : s.step mode Text.quoteMark =
      .ok (s.move Text.quoteMark (.string s.pos Text.quoteMark [])) := by
    rw [step_inLine hs]
    rfl
  refine ⟨s.past (.str w), ?_, fun c _ => .of_inLine rfl⟩
  rw [Token.spelling, run_cons_of_ok hopen, run_append,
    run_gather (P := fun _ => true) (fun hs _ => run_quotedChar hs) rfl
      (List.all_eq_true.2 fun _ _ => rfl), Except.bind]
  refine run_singleton_of_ok ?_
  rw [step]
  dsimp only
  rw [if_neg (by decide), if_pos rfl, List.append_nil, List.reverse_reverse, String.ofList_toList]
  simp only [past, Token.spelling, Pos.advanceBy, List.foldl_cons, List.foldl_append,
    List.foldl_nil]
  rfl

theorem readsBack_mark {m : Mark} (hs : s.phase = .inLine) : ReadsBack mode s (.mark m) := by
  -- a mark of one character is written at once, or when the character behind it comes
  have hsingle : ∀ d, (Token.mark m).spelling = [d] →
      s.readInLine d = .ok (s.past (.mark m)) → ReadsBack mode s (.mark m) := by
    intro d hd hread
    exact ⟨_, hd ▸ run_singleton_of_ok ((step_inLine hs).trans hread), fun c _ => .of_inLine rfl⟩
  have hlone : ∀ d, (Token.mark m).spelling = [d] →
      s.readInLine d = .ok (s.move d (.pair s.pos d)) → Mark.lone? d = some m →
      (∀ c, (Token.mark m).glues c = false → Mark.pair? d c = none) →
      (∀ n, depthAfter n m = n) → ReadsBack mode s (.mark m) := by
    intro d hd hread hm hpair hdepth
    refine ⟨_, hd ▸ run_singleton_of_ok ((step_inLine hs).trans hread), fun c hc => ⟨?_, rfl, ?_⟩⟩
    · simp only [settle, move, hm, past, hd, Token.depthAfter, hdepth]
      rfl
    · simp only [step, move, hpair c hc]
  have hpair : ∀ d e, (Token.mark m).spelling = [d, e] →
      s.readInLine d = .ok (s.move d (.pair s.pos d)) → Mark.pair? d e = some m →
      (∀ n, depthAfter n m = n) → ReadsBack mode s (.mark m) := by
    intro d e hd hread hm hdepth
    refine ⟨s.past (.mark m), ?_, fun c _ => .of_inLine rfl⟩
    rw [hd, run_cons_of_ok ((step_inLine hs).trans hread)]
    refine run_singleton_of_ok ?_
    simp only [step, move, hm, past, hd, Token.depthAfter, hdepth]
    rfl
  have hne : ∀ d c, (decide (c = '=') : Bool) = false → d ≠ '/' → Mark.pair? d c = none := by
    intro d c hc hd
    simp only [decide_eq_false_iff_not] at hc
    simp [Mark.pair?, hc, hd]
  cases m with
  | assign => exact hlone '=' rfl rfl rfl (fun c hc => hne _ c hc (by decide)) fun _ => rfl
  | lt => exact hlone '<' rfl rfl rfl (fun c hc => hne _ c hc (by decide)) fun _ => rfl
  | gt => exact hlone '>' rfl rfl rfl (fun c hc => hne _ c hc (by decide)) fun _ => rfl
  | eq => exact hpair '=' '=' rfl rfl rfl fun _ => rfl
  | notEq => exact hpair '!' '=' rfl rfl rfl fun _ => rfl
  | ltEq => exact hpair '<' '=' rfl rfl rfl fun _ => rfl
  | gtEq => exact hpair '>' '=' rfl rfl rfl fun _ => rfl
  | slashSlash => exact hpair '/' '/' rfl rfl rfl fun _ => rfl
  | _ => exact hsingle _ rfl rfl

/-- Between the tokens of a line, every token is read back. -/
theorem readsBack (ht : t.isSpellable = true) (hs : s.phase = .inLine) : ReadsBack mode s t := by
  cases t with
  | name id =>
    obtain ⟨d, read, hword, hd, hread, ht⟩ := isIdentifier_iff.1 ht
    exact readsBack_wordToken hs hword hd hread ht rfl (fun _ => rfl) fun _ => rfl
  | keyword k =>
    obtain ⟨d, read, hword, hd, hread, ht⟩ := keyword_word k
    exact readsBack_wordToken hs hword hd hread ht rfl (fun _ => rfl) fun _ => rfl
  | int i => exact readsBack_int hs (by simpa [Token.isSpellable] using ht)
  | str w => exact readsBack_str hs
  | mark m => exact readsBack_mark hs
  | newline | indent | outdent | endOfInput => cases ht

/-! ## Rows of tokens -/

theorem run_spaces (mode : ScanMode) (hs : s.phase = .inLine) (n : Nat) (cs : List Char) :
    ∃ p, s.run mode (List.replicate n ' ' ++ cs) = run mode { s with pos := p } cs := by
  induction n generalizing s with
  | zero => exact ⟨s.pos, rfl⟩
  | succ n ih =>
    have hstep : s.step mode ' ' = .ok (s.move ' ' .inLine) := (step_inLine hs).trans rfl
    obtain ⟨p, hp⟩ := ih (s := s.move ' ' .inLine) rfl
    refine ⟨p, ?_⟩
    rw [List.replicate_succ, List.cons_append, run_cons_of_ok hstep, hp, move, ← hs]

/-- A row of tokens is read back, whether a line end comes behind it or nothing does. -/
theorem run_spelled (mode : ScanMode) {ts : List Token} (h : Spelled ts cs)
    (hts : ∀ t ∈ ts, t.isSpellable = true) (hs : s.phase = .inLine) :
    ∃ u ls p, tokens ls = ts ∧ s.run mode cs = .ok u ∧ Settles mode u
      ⟨.inLine, p, ts.foldl Token.depthAfter s.depth, s.indents, ls.reverse ++ s.lexemes⟩ '\n' := by
  induction h generalizing s with
  | nil => exact ⟨s, [], s.pos, rfl, rfl, by simpa [← hs] using Settles.of_inLine hs⟩
  | @cons t ts cs n hglue _ ih =>
    obtain ⟨ht, hts⟩ := List.forall_mem_cons.1 hts
    obtain ⟨u₁, hrun₁, hend⟩ : ReadsBack mode s t := readsBack ht hs
    obtain ⟨p, hp⟩ := run_spaces mode (s := s.past t) rfl n cs
    obtain ⟨u, ls, q, hls, hrun, hu⟩ := ih (s := { s.past t with pos := p }) hts rfl
    have htokens : tokens (⟨t, s.pos⟩ :: ls) = t :: ts := by rw [tokens_cons, hls]
    have hlexemes : (⟨t, s.pos⟩ :: ls).reverse ++ s.lexemes = ls.reverse ++ (s.past t).lexemes := by
      simp [past]
    rw [run_append, hrun₁, Except.bind]
    cases hrest : List.replicate n ' ' ++ cs with
    | cons c rest =>
      -- a space is no part of the token, nor is the first character of the next one
      have hc : t.glues c = false := by
        cases n with
        | succ n =>
          cases hrest
          exact t.glues_space
        | zero =>
          rw [List.replicate_zero, List.nil_append] at hrest
          exact hglue rfl c (by rw [hrest]; rfl)
      refine ⟨u, _, q, htokens, ?_, hlexemes ▸ hu⟩
      rw [(hend c hc).run_eq, ← hrest, hp, hrun]
    | nil =>
      obtain ⟨hn, rfl⟩ := List.append_eq_nil_iff.1 hrest
      rw [hrest] at hp
      cases hp
      cases hrun
      have hv := Except.ok.inj hu.settle
      refine ⟨u₁, _, q, htokens, rfl, ?_⟩
      rw [List.foldl_cons, hlexemes]
      exact hv ▸ hend '\n' t.glues_newline

end Scanner
end ScriptShell
