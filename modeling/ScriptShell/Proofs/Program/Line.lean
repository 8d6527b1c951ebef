import ScriptShell.Classify
import ScriptShell.Proofs.Program.Frame
import ScriptShell.Proofs.Token.Line

/-!
# ScriptShell.Proofs.Program.Line

Programs, line by line. A line that is a statement by itself, and holds no other, is the first
statement of every program that it begins, and the lines behind it are the rest of that program. A
text that is an expression is a program of this one statement, if it is a program at all.

* `Complete`: a line that is one statement by itself.
* `complete_of_expr`, `complete_of_binding`: the lines that a session takes for one.
* `Complete.parse_behind`: what is read of a program whose first line is one.
* `parse_of_expr`: a text that is an expression and a program.
-/

namespace ScriptShell

/-- A place without its line. -/
def Pos.eraseLine (p : Pos) : Pos :=
  ⟨0, p.col⟩

theorem sameText_below (ls : List Lexeme) : SameText Pos.eraseLine (ls.map Lexeme.below) ls := by
  induction ls with
  | nil => exact .nil
  | cons l ls ih => exact .cons ⟨rfl, fun _ => rfl⟩ ih

theorem Stmt.eq_of_same {s s' : Stmt} (h : Stmt.Same id s s') : s = s' := by
  rwa [Stmt.Same, Stmt.mapPos_id, Stmt.mapPos_id] at h

theorem eq_of_sameBlock {p p' : Program} (h : SameBlock id p p') : p = p' := by
  have hid : Stmt.mapPos id = id := funext Stmt.mapPos_id
  simpa [hid] using h.map_eq

variable {ls rest : List Lexeme} {n : Nat} {inFunction : Bool} {s : Stmt} {e : Expr}

/-! ## The first token -/

theorem peek_of_whole {ts : List Lexeme} (h : Whole ts) (rest : List Lexeme) :
    (peek (ts ++ rest)).isLayout = false := by
  cases ts with
  | nil => exact absurd rfl h.nonempty
  | cons t ts => exact h.inline t List.mem_cons_self

/-- No statement begins with a token that stands for layout. -/
theorem isLayout_of_read (h : Stmt.read n inFunction ls = .ok (s, rest)) :
    (peek ls).isLayout = false := by
  rcases readStmtWith_eq_ok_iff.1 h with ⟨hp, -⟩ | ⟨hp, -⟩ | ⟨hp, -⟩ | ⟨-, -, -, hline⟩
  · rw [hp]
    rfl
  · rw [hp]
    rfl
  · rw [hp]
    rfl
  · obtain ⟨l, hs, -⟩ := readLine_eq_ok_iff.1 hline
    obtain ⟨ts, rfl, hts, -⟩ := frames_readSimple (π := id) hs
    exact peek_of_whole hts _

theorem not_reads_indent {l : Lexeme} {p : Program} (hl : l.token = .indent) :
    ¬Reads (l :: ls) p := by
  have hskip : skipNewlines (l :: ls) = l :: ls := skipNewlines_of_ne (by simp [peek, hl])
  intro h
  cases h with
  | done hp =>
    rw [hskip] at hp
    cases hl.symm.trans hp
  | more _ hs _ =>
    rw [hskip] at hs
    have hlayout := isLayout_of_read hs
    rw [peek, hl] at hlayout
    cases hlayout

/-- Is nothing but one statement to come that holds no other? -/
def Token.isPlain : Token → Bool
  | .keyword .def_ | .keyword .if_ | .keyword .while_ => false
  | _ => true

theorem read_of_plain (hp : (peek ls).isPlain = true) :
    Stmt.read n inFunction ls = readLine n inFunction ls := by
  unfold Stmt.read readStmtWith
  split
  · rename_i h
    rw [h] at hp
    cases hp
  · rename_i h
    rw [h] at hp
    cases hp
  · rename_i h
    rw [h] at hp
    cases hp
  · rfl

theorem isPlain_of_opensExpr {t : Token} (h : t.opensExpr = true) : t.isPlain = true := by
  unfold Token.opensExpr at h
  split at h <;> first | rfl | cases h

theorem readSimple_of_opensExpr (h : (peek ls).opensExpr = true) :
    readSimple n inFunction ls = readAssignment n ls := by
  unfold readSimple
  split
  · rename_i hp
    rw [hp] at h
    cases h
  · rename_i hp
    rw [hp] at h
    cases h
  · rename_i hp
    rw [hp] at h
    cases h
  · rfl

/-- Line ends and the end of the input are no assignment. -/
theorem peek_of_skipNewlines (h : peek (skipNewlines rest) = .endOfInput) :
    (peek rest).isLayout = true := by
  by_cases hp : peek rest = .newline
  · rw [hp]
    rfl
  · rw [skipNewlines_of_ne hp] at h
    rw [h]
    rfl

/-- An expression with no assignment behind it is a statement. -/
theorem readSimple_of_expr (he : Expr.read n ls = .ok (e, rest))
    (hrest : (peek rest).isLayout = true) :
    readSimple n inFunction ls = .ok (.expr e (here ls), rest) := by
  rw [readSimple_of_opensExpr (Expr.opensExpr_of_read he)]
  refine readAssignment_eq_ok_iff.2 (.inl ⟨e, he, ?_, rfl⟩)
  intro hp
  rw [hp] at hrest
  cases hrest

/-! ## Lines that are complete -/

namespace Scanner

variable {t u : Scanner} {cs ds line : List Char}

theorem settle_grows (h : t.settle = .ok u) : t.lexemes <:+ u.lexemes := by
  rcases settle_cases h with ⟨-, rfl⟩ | ⟨_, _, -, rfl⟩
  · exact List.suffix_refl _
  · exact List.suffix_cons _ _

theorem finish_of_suffix {ms : List Lexeme} (h : t.finish = .ok ls) (hms : ms <:+ t.lexemes) :
    ∃ rest, ls = ms.reverse ++ rest := by
  obtain ⟨-, u, hu, rfl⟩ := finish_eq_ok_iff.1 h
  obtain ⟨ns, hns⟩ := hms.trans (settle_grows hu)
  exact ⟨ns.reverse ++ u.closing, by rw [← hns, List.reverse_append, List.append_assoc]⟩

/-- The first line of a program is not indented. -/
theorem not_indent_of_parse {p : Program} {q : Pos}
    (hp : Program.parse (String.ofList (cs ++ ds)) = .ok p) (h : start.run .program cs = .ok t) :
    ¬[⟨.indent, q⟩] <:+ t.lexemes := by
  intro hsuffix
  obtain ⟨ls, hls, hreads⟩ := Program.parse_eq_ok_iff.1 hp
  obtain ⟨t', ht', hfinish⟩ := scan_ofList_eq_ok_iff.1 hls
  obtain ⟨t₁, ht₁, hrest⟩ := run_append_eq_ok_iff.1 ht'
  rw [h] at ht₁
  cases ht₁
  obtain ⟨rest, rfl⟩ := finish_of_suffix hfinish (hsuffix.trans (run_grows hrest))
  exact not_reads_indent rfl hreads

theorem start_inline : start.Inline := by
  simp [Inline, start]

theorem run_first_line {p : Program} (hline : '\n' ∉ line)
    (hp : Program.parse (String.ofList (line ++ ds)) = .ok p)
    (h : start.run .program line = .ok t) :
    start.run .expression line = .ok t ∧ t.indents = [] ∧ t.Inline := by
  have hfresh : start.phase.isOuter = true → start.Fresh := fun _ => by simp [Fresh, start]
  rcases run_program (s := start) rfl hfresh h with
    ⟨hrun, hindents⟩ | ⟨cs₁, cs₂, u, q, rfl, hrun, hu, hsuffix⟩
  · exact ⟨hrun, hindents, run_inline hline start_inline hrun⟩
  · have hinline := run_inline (fun h => hline (List.mem_append_left _ h)) start_inline hrun
    cases hlexemes : u.lexemes with
    | nil =>
      rw [hlexemes] at hsuffix
      exact absurd hsuffix (not_indent_of_parse hp h)
    | cons l ls =>
      have hl : l.token = .newline := hu l (by rw [hlexemes]; rfl)
      have hl' := hinline l (by rw [hlexemes]; simp)
      rw [hl] at hl'
      cases hl'

end Scanner

open Scanner

/-- The line is the statement `s` by itself, in which the machine ends in `t`. Whatever is read
behind a line end, its lexemes are this statement. -/
structure Complete (line : List Char) (t u : Scanner) (s : Stmt) : Prop where
  run : start.run .program line = .ok t
  unbroken : t.phase.isBroken = false
  settle : t.settle = .ok u
  indents : u.indents = []
  whole : Whole u.lexemes.reverse
  plain : (peek u.lexemes.reverse).isPlain = true
  reads : ∀ {rest}, peek rest = .newline →
    readSimple maxNesting false (u.lexemes.reverse ++ rest) = .ok (s, rest)

theorem append_inline {as ts bs : List Lexeme} (has : ∀ l ∈ as, l.token.isLayout = false)
    (hts : ∀ l ∈ ts, l.token.isLayout = false) (hbs : ∀ l ∈ bs, l.token.isLayout = true)
    (hrest : (peek rest).isLayout = true) (h : as ++ bs = ts ++ rest) : as = ts ∧ bs = rest := by
  rcases List.append_eq_append_iff.1 h with ⟨cs, rfl, rfl⟩ | ⟨cs, rfl, rfl⟩
  · cases cs with
    | nil => simp
    | cons c cs =>
      have hc := hts c (by simp)
      rw [hbs c (by simp)] at hc
      cases hc
  · cases cs with
    | nil => simp
    | cons c cs =>
      have hc := has c (by simp)
      rw [show c.token.isLayout = true from hrest] at hc
      cases hc

/-- The line whose lexemes begin with a statement, with layout only behind it. -/
theorem complete_of_readSimple {line : List Char} {t : Scanner}
    (hrun : start.run .program line = .ok t) (hindents : t.indents = []) (hinline : t.Inline)
    (hfinish : t.finish = .ok ls) (hsimple : readSimple maxNesting false ls = .ok (s, rest))
    (hrest : (peek rest).isLayout = true) (hplain : (peek ls).isPlain = true) :
    ∃ u, Complete line t u s := by
  obtain ⟨hbroken, u, hu, rfl⟩ := finish_eq_ok_iff.1 hfinish
  obtain ⟨ts, hts, hwhole, hagain⟩ := frames_readSimple (π := id) hsimple
  have hu' : u.Inline := settle_inline hinline hu
  have hindents' : u.indents = [] := (settle_indents hu).trans hindents
  have hne : u.lexemes ≠ [] := by
    intro hne
    have hfresh : u.Fresh := by simp [Fresh, hne]
    have hpeek := peek_of_whole hwhole rest
    rw [← hts, closing_of_fresh hfresh, hne, ending, hindents'] at hpeek
    cases hpeek
  have hclosing := closing_line hindents' hu' hne
  have hlayout : ∀ l ∈ u.closing, l.token.isLayout = true := by
    simp [hclosing, Token.isLayout]
  obtain ⟨rfl, rfl⟩ := append_inline (fun l hl => hu' l (List.mem_reverse.1 hl)) hwhole.inline
    hlayout hrest hts
  refine ⟨u, hrun, hbroken, hu, hindents', hwhole, ?_, ?_⟩
  · cases hlexemes : u.lexemes.reverse with
    | nil => rfl
    | cons l ls =>
      rw [hlexemes] at hplain
      exact hplain
  · intro rest' hpeek
    obtain ⟨s', hs', hsame⟩ := hagain (.refl _) (show peek rest' = peek u.closing by
      rw [hpeek, hclosing]
      rfl)
    rwa [Stmt.eq_of_same hsame]

/-- No line end stands before the first token of a line. -/
theorem skipNewlines_line {t : Scanner} (hinline : t.Inline) (hindents : t.indents = [])
    (hfinish : t.finish = .ok ls) : skipNewlines ls = ls := by
  obtain ⟨-, u, hu, rfl⟩ := finish_eq_ok_iff.1 hfinish
  have hu' : u.Inline := settle_inline hinline hu
  apply skipNewlines_of_ne
  cases hlexemes : u.lexemes.reverse with
  | nil =>
    have hfresh : u.Fresh := by simp [Fresh, List.reverse_eq_nil_iff.1 hlexemes]
    rw [closing_of_fresh hfresh, ending, (settle_indents hu).trans hindents]
    simp [peek]
  | cons l ls =>
    intro hl
    have hl' := hu' l (List.mem_reverse.1 (by simp [hlexemes]))
    rw [show l.token = .newline from hl] at hl'
    cases hl'

section Kinds

variable {line ds : List Char} {p : Program}

/-- A line that is an expression is complete, if it begins a program. -/
theorem complete_of_expr (hline : '\n' ∉ line) (he : Expr.parse (String.ofList line) = .ok e)
    (hp : Program.parse (String.ofList (line ++ ds)) = .ok p) :
    ∃ t u q, Complete line t u (.expr e q) := by
  obtain ⟨ls₁, hls₁, -⟩ := Program.parse_eq_ok_iff.1 hp
  obtain ⟨t₁, ht₁, -⟩ := scan_ofList_eq_ok_iff.1 hls₁
  obtain ⟨t, ht, -⟩ := run_append_eq_ok_iff.1 ht₁
  obtain ⟨hrun, hindents, hinline⟩ := run_first_line hline hp ht
  obtain ⟨ls, rest, hls, he', hend⟩ := Expr.parse_eq_ok_iff.1 he
  obtain ⟨t', ht', hfinish⟩ := scan_ofList_eq_ok_iff.1 hls
  rw [hrun] at ht'
  cases ht'
  rw [skipNewlines_line hinline hindents hfinish] at he'
  have hrest := peek_of_skipNewlines hend
  have hplain := isPlain_of_opensExpr (Expr.opensExpr_of_read he')
  obtain ⟨u, hcomplete⟩ := complete_of_readSimple ht hindents hinline hfinish
    (readSimple_of_expr he' hrest) hrest hplain
  exact ⟨t, u, _, hcomplete⟩

theorem readLine_of_kind (h : Stmt.read n inFunction ls = .ok (s, rest)) (hs : s.kind ≠ .other) :
    (peek ls).isPlain = true ∧ readLine n inFunction ls = .ok (s, rest) := by
  rcases readStmtWith_eq_ok_iff.1 h with ⟨-, h⟩ | ⟨hp, h⟩ | ⟨-, h⟩ | ⟨h₁, h₂, h₃, hline⟩
  · obtain ⟨_, _, _, _, _, _, _, _, _, _, -, -, -, -, -, -, -, rfl⟩ := readDefine_eq_ok_iff.1 h
    exact absurd rfl hs
  · cases ls with
    | nil => cases hp
    | cons l ls =>
      obtain ⟨_, _, _, -, ⟨-, _, -, rfl⟩ | ⟨_, _, _, _, -, -, -, -, rfl⟩ | ⟨-, -, -, rfl⟩⟩ :=
        readIf_cons_eq_ok_iff.1 h <;> exact absurd rfl hs
  · obtain ⟨_, _, -, rfl⟩ := readWhile_eq_ok_iff.1 h
    exact absurd rfl hs
  · refine ⟨?_, hline⟩
    unfold Token.isPlain
    split
    · exact absurd ‹_› h₁
    · exact absurd ‹_› h₂
    · exact absurd ‹_› h₃
    · rfl

/-- A line that is an assignment or a load statement is complete. -/
theorem complete_of_binding (hline : '\n' ∉ line)
    (hp : Program.parse (String.ofList line) = .ok [s]) (hs : s.kind ≠ .other) :
    ∃ t u, Complete line t u s := by
  obtain ⟨ls, hls, hreads⟩ := Program.parse_eq_ok_iff.1 hp
  obtain ⟨t, ht, hfinish⟩ := scan_ofList_eq_ok_iff.1 hls
  have hp' : Program.parse (String.ofList (line ++ [])) = .ok [s] := by rwa [List.append_nil]
  obtain ⟨-, hindents, hinline⟩ := run_first_line hline hp' ht
  cases hreads with
  | more _ hread _ =>
    rw [skipNewlines_line hinline hindents hfinish] at hread
    obtain ⟨hplain, hline'⟩ := readLine_of_kind hread hs
    obtain ⟨l, hsimple, hl⟩ := readLine_eq_ok_iff.1 hline'
    obtain ⟨u, hcomplete⟩ := complete_of_readSimple ht hindents hinline hfinish hsimple
      (by rw [peek, hl]; rfl) hplain
    exact ⟨t, u, hcomplete⟩

end Kinds

namespace Complete

variable {line ds : List Char} {t u : Scanner} {p : Program}

theorem reads_behind {l : Lexeme} (h : Complete line t u s) (hl : l.token = .newline)
    (hreads : Reads (u.lexemes.reverse ++ l :: rest) p) : ∃ p', p = s :: p' ∧ Reads rest p' := by
  have hlayout : (peek (u.lexemes.reverse ++ l :: rest)).isLayout = false :=
    peek_of_whole h.whole _
  have hskip : skipNewlines (u.lexemes.reverse ++ l :: rest) = u.lexemes.reverse ++ l :: rest := by
    apply skipNewlines_of_ne
    intro hp
    rw [hp] at hlayout
    cases hlayout
  have hplain : (peek (u.lexemes.reverse ++ l :: rest)).isPlain = true := by
    have hplain := h.plain
    cases hlexemes : u.lexemes.reverse with
    | nil => exact absurd hlexemes h.whole.nonempty
    | cons l ls =>
      rw [hlexemes] at hplain
      exact hplain
  have hread : Stmt.read maxNesting false (u.lexemes.reverse ++ l :: rest) = .ok (s, rest) := by
    rw [read_of_plain hplain]
    exact readLine_eq_ok_iff.2 ⟨l, h.reads hl, hl⟩
  cases hreads with
  | done hp =>
    rw [hskip] at hp
    rw [hp] at hlayout
    cases hlayout
  | more _ hs hrest =>
    rw [hskip, hread] at hs
    cases hs
    exact ⟨_, rfl, hrest⟩

theorem depth (h : Complete line t u s) : u.depth = 0 :=
  ((Sound.start.run h.run).settle h.settle).depth.trans (h.whole.depth 0)

theorem inner (h : Complete line t u s) : t.phase.isOuter = false := by
  by_contra houter
  have houter : t.phase.isOuter = true := by simpa using houter
  have hfresh : t.Fresh := fresh_of_run h.run houter
  have hsettle := h.settle
  rw [settle_of_outer houter] at hsettle
  cases hsettle
  cases hlexemes : t.lexemes with
  | nil => exact h.whole.nonempty (by simp [hlexemes])
  | cons l ls =>
    have hl : l.token = .newline := hfresh l (by rw [hlexemes]; rfl)
    have hl' := h.whole.inline l (by simp [hlexemes])
    rw [hl] at hl'
    cases hl'

/-- The lines behind a complete line are the rest of the program. -/
theorem parse_behind (h : Complete line t u s) (hline : '\n' ∉ line)
    (hp : Program.parse (String.ofList (line ++ '\n' :: ds)) = .ok p) :
    (Dangling ds → Dangling (line ++ '\n' :: ds)) ∧
      ∃ p₁ p₂, p = s :: p₁ ∧ Program.parse (String.ofList ds) = .ok p₂ ∧
        SameBlock Pos.eraseLine p₁ p₂ := by
  obtain ⟨ls, hls, hreads⟩ := Program.parse_eq_ok_iff.1 hp
  obtain ⟨t', ht', hfinish⟩ := scan_ofList_eq_ok_iff.1 hls
  have hrun := run_line hline h.run h.unbroken h.inner h.settle h.indents h.depth ht'
  refine ⟨fun hds => hds.behind (by simp) ht' hrun, ?_⟩
  obtain ⟨t₀, ht₀, rfl⟩ := (lowers_run ds).ok hrun
  obtain ⟨ls₀, hfinish₀, rfl⟩ := finish_below (by simp) hfinish
  rw [List.reverse_cons, List.append_assoc, List.singleton_append] at hreads
  obtain ⟨p₁, rfl, hreads₁⟩ := h.reads_behind rfl hreads
  obtain ⟨p₂, hreads₂, hsame⟩ := hreads₁.same (sameText_below ls₀)
  exact ⟨p₁, p₂, rfl, Program.parse_eq_ok_iff.2
    ⟨ls₀, scan_ofList_eq_ok_iff.2 ⟨t₀, ht₀, hfinish₀⟩, hreads₂⟩, hsame⟩

end Complete

/-! ## Lines that say nothing -/

section Idle

variable {line ds : List Char} {p : Program}

theorem parse_behind_idle (hline : '\n' ∉ line)
    (hink : line.find? (fun c => !Text.isBlank c) = some '#')
    (hp : Program.parse (String.ofList (line ++ '\n' :: ds)) = .ok p) :
    (Dangling ds → Dangling (line ++ '\n' :: ds)) ∧
      ∃ p', Program.parse (String.ofList ds) = .ok p' ∧ SameBlock Pos.eraseLine p p' := by
  obtain ⟨ls, hls, hreads⟩ := Program.parse_eq_ok_iff.1 hp
  obtain ⟨t, ht, hfinish⟩ := scan_ofList_eq_ok_iff.1 hls
  have hrun := run_idle_line hline hink ht
  refine ⟨fun hds => hds.behind (by simp) ht hrun, ?_⟩
  obtain ⟨t₀, ht₀, rfl⟩ := (lowers_run ds).ok hrun
  obtain ⟨ls₀, hfinish₀, rfl⟩ := finish_below (by simp) hfinish
  obtain ⟨p', hreads', hsame⟩ := hreads.same (sameText_below ls₀)
  exact ⟨p', Program.parse_eq_ok_iff.2
    ⟨ls₀, scan_ofList_eq_ok_iff.2 ⟨t₀, ht₀, hfinish₀⟩, hreads'⟩, hsame⟩

theorem parse_idle (hline : '\n' ∉ line)
    (hink : line.find? (fun c => !Text.isBlank c) = some '#')
    (hp : Program.parse (String.ofList line) = .ok p) : p = [] := by
  obtain ⟨ls, hls, hreads⟩ := Program.parse_eq_ok_iff.1 hp
  obtain ⟨t, ht, hfinish⟩ := scan_ofList_eq_ok_iff.1 hls
  obtain rfl := run_idle hline hink ht
  cases hfinish
  cases hreads with
  | done _ => rfl
  | more hend _ _ => exact absurd rfl hend

end Idle

/-! ## Texts that are expressions -/

/-- Layout behind an expression makes a statement of it. -/
theorem eq_of_read_expr {rest' : List Lexeme} (he : Expr.read n ls = .ok (e, rest))
    (hrest : (peek rest).isLayout = true)
    (h : Stmt.read n inFunction ls = .ok (s, rest')) :
    s = .expr e (here ls) ∧ ∃ l, rest = l :: rest' ∧ l.token = .newline := by
  rw [read_of_plain (isPlain_of_opensExpr (Expr.opensExpr_of_read he))] at h
  obtain ⟨l, hs, hl⟩ := readLine_eq_ok_iff.1 h
  rw [readSimple_of_expr he hrest] at hs
  cases hs
  exact ⟨rfl, l, rfl, hl⟩

theorem skipNewlines_append (ls ms : List Lexeme) :
    skipNewlines (ls ++ ms) =
      if skipNewlines ls = [] then skipNewlines ms else skipNewlines ls ++ ms := by
  unfold skipNewlines
  rw [List.dropWhile_append]
  simp only [List.isEmpty_iff]

theorem skipNewlines_newlines {as ls : List Lexeme} (has : ∀ l ∈ as, l.token = .newline) :
    skipNewlines (as ++ ls) = skipNewlines ls :=
  List.dropWhile_append_of_pos (by simpa using has)

theorem exists_skipNewlines (ls : List Lexeme) :
    ∃ as, (∀ l ∈ as, l.token = .newline) ∧ ls = as ++ skipNewlines ls := by
  refine ⟨_, fun l hl => ?_, List.takeWhile_append_dropWhile.symm⟩
  simpa using List.all_eq_true.1 List.all_takeWhile l hl

theorem Reads.congr {ls' : List Lexeme} {p : Program} (h : Reads ls p)
    (hskip : skipNewlines ls = skipNewlines ls') : Reads ls' p := by
  cases h with
  | done hp => exact .done (hskip ▸ hp)
  | more hp hs hrest => exact .more (hskip ▸ hp) (hskip ▸ hs) hrest

theorem skipNewlines_cons {l : Lexeme} (hl : l.token = .newline) :
    skipNewlines (l :: ls) = skipNewlines ls := by
  rw [skipNewlines, List.dropWhile_cons_of_pos (by simpa using hl)]
  rfl

/-- What is left without line ends at the front is nothing, if the end of input comes next. -/
theorem skipNewlines_eq_nil {ms : List Lexeme} (hls : ∀ l ∈ ls, l.token ≠ .endOfInput)
    (hend : peek (skipNewlines (ls ++ ms)) = .endOfInput) : skipNewlines ls = [] := by
  by_contra hne
  rw [skipNewlines_append, if_neg hne] at hend
  have hmem : ∀ l ∈ skipNewlines ls, l ∈ ls := fun l hl => (List.dropWhile_suffix _).subset hl
  cases hskip : skipNewlines ls with
  | nil => exact hne hskip
  | cons l rest =>
    rw [hskip] at hend
    exact hls l (hmem l (by simp [hskip])) hend

/-- Where an expression and layout is all there is, and in a program an indented line comes between,
there is no program. What is written before the indentation, `us`, ends in a line end. -/
theorem not_reads_of_indent {us ms : List Lexeme} {l : Lexeme} {p : Program}
    (hl : l.token = .indent) (hus : ∀ u ∈ us, u.token ≠ .endOfInput)
    (hlast : ∀ u ∈ us.getLast?, u.token = .newline)
    (he : Expr.read maxNesting (skipNewlines (us ++ ms)) = .ok (e, rest))
    (hend : peek (skipNewlines rest) = .endOfInput) : ¬Reads (us ++ l :: ls) p := by
  intro hreads
  by_cases hskip : skipNewlines us = []
  · have hfirst : Reads (l :: ls) p := hreads.congr (by rw [skipNewlines_append, if_pos hskip])
    exact not_reads_indent hl hfirst
  · have hback : ∀ ms, skipNewlines (us ++ ms) = skipNewlines us ++ ms := by
      intro ms
      rw [skipNewlines_append, if_neg hskip]
    obtain ⟨vs, v, hv⟩ := (List.eq_nil_or_concat (skipNewlines us)).resolve_left hskip
    have hvl : v.token = .newline := by
      obtain ⟨xs, hxs⟩ := List.dropWhile_suffix (l := us) (fun l => decide (l.token = .newline))
      rw [show us.dropWhile _ = _ from hv] at hxs
      exact hlast v (by simp [← hxs])
    rw [hback] at he
    obtain ⟨ts, hts, hwhole, hagain⟩ := Expr.frames_read (π := id) maxNesting he
    have hvts : v ∉ ts := by
      intro hmem
      have hinline := hwhole.inline v hmem
      rw [hvl] at hinline
      cases hinline
    rcases List.append_eq_append_iff.1 hts with ⟨xs, rfl, -⟩ | ⟨ws, hws, rfl⟩
    · exact hvts (by simp [hv])
    · cases ws with
      | nil => exact hvts (by rw [List.append_nil] at hws; simp [← hws, hv])
      | cons w ws =>
        obtain ⟨e', he', -⟩ := hagain (.refl _) (show peek (w :: ws ++ l :: ls) = _ from rfl)
        rw [← List.append_assoc, ← hws] at he'
        cases hreads with
        | done hp =>
          have hlayout := peek_of_whole hwhole (w :: ws ++ l :: ls)
          rw [← List.append_assoc, ← hws, ← hback, hp] at hlayout
          cases hlayout
        | more _ hs hrest =>
          rw [hback] at hs
          have hlayout : (peek (w :: ws ++ ms)).isLayout = true := peek_of_skipNewlines hend
          obtain ⟨-, w', hw', hwl⟩ := eq_of_read_expr he' hlayout hs
          cases hw'
          have hmem : ∀ x ∈ ws, x.token ≠ .endOfInput := by
            intro x hx
            refine hus x ((List.dropWhile_suffix _).subset (show x ∈ skipNewlines us from ?_))
            rw [hws]
            simp [hx]
          rw [List.cons_append, skipNewlines_cons hwl] at hend
          refine not_reads_indent hl (hrest.congr (?_ : _ = skipNewlines (l :: ls)))
          rw [List.append_eq, skipNewlines_append, if_pos (skipNewlines_eq_nil hmem hend)]

/-- A text that is an expression, and a program, is the program of this one statement. -/
theorem parse_of_expr {text : String} {p : Program} (he : Expr.parse text = .ok e)
    (hp : Program.parse text = .ok p) : ∃ q, p = [.expr e q] := by
  obtain ⟨ls₁, rest, hls₁, hread, hend⟩ := Expr.parse_eq_ok_iff.1 he
  obtain ⟨ls, hls, hreads⟩ := Program.parse_eq_ok_iff.1 hp
  rw [← String.ofList_toList (s := text)] at hls hls₁
  obtain ⟨t₁, ht₁, hfinish₁⟩ := scan_ofList_eq_ok_iff.1 hls₁
  obtain ⟨t, ht, hfinish⟩ := scan_ofList_eq_ok_iff.1 hls
  have hfresh : start.phase.isOuter = true → start.Fresh := fun _ => by simp [Fresh, start]
  rcases run_program (s := start) rfl hfresh ht with
    ⟨hrun, -⟩ | ⟨cs₁, cs₂, u, q, hcs, hrun, hu, hsuffix⟩
  · rw [ht₁] at hrun
    cases hrun
    rw [hfinish₁] at hfinish
    cases hfinish
    cases hreads with
    | done hp' =>
      have hopens := Expr.opensExpr_of_read hread
      rw [hp'] at hopens
      cases hopens
    | more _ hs hrest =>
      obtain ⟨rfl, l, rfl, hl⟩ := eq_of_read_expr hread (peek_of_skipNewlines hend) hs
      rw [skipNewlines_cons hl] at hend
      cases hrest with
      | done _ => exact ⟨_, rfl⟩
      | more hne _ _ => exact absurd hend hne
  · rw [hcs] at ht₁
    obtain ⟨u', hu', ht₁⟩ := run_append_eq_ok_iff.1 ht₁
    rw [hrun] at hu'
    cases hu'
    obtain ⟨ms, rfl⟩ := finish_of_suffix hfinish₁ (run_grows ht₁)
    obtain ⟨ms', rfl⟩ := finish_of_suffix hfinish hsuffix
    rw [List.reverse_cons, List.append_assoc, List.singleton_append] at hreads
    have hinner := (Sound.start.run hrun).inner
    refine absurd hreads (not_reads_of_indent rfl (fun l hl => hinner l (List.mem_reverse.1 hl)) ?_
      hread hend)
    rw [List.getLast?_reverse]
    exact hu

/-- A line end behind the last line changes nothing, unless the text dangles. -/
theorem parse_lineEnd {cs ds : List Char} {p : Program} (hcs : '\n' ∉ cs)
    (hblank : cs.all Text.isBlank = false) (hdangling : ¬Dangling (ds ++ cs))
    (hp : Program.parse (String.ofList (ds ++ cs)) = .ok p) :
    ∃ p', Program.parse (String.ofList (ds ++ cs ++ ['\n'])) = .ok p' ∧
      SameBlock Pos.eraseLine p p' := by
  obtain ⟨ls, hls, hreads⟩ := Program.parse_eq_ok_iff.1 hp
  obtain ⟨ls', hls', hsame⟩ := scan_lineEnd hcs hblank hdangling hls
  obtain ⟨p', hreads', hblock⟩ := hreads.same hsame
  exact ⟨p', Program.parse_eq_ok_iff.2 ⟨ls', hls', hreads'⟩, hblock⟩

end ScriptShell
