import ScriptShell.Proofs.Expr.Alike
import ScriptShell.Proofs.Program.Layout

/-!
# ScriptShell.Proofs.Token.Brackets

The scanner writes brackets in pairs. An indent is closed by an outdent, at the latest where the
text ends, and layout is written only where no parenthesis is open.

* `Closes`: the rest of a list closes the blocks that are open.
* `Surfaced`: layout stands outside every parenthesis.
* `Scanner.Ordered`: what holds of the machine all along.
* `Scanner.Ordered.run`: a run keeps it.
* `closes_of_scan`: what is written closes every block.
* `depth_of_layout`: and its layout stands outside parentheses, the end of the list aside.
-/

namespace ScriptShell

/-- The rest of a list of lexemes, in which the blocks that are open, `k` of them, are closed, and
so is every block that is opened. -/
inductive Closes : Nat → List Lexeme → Prop
  | ended {l : Lexeme} : l.token = .endOfInput → Closes 0 [l]
  | indent {k : Nat} {l : Lexeme} {ls : List Lexeme} :
    l.token = .indent → Closes (k + 1) ls → Closes k (l :: ls)
  | outdent {k : Nat} {l : Lexeme} {ls : List Lexeme} :
    l.token = .outdent → Closes k ls → Closes (k + 1) (l :: ls)
  | other {k : Nat} {l : Lexeme} {ls : List Lexeme} :
    l.token.isBorder = false → Closes k ls → Closes k (l :: ls)

theorem ne_indent_of_isBorder {t : Token} (h : t.isBorder = false) : t ≠ .indent := by
  rintro rfl
  cases h

theorem ne_outdent_of_isBorder {t : Token} (h : t.isBorder = false) : t ≠ .outdent := by
  rintro rfl
  cases h

namespace Closes

variable {k : Nat} {l : Lexeme} {ls : List Lexeme}

theorem outdents (h : Closes k ls) (p : Pos) (n : Nat) :
    Closes (n + k) (List.replicate n ⟨.outdent, p⟩ ++ ls) := by
  induction n with
  | zero => simpa using h
  | succ n ih =>
    rw [List.replicate_succ, List.cons_append, Nat.add_right_comm]
    exact .outdent rfl ih

theorem of_other (h : Closes k (l :: ls)) (hl : l.token.isBorder = false) : Closes k ls := by
  cases h with
  | ended hend => simp [hend, Token.isBorder] at hl
  | indent hin _ => simp [hin, Token.isBorder] at hl
  | outdent hout _ => simp [hout, Token.isBorder] at hl
  | other _ h => exact h

theorem of_indent (h : Closes k (l :: ls)) (hl : l.token = .indent) : Closes (k + 1) ls := by
  cases h with
  | ended hend => simp [hl] at hend
  | indent _ h => exact h
  | outdent hout _ => simp [hl] at hout
  | other hother _ => simp [hl, Token.isBorder] at hother

theorem of_outdent (h : Closes (k + 1) (l :: ls)) (hl : l.token = .outdent) : Closes k ls := by
  cases h with
  | indent hin _ => simp [hl] at hin
  | outdent _ h => exact h
  | other hother _ => simp [hl, Token.isBorder] at hother

/-- The input does not end within a block. -/
theorem ne_endOfInput (h : Closes (k + 1) ls) : peek ls ≠ .endOfInput := by
  cases h with
  | indent hl _ => simp [peek, hl]
  | outdent hl _ => simp [peek, hl]
  | other hl _ =>
    intro hend
    simp only [peek] at hend
    rw [hend] at hl
    cases hl

/-- There are as many outdents as there are indents and open blocks. -/
theorem count_eq (h : Closes k ls) :
    (tokens ls).count .outdent = (tokens ls).count .indent + k := by
  induction h with
  | ended hl => simp [hl]
  | indent hl _ ih => simp [hl, ih]; omega
  | outdent hl _ ih => simp [hl, ih]; omega
  | other hl _ ih => simp [ih, ne_indent_of_isBorder hl, ne_outdent_of_isBorder hl]

/-- No outdent closes a block that is not open. -/
theorem count_le (h : Closes k ls) {us vs : List Token} (hls : tokens ls = us ++ vs) :
    us.count .outdent ≤ us.count .indent + k := by
  induction us generalizing k ls with
  | nil => exact Nat.zero_le _
  | cons t us ih =>
    cases h with
    | ended hl =>
      obtain ⟨rfl, hus⟩ := List.cons.inj hls
      simp [hl, (List.append_eq_nil_iff.1 hus.symm).1]
    | indent hl h =>
      obtain ⟨rfl, hus⟩ := List.cons.inj hls
      have := ih h hus
      simp only [hl, List.count_cons_self, List.count_cons_of_ne, ne_eq, reduceCtorEq,
        not_false_eq_true]
      omega
    | outdent hl h =>
      obtain ⟨rfl, hus⟩ := List.cons.inj hls
      have := ih h hus
      simp only [hl, List.count_cons_self, List.count_cons_of_ne, ne_eq, reduceCtorEq,
        not_false_eq_true]
      omega
    | other hl h =>
      obtain ⟨rfl, hus⟩ := List.cons.inj hls
      simpa [ne_indent_of_isBorder hl, ne_outdent_of_isBorder hl] using ih h hus

end Closes

/-- Layout stands outside every parenthesis. The lexemes are given newest first. -/
def Surfaced (ls : List Lexeme) : Prop :=
  ∀ ⦃l us⦄, l :: us <:+ ls → l.token.isLayout = true → us.reverse.foldl Lexeme.depthAfter 0 = 0

namespace Surfaced

variable {l : Lexeme} {ls : List Lexeme}

theorem nil : Surfaced [] := by
  intro l us h
  simp at h

theorem push (h : Surfaced ls)
    (hl : l.token.isLayout = true → ls.reverse.foldl Lexeme.depthAfter 0 = 0) :
    Surfaced (l :: ls) := by
  intro m us hsuffix hm
  rcases List.suffix_cons_iff.1 hsuffix with heq | hsuffix
  · cases heq
    exact hl hm
  · exact h hsuffix hm

theorem outdents (h : Surfaced ls) (hls : ls.reverse.foldl Lexeme.depthAfter 0 = 0) (p : Pos)
    (n : Nat) : Surfaced (List.replicate n ⟨.outdent, p⟩ ++ ls) := by
  have hdepth : ∀ n, (List.replicate n (⟨.outdent, p⟩ : Lexeme) ++ ls).reverse.foldl
      Lexeme.depthAfter 0 = 0 := by
    intro n
    induction n with
    | zero => exact hls
    | succ n ih =>
      rw [List.replicate_succ, List.cons_append, List.reverse_cons, List.foldl_append, ih]
      rfl
  induction n with
  | zero => exact h
  | succ n ih => exact ih.push fun _ => hdepth n

end Surfaced

/-! ## What the machine keeps -/

namespace Scanner

variable {mode : ScanMode} {s t : Scanner} {c : Char} {cs : List Char}

/-- What holds of the machine all along. Lines begin outside every parenthesis; blocks are nested,
and what closes them closes what was written; layout stands outside every parenthesis; and there is
no block in an expression. -/
structure Ordered (mode : ScanMode) (s : Scanner) : Prop extends Sound s where
  outer : s.phase.isOuter = true → s.depth = 0
  nested : Nested s.indents
  closes : ∀ ls, Closes s.indents.length ls → Closes 0 (s.lexemes.reverse ++ ls)
  surfaced : Surfaced s.lexemes
  flat : mode = .expression → ∀ l ∈ s.lexemes, l.token ≠ .indent

namespace Ordered

variable {phase : Phase} {p q : Pos} {tok : Token} {depth : Nat}

theorem start : Ordered mode start where
  toSound := .start
  outer _ := rfl
  nested := .nil
  closes _ h := h
  surfaced := .nil
  flat _ := by simp [Scanner.start]

theorem quiet (h : Ordered mode s) (hphase : phase.isOuter = true → s.depth = 0) :
    Ordered mode ⟨phase, q, s.depth, s.indents, s.lexemes⟩ :=
  ⟨h.toSound.quiet, hphase, h.nested, h.closes, h.surfaced, h.flat⟩

/-- A token is written that does not change the blocks. -/
theorem write (h : Ordered mode s) (ht : Sound ⟨phase, q, depth, s.indents, ⟨tok, p⟩ :: s.lexemes⟩)
    (htok : tok.isBorder = false) (hlayout : tok.isLayout = true → s.depth = 0)
    (hphase : phase.isOuter = true → depth = 0) :
    Ordered mode ⟨phase, q, depth, s.indents, ⟨tok, p⟩ :: s.lexemes⟩ where
  toSound := ht
  outer := hphase
  nested := h.nested
  closes ls hls := by
    rw [List.reverse_cons, List.append_assoc]
    exact h.closes _ (.other htok hls)
  surfaced := h.surfaced.push fun hl => h.depth ▸ hlayout hl
  flat hmode := List.forall_mem_cons.2 ⟨ne_indent_of_isBorder htok, h.flat hmode⟩

theorem closed (h : Ordered mode s) (hclosed : Closed [⟨tok, p⟩])
    (hphase : phase.isOuter = false) :
    Ordered mode ⟨phase, q, s.depth, s.indents, ⟨tok, p⟩ :: s.lexemes⟩ := by
  have hinline : tok.isLayout = false := hclosed.inline ⟨tok, p⟩ (by simp)
  refine h.write (h.toSound.closed hclosed) ?_ (by simp [hinline]) (by simp [hphase])
  cases tok <;> first | rfl | cases hinline

theorem readInLine (h : Ordered mode s) (hread : s.readInLine c = .ok t) : Ordered mode t := by
  have hsound := h.toSound.readInLine hread
  rcases readInLine_cases hread with ⟨-, hdepth, rfl⟩ | ⟨_, hphase, rfl⟩ | ⟨m, rfl⟩
  · exact h.write hsound rfl (fun _ => hdepth) (fun _ => hdepth)
  · exact h.quiet (by simp [hphase])
  · exact h.write hsound rfl (fun hm => nomatch hm) (fun hm => nomatch hm)

theorem settle (h : Ordered mode s) (hs : s.settle = .ok t) : Ordered mode t := by
  rcases settle_cases hs with ⟨-, rfl⟩ | ⟨_, _, hclosed, rfl⟩
  · exact h
  · exact h.closed hclosed rfl

/-- At the beginning of a line of a program, blocks are opened or closed. -/
theorem layout {width : Nat} (h : Ordered .program s) (hphase : s.phase = .lineStart width)
    (hs : s.layout width = .ok t) : Ordered .program t := by
  have hsound := h.toSound.layout hs
  have hdepth : s.depth = 0 := h.outer (by rw [hphase]; rfl)
  have hsurface : s.lexemes.reverse.foldl Lexeme.depthAfter 0 = 0 := h.depth.symm.trans hdepth
  rcases layout_cases hs with ⟨hlt, rfl⟩ | ⟨-, kept, n, hkept, hlength, rfl⟩
  · exact {
      toSound := hsound
      outer := h.outer
      nested := h.nested.cons hlt
      closes := by
        intro ls hls
        show Closes 0 ((_ :: s.lexemes).reverse ++ ls)
        rw [List.reverse_cons, List.append_assoc]
        exact h.closes _ (.indent rfl hls)
      surfaced := h.surfaced.push fun _ => hsurface
      flat := nofun }
  · exact {
      toSound := hsound
      outer := h.outer
      nested := h.nested.of_mayFollow (.inr hkept)
      closes := by
        intro ls hls
        show Closes 0 ((List.replicate n _ ++ s.lexemes).reverse ++ ls)
        rw [List.reverse_append, List.reverse_replicate, List.append_assoc]
        exact h.closes _ (hlength ▸ hls.outdents s.pos n)
      surfaced := h.surfaced.outdents hsurface s.pos n
      flat := nofun }

theorem step (h : Ordered mode s) (hs : s.step mode c = .ok t) : Ordered mode t := by
  rcases step_cases hs with
    ⟨_, hphase, rfl⟩ | ⟨_, _, hclosed, rfl⟩ | ⟨s', hs, hread⟩ | ⟨rfl, width, s', hphase, hs, hread⟩
  · exact h.quiet fun hp => h.outer (hphase hp)
  · exact h.closed hclosed rfl
  · exact (h.settle hs).readInLine hread
  · exact (h.layout hphase hs).readInLine hread

theorem run (h : Ordered mode s) (hs : s.run mode cs = .ok t) : Ordered mode t :=
  run_induction (fun h _ hs => h.step hs) h hs

/-- The lexemes that close a text close its blocks. -/
theorem closing (h : Ordered mode s) : Closes 0 (s.lexemes.reverse ++ s.closing) := by
  have hending : Closes s.indents.length s.ending :=
    (Closes.ended (l := ⟨.endOfInput, s.pos⟩) rfl).outdents s.pos s.indents.length
  refine h.closes _ ?_
  by_cases hfresh : s.Fresh
  · rw [closing_of_fresh hfresh]
    exact hending
  · rw [closing_of_not_fresh hfresh]
    exact .other rfl hending

end Ordered

/-- What a text that is scanned makes of the machine. -/
theorem ordered_of_scan {text : String} {ls : List Lexeme} (h : scan mode text = .ok ls) :
    ∃ s, Ordered mode s ∧ ls = s.lexemes.reverse ++ s.closing := by
  rw [← String.ofList_toList (s := text)] at h
  obtain ⟨s, hs, hls⟩ := scan_ofList_eq_ok_iff.1 h
  obtain ⟨-, t, ht, rfl⟩ := finish_eq_ok_iff.1 hls
  exact ⟨t, (Ordered.start.run hs).settle ht, rfl⟩

end Scanner

theorem Scanner.token_of_mem_closing {s : Scanner} {l : Lexeme} (h : l ∈ s.closing) :
    l.token = .newline ∨ l.token = .outdent ∨ l.token = .endOfInput := by
  have hending : l ∈ s.ending → l.token = .outdent ∨ l.token = .endOfInput := by
    rw [ending, List.mem_append, List.mem_replicate, List.mem_singleton]
    rintro (⟨-, rfl⟩ | rfl)
    · exact .inl rfl
    · exact .inr rfl
  by_cases hfresh : s.Fresh
  · rw [closing_of_fresh hfresh] at h
    exact .inr (hending h)
  · rw [closing_of_not_fresh hfresh] at h
    rcases List.mem_cons.1 h with rfl | h
    · exact .inl rfl
    · exact .inr (hending h)

/-- Layout that is not at the end of the list stands outside every parenthesis. -/
theorem depth_of_layout {mode : ScanMode} {text : String} {us vs : List Lexeme} {l m : Lexeme}
    (h : scan mode text = .ok (us ++ l :: vs)) (hl : l.token.isLayout = true) (hm : m ∈ vs)
    (hinline : m.token.isLayout = false) : us.foldl Lexeme.depthAfter 0 = 0 := by
  obtain ⟨s, hs, hls⟩ := Scanner.ordered_of_scan h
  have hclosing : m ∉ s.closing := by
    intro hm
    rcases Scanner.token_of_mem_closing hm with heq | heq | heq
    all_goals
      rw [heq] at hinline
      cases hinline
  rcases List.append_eq_append_iff.1 hls with ⟨ws, hws, hvs⟩ | ⟨ws, -, hvs⟩
  · cases ws with
    | nil =>
      rw [List.nil_append] at hvs
      exact absurd (hvs ▸ List.mem_cons_of_mem l hm) hclosing
    | cons w ws =>
      obtain ⟨rfl, -⟩ := List.cons.inj hvs
      have hsuffix : l :: us.reverse <:+ s.lexemes := by
        rw [← List.reverse_reverse s.lexemes, hws, List.reverse_append, List.reverse_cons,
          List.append_assoc]
        exact List.suffix_append _ _
      simpa using hs.surfaced hsuffix hl
  · refine absurd ?_ hclosing
    rw [hvs]
    exact List.mem_append_right _ (List.mem_cons_of_mem l hm)

theorem closes_of_scan {mode : ScanMode} {text : String} {ls : List Lexeme}
    (h : scan mode text = .ok ls) : Closes 0 ls := by
  obtain ⟨s, hs, rfl⟩ := Scanner.ordered_of_scan h
  exact hs.closing

end ScriptShell
