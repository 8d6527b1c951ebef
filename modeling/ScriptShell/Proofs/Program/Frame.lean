import ScriptShell.Proofs.Expr.Frame
import ScriptShell.Proofs.Program.Success

/-!
# ScriptShell.Proofs.Program.Frame

Readers of statements do not look at the places of lexemes: lists that differ in places alone are
read alike. A statement that holds no other is read whatever comes behind its line, and any
statement is read whatever comes behind it that does not go on with it, if its blocks are closed.

* `Stmt.Same`: statements that differ in places alone.
* `FramesImports`: the names of a load statement are read whatever comes behind.
* `frames_readSimple`: so are the statements that hold no other.
* `Segment`: what a statement takes.
* `Taken`, `Spans`: a reader takes a segment and reads it whatever fits behind.
* `spans_else`, `spans_readIndented`: what stands behind an arm, and what stands in a block.
* `spans_read`, `carries_read`: the reader of statements does.
* `Reads`: the statements that a list of lexemes is.
-/

namespace ScriptShell

variable {π : Pos → Pos} {n : Nat} {inFunction : Bool}

/-- Statements that differ in places alone. -/
def Stmt.Same (π : Pos → Pos) (s s' : Stmt) : Prop :=
  s.mapPos π = s'.mapPos π

theorem Stmt.Same.refl (s : Stmt) : Stmt.Same π s s := rfl

/-! ## Statements that hold no other -/

theorem frames_readName : Frames π Whole readName readName Eq := by
  intro ls id rest h
  obtain ⟨l, rfl, hl⟩ := readName_eq_ok_iff.1 h
  have hclosed : Closed [l] := by
    refine .single ?_ ?_ ?_ <;> simp [hl, Token.isLayout]
  refine ⟨[l], rfl, ⟨hclosed, by simp⟩, ?_⟩
  intro ts' rest' hts _
  cases hts with
  | @cons _ l' _ _ hll hts =>
    cases hts
    exact ⟨id, readName_eq_ok_iff.2 ⟨l', rfl, hll.token ▸ hl⟩, rfl⟩

/-- Off `ls`, the names behind the module of a load statement are read up to the closing
parenthesis, whatever comes behind it. The bound need not be the same, as long as it is great
enough. -/
def FramesImports (π : Pos → Pos) (ls : List Lexeme) (is : List Import) (rest : List Lexeme) :
    Prop :=
  ∃ ts, ls = ts ++ rest ∧ Closed ts ∧
    ∀ {p : Pos} {ts' rest' bound' : List Lexeme}, SameText π ts ts' → peek rest' = peek rest →
      ts.length < bound'.length → readImports p bound' (ts' ++ rest') = .ok (is, rest')

namespace FramesImports

variable {is : List Import} {ls rest : List Lexeme} {c l a r : Lexeme} {t id : String}

theorem none (hrest : peek rest = .mark .parenRight) : FramesImports π rest [] rest := by
  refine ⟨[], rfl, .nil, ?_⟩
  intro p ts' rest' bound' hts hpeek hbound
  cases hts
  obtain ⟨b, bound', rfl⟩ := List.exists_cons_of_length_pos (Nat.zero_lt_of_lt hbound)
  refine readImports_cons_eq_ok_iff.2 (.inl ⟨?_, rfl, rfl⟩)
  rw [List.nil_append, hpeek, hrest]
  simp

/-- A comma may stand in front of the parenthesis. -/
theorem comma (hc : c.token = .mark .comma) (hrest : peek rest = .mark .parenRight) :
    FramesImports π (c :: rest) [] rest := by
  refine ⟨[c], rfl, by refine .single ?_ ?_ ?_ <;> simp [hc, Token.isLayout], ?_⟩
  intro p ts' rest' bound' hts hpeek hbound
  obtain ⟨b, bound', rfl⟩ := List.exists_cons_of_length_pos (Nat.zero_lt_of_lt hbound)
  cases hts with
  | @cons _ c' _ _ hcc hts =>
    cases hts
    exact readImports_cons_eq_ok_iff.2
      (.inr (.inl ⟨c', rfl, hcc.token ▸ hc, hpeek.trans hrest, rfl⟩))

/-- A name that keeps itself. -/
theorem name (hc : c.token = .mark .comma) (hl : l.token = .str t)
    (h : FramesImports π ls is rest) :
    FramesImports π (c :: l :: ls) (⟨t, t⟩ :: is) rest := by
  obtain ⟨us, rfl, hus, hagain⟩ := h
  have hclosed : Closed [c, l] := by
    refine .cons ?_ ?_ ?_ (.single ?_ ?_ ?_) <;> simp [hc, hl, Token.isLayout]
  refine ⟨[c, l] ++ us, rfl, hclosed.append hus, ?_⟩
  intro p ts' rest' bound' hts hpeek hbound
  obtain ⟨b, bound', rfl⟩ := List.exists_cons_of_length_pos (Nat.zero_lt_of_lt hbound)
  have hlt : us.length < bound'.length := by
    simp only [List.length_append, List.length_cons, List.length_nil] at hbound
    omega
  obtain ⟨xs, us', rfl, hxs, hus'⟩ := hts.of_append
  cases hxs with
  | @cons _ c' _ _ hcc hxs =>
    cases hxs with
    | @cons _ l' _ _ hll hxs =>
      cases hxs
      exact readImports_cons_eq_ok_iff.2 (.inr (.inr (.inl ⟨c', l', _, t, is, rfl,
        hcc.token ▸ hc, hll.token ▸ hl, hagain hus' hpeek hlt, rfl⟩)))

/-- A name that gets another one. -/
theorem renamed (hc : c.token = .mark .comma) (hl : l.token = .name id)
    (ha : a.token = .mark .assign) (hr : r.token = .str t) (h : FramesImports π ls is rest) :
    FramesImports π (c :: l :: a :: r :: ls) (⟨id, t⟩ :: is) rest := by
  obtain ⟨us, rfl, hus, hagain⟩ := h
  have hclosed : Closed [c, l, a, r] := by
    refine .cons ?_ ?_ ?_ (.cons ?_ ?_ ?_ (.cons ?_ ?_ ?_ (.single ?_ ?_ ?_))) <;>
      simp [hc, hl, ha, hr, Token.isLayout]
  refine ⟨[c, l, a, r] ++ us, rfl, hclosed.append hus, ?_⟩
  intro p ts' rest' bound' hts hpeek hbound
  obtain ⟨b, bound', rfl⟩ := List.exists_cons_of_length_pos (Nat.zero_lt_of_lt hbound)
  have hlt : us.length < bound'.length := by
    simp only [List.length_append, List.length_cons, List.length_nil] at hbound
    omega
  obtain ⟨xs, us', rfl, hxs, hus'⟩ := hts.of_append
  cases hxs with
  | @cons _ c' _ _ hcc hxs =>
    cases hxs with
    | @cons _ l' _ _ hll hxs =>
      cases hxs with
      | @cons _ a' _ _ haa hxs =>
        cases hxs with
        | @cons _ r' _ _ hrr hxs =>
          cases hxs
          exact readImports_cons_eq_ok_iff.2 (.inr (.inr (.inr ⟨c', l', a', r', _, id, t, is, rfl,
            hcc.token ▸ hc, hll.token ▸ hl, haa.token ▸ ha, hrr.token ▸ hr,
            hagain hus' hpeek hlt, rfl⟩)))

end FramesImports

theorem frames_readImports {p : Pos} {bound ls rest : List Lexeme} {is : List Import}
    (h : readImports p bound ls = .ok (is, rest)) (hrest : peek rest = .mark .parenRight) :
    FramesImports π ls is rest := by
  induction bound generalizing ls is with
  | nil =>
    rw [readImports] at h
    cases h
    exact .none hrest
  | cons b bound ih =>
    rcases readImports_cons_eq_ok_iff.1 h with
      ⟨-, rfl, rfl⟩ | ⟨c, rfl, hc, -, rfl⟩ | ⟨c, l, ls', t, is', rfl, hc, hl, his, rfl⟩ |
        ⟨c, l, a, r, ls', id, t, is', rfl, hc, hl, ha, hr, his, rfl⟩
    · exact .none hrest
    · exact .comma hc hrest
    · exact .name hc hl (ih his)
    · exact .renamed hc hl ha hr (ih his)

section Simple

variable {ls rest : List Lexeme} {s : Stmt}

theorem frames_readLoad (hp : peek ls = .keyword .load)
    (h : readLoad inFunction ls = .ok (s, rest)) :
    FramesAt π Whole (readLoad inFunction) (Stmt.Same π) ls s rest := by
  obtain ⟨hf, o, l, m, r, ls', module, is, rfl, hl, hm, hi, hr, hne, rfl⟩ :=
    readLoad_eq_ok_iff.1 h
  have ho : o.token = .keyword .load := hp
  obtain ⟨us, rfl, hus, hagain⟩ := frames_readImports (π := π) hi hr
  have hclosed : Closed ([o] ++ (l :: ([m] ++ us) ++ [r])) := by
    refine .append (.single ?_ ?_ ?_) (.parens hl (.append (.single ?_ ?_ ?_) hus) hr) <;>
      simp [ho, hm, Token.isLayout]
  refine ⟨[o] ++ (l :: ([m] ++ us) ++ [r]), by simp, ⟨hclosed, by simp⟩, ?_⟩
  intro ts' rest' hts _
  obtain ⟨xs, ys, rfl, hxs, hys⟩ := hts.of_append
  obtain ⟨zs, rs, rfl, hzs, hrs⟩ := hys.of_append
  cases hxs with
  | @cons _ o' _ _ hoo hxs =>
    cases hxs
    cases hrs with
    | @cons _ r' _ _ hrr hrs =>
      cases hrs
      cases hzs with
      | @cons _ l' _ _ hll hzs =>
        cases hzs with
        | @cons _ m' _ us' hmm hus' =>
          have hlength : us.length = us'.length := hus'.length_eq
          have hnext : peek (r' :: rest') = peek (r :: rest) := hrr.token.symm
          have hpos : π o.pos = π o'.pos := hoo.pos (by rw [ho]; rfl)
          refine ⟨.load module is o'.pos, readLoad_eq_ok_iff.2 ⟨hf, o', l', m', r',
            us' ++ r' :: rest', module, is, by simp, hll.token ▸ hl, hmm.token ▸ hm, ?_,
            hrr.token ▸ hr, hne, rfl⟩, ?_⟩
          · refine hagain hus' hnext ?_
            simp only [List.length_cons, List.length_append]
            omega
          · simp only [Stmt.Same, Stmt.mapPos, hpos]

theorem frames_readReturn (hp : peek ls = .keyword .return_)
    (h : readReturn n inFunction ls = .ok (s, rest)) :
    FramesAt π Whole (readReturn n inFunction) (Stmt.Same π) ls s rest := by
  obtain ⟨hf, o, ls', rfl, hs⟩ := readReturn_eq_ok_iff.1 h
  have ho : o.token = .keyword .return_ := hp
  have hclosed : Closed [o] := by
    refine .single ?_ ?_ ?_ <;> simp [ho, Token.isLayout]
  rcases hs with ⟨hn, rfl, rfl⟩ | ⟨hn, e, he, rfl⟩
  · refine ⟨[o], rfl, ⟨hclosed, by simp⟩, ?_⟩
    intro ts' rest' hts hpeek
    cases hts with
    | @cons _ o' _ _ hoo hts =>
      cases hts
      have hpos : π o.pos = π o'.pos := hoo.pos (by rw [ho]; rfl)
      refine ⟨_, readReturn_eq_ok_iff.2 ⟨hf, o', rest', rfl, .inl ⟨hpeek ▸ hn, rfl, rfl⟩⟩, ?_⟩
      simp only [Stmt.Same, Stmt.mapPos, hpos]
  · obtain ⟨us, rfl, hus, hagain⟩ := Expr.frames_read (π := π) n he
    refine ⟨[o] ++ us, rfl, ⟨hclosed.append hus.toClosed, by simp⟩, ?_⟩
    intro ts' rest' hts hpeek
    cases hts with
    | @cons _ o' _ us' hoo hus' =>
      have hus' : SameText π us us' := hus'
      have hpos : π o.pos = π o'.pos := hoo.pos (by rw [ho]; rfl)
      obtain ⟨e', he', hsame⟩ := hagain hus' hpeek
      have hn' : peek (us' ++ rest') ≠ .newline := by
        rw [hus'.peek_append hpeek]
        exact hn
      refine ⟨_, readReturn_eq_ok_iff.2 ⟨hf, o', us' ++ rest', rfl, .inr ⟨hn', e', he', rfl⟩⟩, ?_⟩
      simp only [Stmt.Same, Stmt.mapPos, hpos, Option.map_some]
      rw [hsame]

/-- The place of a statement is that of its first token, which is no layout. -/
theorem Whole.here_eq {ts ts' : List Lexeme} (h : Whole ts) (hts : SameText π ts ts')
    (rest rest' : List Lexeme) :
    π (here (ts ++ rest)) = π (here (ts' ++ rest')) := by
  cases hts with
  | nil => exact absurd rfl h.nonempty
  | cons hl _ => exact hl.pos (h.inline _ (by simp))

theorem frames_readAssignment :
    Frames π Whole (readAssignment n) (readAssignment n) (Stmt.Same π) := by
  intro ls s rest h
  rcases readAssignment_eq_ok_iff.1 h with
    ⟨e, he, hne, rfl⟩ | ⟨id, p, a, ls', e, hn, ha, he, rfl⟩
  · obtain ⟨ts, rfl, hts, hagain⟩ := Expr.frames_read (π := π) n he
    refine ⟨ts, rfl, hts, ?_⟩
    intro ts' rest' hts' hpeek
    obtain ⟨e', he', hsame⟩ := hagain hts' hpeek
    refine ⟨_, readAssignment_eq_ok_iff.2 (.inl ⟨e', he', hpeek ▸ hne, rfl⟩), ?_⟩
    simp only [Stmt.Same, Stmt.mapPos, hts.here_eq hts' rest rest']
    rw [hsame]
  · obtain ⟨ts, rfl, hts, hagain⟩ := Expr.frames_read (π := π) n hn
    obtain ⟨us, rfl, hus, hagain'⟩ := Expr.frames_read (π := π) n he
    have hclosed : Closed [a] := by
      refine .single ?_ ?_ ?_ <;> simp [ha, Token.isLayout]
    refine ⟨ts ++ ([a] ++ us), by simp, hts.append (hclosed.append hus.toClosed), ?_⟩
    intro vs rest' hvs hpeek
    obtain ⟨ts', xs, rfl, hts', hxs⟩ := hvs.of_append
    cases hxs with
    | @cons _ a' _ us' haa hus' =>
      have hnext : peek (a' :: (us' ++ rest')) = peek (a :: (us ++ rest)) := haa.token.symm
      obtain ⟨e₁, he₁, hsame₁⟩ := hagain hts' hnext
      obtain ⟨e₂, he₂, hsame₂⟩ := hagain' hus' hpeek
      have hpos := hts.here_eq hts' (a :: (us ++ rest)) (a' :: (us' ++ rest'))
      cases e₁ <;> simp only [Expr.Same, Expr.mapPos, reduceCtorEq, Expr.name.injEq] at hsame₁
      obtain ⟨rfl, -⟩ := hsame₁
      rw [List.append_assoc, List.cons_append]
      refine ⟨_, readAssignment_eq_ok_iff.2
        (.inr ⟨id, _, a', us' ++ rest', e₂, he₁, haa.token ▸ ha, he₂, rfl⟩), ?_⟩
      simp only [Stmt.Same, Stmt.mapPos, hpos]
      rw [hsame₂]

end Simple

/-- A statement that holds no other is read whatever comes behind. -/
theorem frames_readSimple :
    Frames π Whole (readSimple n inFunction) (readSimple n inFunction) (Stmt.Same π) := by
  intro ls s rest h
  rcases readSimple_eq_ok_iff.1 h with
    ⟨o, rfl, ho, rfl⟩ | ⟨hp, h⟩ | ⟨hp, h⟩ | ⟨h₁, h₂, h₃, h⟩
  · have hclosed : Closed [o] := by
      refine .single ?_ ?_ ?_ <;> simp [ho, Token.isLayout]
    refine ⟨[o], rfl, ⟨hclosed, by simp⟩, ?_⟩
    intro ts' rest' hts _
    cases hts with
    | @cons _ o' _ _ hoo hts =>
      cases hts
      exact ⟨.pass, readSimple_eq_ok_iff.2 (.inl ⟨o', rfl, hoo.token ▸ ho, rfl⟩), rfl⟩
  · exact (frames_readReturn hp h).handOver fun hls _ hs' =>
      readSimple_eq_ok_iff.2 (.inr (.inl ⟨hls.trans hp, hs'⟩))
  · exact (frames_readLoad hp h).handOver fun hls _ hs' =>
      readSimple_eq_ok_iff.2 (.inr (.inr (.inl ⟨hls.trans hp, hs'⟩)))
  · exact (frames_readAssignment.framesAt h).handOver fun hls _ hs' =>
      readSimple_eq_ok_iff.2 (.inr (.inr (.inr
        ⟨hls.trans_ne h₁, hls.trans_ne h₂, hls.trans_ne h₃, hs'⟩)))

/-! ## Segments -/

/-- The number of blocks that some lexemes open, less those they close. -/
def level : List Lexeme → Int
  | [] => 0
  | l :: ls =>
    match l.token with
    | .indent => 1 + level ls
    | .outdent => -1 + level ls
    | _ => level ls

theorem level_append (ts us : List Lexeme) : level (ts ++ us) = level ts + level us := by
  induction ts with
  | nil => exact (Int.zero_add _).symm
  | cons t ts ih =>
    rw [List.cons_append, level, level, ih]
    split
    · exact (Int.add_assoc _ _ _).symm
    · exact (Int.add_assoc _ _ _).symm
    · rfl

theorem level_indent {l : Lexeme} (hl : l.token = .indent) (ls : List Lexeme) :
    level (l :: ls) = 1 + level ls := by
  rw [level, hl]

theorem level_outdent {l : Lexeme} (hl : l.token = .outdent) (ls : List Lexeme) :
    level (l :: ls) = -1 + level ls := by
  rw [level, hl]

theorem level_other {l : Lexeme} (hin : l.token ≠ .indent) (hout : l.token ≠ .outdent)
    (ls : List Lexeme) : level (l :: ls) = level ls := by
  rw [level]
  split
  · exact absurd ‹_› hin
  · exact absurd ‹_› hout
  · rfl

theorem Closed.level_eq {ts : List Lexeme} (h : Closed ts) : level ts = 0 := by
  have hinline := h.inline
  clear h
  induction ts with
  | nil => rfl
  | cons t ts ih =>
    have ht := hinline t List.mem_cons_self
    rw [level_other (fun h => by rw [h] at ht; cases ht) (fun h => by rw [h] at ht; cases ht)]
    exact ih fun t ht => hinline t (List.mem_cons_of_mem _ ht)

/-- Every parenthesis is closed in `ts`, and so is every block, unless by the end of the input
behind it. -/
structure Segment (ts rest : List Lexeme) : Prop where
  nonempty : ts ≠ []
  depth : ∀ d, ts.foldl Lexeme.depthAfter d = d
  blocks : level ts = 0 ∨ (0 < level ts ∧ peek rest = .endOfInput)

/-- Does the token go on with an `if`? -/
def Token.continuesIf : Token → Bool
  | .keyword .elif | .keyword .else_ => true
  | _ => false

/-- What may come behind a segment in place of what does: if no block is open, anything that does
not go on with an `if` statement. -/
def Fits (ts rest rest' : List Lexeme) : Prop :=
  peek rest' = peek rest ∨ (level ts = 0 ∧ (peek rest').continuesIf = false)

namespace Segment

variable {ts us rest rest' : List Lexeme}

/-- Behind a list without layout. -/
theorem behind (h : Segment ts rest) (hus : Closed us) : Segment (us ++ ts) rest where
  nonempty := by simp [h.nonempty]
  depth d := by rw [List.foldl_append, hus.depth, h.depth]
  blocks := by
    rw [level_append, hus.level_eq, Int.zero_add]
    exact h.blocks

theorem fits_behind (hus : Closed us) (h : Fits (us ++ ts) rest rest') : Fits ts rest rest' := by
  rw [Fits, level_append, hus.level_eq, Int.zero_add] at h
  exact h

end Segment

/-- A list that is not empty decides what is first. -/
theorem SameText.peek_append_of_ne {ts ts' : List Lexeme} (h : SameText π ts ts') (hne : ts ≠ [])
    (rest rest' : List Lexeme) : peek (ts' ++ rest') = peek (ts ++ rest) := by
  cases h with
  | nil => exact absurd rfl hne
  | cons hl _ => exact hl.token.symm

/-- Nothing, or a segment that is not the end of the input. -/
def Tail (ts rest : List Lexeme) : Prop :=
  ts = [] ∨ (Segment ts rest ∧ peek (ts ++ rest) ≠ .endOfInput)

section Tails

variable {us ts rest : List Lexeme}

/-- A segment, and what stands behind it. -/
theorem Segment.append (h : Segment us (ts ++ rest)) (h' : Tail ts rest) :
    Segment (us ++ ts) rest := by
  rcases h' with rfl | ⟨h', hp⟩
  · rw [List.append_nil]
    exact h
  · refine ⟨by simp [h.nonempty], fun d => by rw [List.foldl_append, h.depth, h'.depth], ?_⟩
    rw [level_append, h.blocks.resolve_right fun hend => hp hend.2, Int.zero_add]
    exact h'.blocks

/-- What fits behind both fits behind each. -/
theorem Segment.fits_append {ts' rest' : List Lexeme} (h : Segment us (ts ++ rest))
    (h' : Tail ts rest) (hts : SameText π ts ts') (hfits : Fits (us ++ ts) rest rest') :
    Fits us (ts ++ rest) (ts' ++ rest') ∧ Fits ts rest rest' := by
  rcases h' with rfl | ⟨h', hp⟩
  · cases hts
    rw [List.append_nil] at hfits
    exact ⟨hfits, hfits.imp_right fun hend => ⟨rfl, hend.2⟩⟩
  · rw [Fits, level_append, h.blocks.resolve_right fun hend => hp hend.2, Int.zero_add] at hfits
    exact ⟨.inl (hts.peek_append_of_ne h'.nonempty rest rest'), hfits⟩

end Tails

/-! ## Statements that hold others -/

/-- What is read takes a segment of the list, and `r'` reads it in an alike way off an alike
segment, whatever fits behind. -/
def Taken {α : Type} (π : Pos → Pos) (r' : Reader α) (A : α → α → Prop) (ls : List Lexeme) (a : α)
    (rest : List Lexeme) : Prop :=
  ∃ ts, ls = ts ++ rest ∧ Segment ts rest ∧ ∀ ⦃ts' rest'⦄, SameText π ts ts' → Fits ts rest rest' →
    ∃ a', r' (ts' ++ rest') = .ok (a', rest') ∧ A a a'

/-- Whatever `r` reads takes a segment that `r'` reads. -/
def Spans {α : Type} (π : Pos → Pos) (r r' : Reader α) (A : α → α → Prop) : Prop :=
  ∀ ⦃ls a rest⦄, r ls = .ok (a, rest) → Taken π r' A ls a rest

/-- Another reader may do what `r` does with lists that begin in the same way. -/
theorem Taken.imp {α : Type} {r r' : Reader α} {A : α → α → Prop} {ls rest : List Lexeme} {a : α}
    (h : Taken π r A ls a rest) (hr : ∀ ⦃ls' a' rest'⦄, peek ls' = peek ls →
      r ls' = .ok (a', rest') → r' ls' = .ok (a', rest')) : Taken π r' A ls a rest := by
  obtain ⟨ts, rfl, hts, hagain⟩ := h
  refine ⟨ts, rfl, hts, fun ts' rest' hts' hfits => ?_⟩
  obtain ⟨a', ha', hsame⟩ := hagain hts' hfits
  exact ⟨a', hr (hts'.peek_append_of_ne hts.nonempty rest rest') ha', hsame⟩

/-- What `r` reads off a list, which is some of it, `r'` reads in an alike way off an alike list. -/
def Carries {α : Type} (π : Pos → Pos) (r r' : Reader α) (A : α → α → Prop) : Prop :=
  ∀ ⦃ls ls' a rest⦄, SameText π ls ls' → r ls = .ok (a, rest) →
    rest.length < ls.length ∧
      ∃ a' rest', r' ls' = .ok (a', rest') ∧ A a a' ∧ SameText π rest rest'

theorem Frames.carries {α : Type} {A : α → α → Prop} {r r' : Reader α}
    (h : Frames π Whole r r' A) : Carries π r r' A := by
  intro ls ls' a rest hls ha
  obtain ⟨ts, rfl, hts, hagain⟩ := h ha
  obtain ⟨ts', rest', rfl, hts', hrest⟩ := hls.of_append
  obtain ⟨a', ha', hsame⟩ := hagain hts' hrest.peek_eq
  have hlength : 0 < ts.length := List.length_pos_iff.2 hts.nonempty
  exact ⟨by simp only [List.length_append]; omega, a', rest', ha', hsame, hrest⟩

theorem Spans.carries {α : Type} {A : α → α → Prop} {r r' : Reader α} (h : Spans π r r' A) :
    Carries π r r' A := by
  intro ls ls' a rest hls ha
  obtain ⟨ts, rfl, hts, hagain⟩ := h ha
  obtain ⟨ts', rest', rfl, hts', hrest⟩ := hls.of_append
  obtain ⟨a', ha', hsame⟩ := hagain hts' (.inl hrest.peek_eq)
  have hlength : 0 < ts.length := List.length_pos_iff.2 hts.nonempty
  exact ⟨by simp only [List.length_append]; omega, a', rest', ha', hsame, hrest⟩

theorem spans_readLine : Spans π (readLine n inFunction) (readLine n inFunction)
    (Stmt.Same π) := by
  intro ls s rest h
  obtain ⟨l, hs, hl⟩ := readLine_eq_ok_iff.1 h
  obtain ⟨ts, rfl, hts, hagain⟩ := frames_readSimple (π := π) hs
  have hlevel : level [l] = 0 := level_other (by simp [hl]) (by simp [hl]) []
  have hdepth : ∀ d, l.depthAfter d = d := fun d => by rw [Lexeme.depthAfter, hl]
  refine ⟨ts ++ [l], by simp, ⟨by simp, fun d => ?_, .inl ?_⟩, ?_⟩
  · rw [List.foldl_append, hts.depth]
    exact hdepth d
  · rw [level_append, hts.level_eq, hlevel, Int.add_zero]
  · intro vs rest' hvs _
    obtain ⟨ts', ls', rfl, hts', hls'⟩ := hvs.of_append
    cases hls' with
    | @cons _ l' _ _ hll hnil =>
      cases hnil
      have hnext : peek (l' :: rest') = peek (l :: rest) := hll.token.symm
      obtain ⟨s', hs', hsame⟩ := hagain hts' hnext
      refine ⟨s', readLine_eq_ok_iff.2 ⟨l', ?_, hll.token ▸ hl⟩, hsame⟩
      rw [List.append_assoc]
      exact hs'

section Blocks

variable {b b' : Reader (List Stmt)} {ls ls' rest : List Lexeme} {s : Stmt}

/-- Blocks that differ in places alone. -/
abbrev SameBlock (π : Pos → Pos) : List Stmt → List Stmt → Prop :=
  List.Forall₂ (Stmt.Same π)

theorem SameBlock.map_eq {ss ss' : List Stmt} (h : SameBlock π ss ss') :
    ss.map (Stmt.mapPos π) = ss'.map (Stmt.mapPos π) :=
  map_eq_map_of_forall₂ h

theorem spans_readDefine (hb : Spans π b b' (SameBlock π)) (hp : peek ls = .keyword .def_)
    (h : readDefine b ls = .ok (s, rest)) :
    Taken π (readDefine b') (Stmt.Same π) ls s rest := by
  obtain ⟨o, i, l, ls₁, r, c, ls₂, name, params, body, rfl, hi, hl, hps, hr, hc, hbody, rfl⟩ :=
    readDefine_eq_ok_iff.1 h
  have ho : o.token = .keyword .def_ := hp
  obtain ⟨us, rfl, hus, hagain⟩ := frames_readItems (π := π) frames_readName hps hr
  obtain ⟨ts, rfl, hts, hagain'⟩ := hb hbody
  have hhead : Closed ([o, i] ++ (l :: us ++ [r]) ++ [c]) := by
    refine .append (.append (.cons ?_ ?_ ?_ (.single ?_ ?_ ?_)) (.parens hl hus hr))
      (.single ?_ ?_ ?_) <;> simp [ho, hi, hc, Token.isLayout]
  refine ⟨[o, i] ++ (l :: us ++ [r]) ++ [c] ++ ts, by simp, hts.behind hhead, ?_⟩
  intro vs rest' hvs hfits
  obtain ⟨heads, ts', rfl, hheads, hts'⟩ := hvs.of_append
  obtain ⟨xs, cs, rfl, hxs, hcs⟩ := hheads.of_append
  obtain ⟨ys, zs, rfl, hys, hzs⟩ := hxs.of_append
  obtain ⟨lus, rs, rfl, hlus, hrs⟩ := hzs.of_append
  cases hys with
  | @cons _ o' _ _ hoo hys =>
    cases hys with
    | @cons _ i' _ _ hii hys =>
      cases hys
      cases hlus with
      | @cons _ l' _ us' hll hus' =>
        cases hrs with
        | @cons _ r' _ _ hrr hrs =>
          cases hrs
          cases hcs with
          | @cons _ c' _ _ hcc hcs =>
            cases hcs
            have hlength : us.length = us'.length := hus'.length_eq
            have hnext : peek (r' :: c' :: (ts' ++ rest')) = peek (r :: c :: (ts ++ rest)) :=
              hrr.token.symm
            obtain ⟨body', hbody', hsame⟩ := hagain' hts' (Segment.fits_behind hhead hfits)
            obtain ⟨params', hps', hparams⟩ := hagain hus' hnext
              (show us.length < (us' ++ r' :: c' :: (ts' ++ rest')).length by
                simp only [List.length_append, List.length_cons]
                omega)
            rw [List.forall₂_eq_eq_eq] at hparams
            subst hparams
            refine ⟨_, readDefine_eq_ok_iff.2 ⟨o', i', l', us' ++ r' :: c' :: (ts' ++ rest'), r',
              c', ts' ++ rest', name, params, body', by simp, hii.token ▸ hi, hll.token ▸ hl, hps',
              hrr.token ▸ hr, hcc.token ▸ hc, hbody', rfl⟩, ?_⟩
            have hpos : π o.pos = π o'.pos := hoo.pos (by rw [ho]; rfl)
            simp only [Stmt.Same, Stmt.mapPos_define, hsame.map_eq, hpos]

theorem spans_readArm (hb : Spans π b b' (SameBlock π)) :
    Spans π (readArm n b) (readArm n b')
      (fun arm arm' => Expr.Same π arm.1 arm'.1 ∧ SameBlock π arm.2 arm'.2) := by
  intro ls arm rest h
  obtain ⟨cond, body⟩ := arm
  obtain ⟨c, ls₁, he, hc, hbody⟩ := readArm_eq_ok_iff.1 h
  obtain ⟨us, rfl, hus, hagain⟩ := Expr.frames_read (π := π) n he
  obtain ⟨ts, rfl, hts, hagain'⟩ := hb hbody
  have hhead : Closed (us ++ [c]) := by
    refine hus.toClosed.append (.single ?_ ?_ ?_) <;> simp [hc, Token.isLayout]
  refine ⟨us ++ [c] ++ ts, by simp, hts.behind hhead, ?_⟩
  intro vs rest' hvs hfits
  obtain ⟨xs, ts', rfl, hxs, hts'⟩ := hvs.of_append
  obtain ⟨us', cs, rfl, hus', hcs⟩ := hxs.of_append
  cases hcs with
  | @cons _ c' _ _ hcc hcs =>
    cases hcs
    have hnext : peek (c' :: (ts' ++ rest')) = peek (c :: (ts ++ rest)) := hcc.token.symm
    obtain ⟨e', he', hsame⟩ := hagain hus' hnext
    obtain ⟨body', hbody', hsame'⟩ := hagain' hts' (Segment.fits_behind hhead hfits)
    refine ⟨(e', body'), readArm_eq_ok_iff.2 ⟨c', ts' ++ rest', ?_, hcc.token ▸ hc, hbody'⟩,
      hsame, hsame'⟩
    simpa using he'

theorem same_if {cond cond' : Expr} {thenPart thenPart' elsePart elsePart' : List Stmt} {p p' : Pos}
    (hcond : Expr.Same π cond cond') (hthen : SameBlock π thenPart thenPart')
    (helse : SameBlock π elsePart elsePart') (hp : π p = π p') :
    Stmt.Same π (.if_ cond thenPart elsePart p) (.if_ cond' thenPart' elsePart' p') := by
  simp only [Stmt.Same, Stmt.mapPos_if, hthen.map_eq, helse.map_eq, hp]
  rw [hcond]

/-- What stands behind a condition and its block: another arm, an `else`, or nothing that goes on
with the `if`. -/
def ReadsElse (n : Nat) (b : Reader (List Stmt)) (bound ls : List Lexeme) (elsePart : List Stmt)
    (rest : List Lexeme) : Prop :=
  (peek ls = .keyword .elif ∧ ∃ s, readIf n b bound ls = .ok (s, rest) ∧ elsePart = [s]) ∨
  (∃ e c ls', ls = e :: c :: ls' ∧ e.token = .keyword .else_ ∧ c.token = .mark .colon ∧
    b ls' = .ok (elsePart, rest)) ∨
  ((peek ls).continuesIf = false ∧ elsePart = [] ∧ rest = ls)

theorem continuesIf_eq_false_iff {t : Token} :
    t.continuesIf = false ↔ t ≠ .keyword .elif ∧ t ≠ .keyword .else_ := by
  unfold Token.continuesIf
  split <;> simp_all

theorem readIf_eq_ok_iff {l : Lexeme} {bound : List Lexeme} :
    readIf n b (l :: bound) ls = .ok (s, rest) ↔ ∃ cond thenPart elsePart ls',
      readArm n b ls.tail = .ok ((cond, thenPart), ls') ∧
      ReadsElse n b bound ls' elsePart rest ∧ s = .if_ cond thenPart elsePart (here ls) := by
  rw [readIf_cons_eq_ok_iff]
  constructor
  · rintro ⟨cond, thenPart, ls', harm, ⟨hp, s', hs', rfl⟩ |
      ⟨e, c, ls₁, elsePart, rfl, he, hc, h, rfl⟩ | ⟨h₁, h₂, rfl, rfl⟩⟩
    · exact ⟨cond, thenPart, [s'], ls', harm, .inl ⟨hp, s', hs', rfl⟩, rfl⟩
    · exact ⟨cond, thenPart, elsePart, _, harm, .inr (.inl ⟨e, c, ls₁, rfl, he, hc, h⟩), rfl⟩
    · exact ⟨cond, thenPart, [], rest, harm,
        .inr (.inr ⟨continuesIf_eq_false_iff.2 ⟨h₁, h₂⟩, rfl, rfl⟩), rfl⟩
  · rintro ⟨cond, thenPart, elsePart, ls', harm, ⟨hp, s', hs', rfl⟩ | ⟨e, c, ls₁, rfl, he, hc, h⟩ |
      ⟨hends, rfl, rfl⟩, rfl⟩
    · exact ⟨cond, thenPart, ls', harm, .inl ⟨hp, s', hs', rfl⟩⟩
    · exact ⟨cond, thenPart, _, harm, .inr (.inl ⟨e, c, ls₁, elsePart, rfl, he, hc, h, rfl⟩)⟩
    · obtain ⟨h₁, h₂⟩ := continuesIf_eq_false_iff.1 hends
      exact ⟨cond, thenPart, rest, harm, .inr (.inr ⟨h₁, h₂, rfl, rfl⟩)⟩

/-- An `if` or `elif` with all that belongs to it takes a segment. The bound need not be the same,
as long as it is great enough. -/
def TakenIf (π : Pos → Pos) (n : Nat) (b' : Reader (List Stmt)) (ls : List Lexeme) (s : Stmt)
    (rest : List Lexeme) : Prop :=
  ∃ ts, ls = ts ++ rest ∧ Segment ts rest ∧ ∀ ⦃ts' rest' bound'⦄, SameText π ts ts' →
    Fits ts rest rest' → ts.length ≤ bound'.length →
    ∃ s', readIf n b' bound' (ts' ++ rest') = .ok (s', rest') ∧ Stmt.Same π s s'

/-- So does what stands behind an arm, unless it is nothing. -/
theorem spans_else (hb : Spans π b b' (SameBlock π)) {bound : List Lexeme} {elsePart : List Stmt}
    (hif : ∀ {s : Stmt}, peek ls = .keyword .elif → readIf n b bound ls = .ok (s, rest) →
      TakenIf π n b' ls s rest)
    (h : ReadsElse n b bound ls elsePart rest) :
    ∃ ts, ls = ts ++ rest ∧ Tail ts rest ∧ ∀ ⦃ts' rest' bound'⦄, SameText π ts ts' →
      Fits ts rest rest' → ts.length ≤ bound'.length →
      ∃ elsePart', ReadsElse n b' bound' (ts' ++ rest') elsePart' rest' ∧
        SameBlock π elsePart elsePart' := by
  rcases h with ⟨hp, s, hs, rfl⟩ | ⟨e, c, ls', rfl, he, hc, helse⟩ | ⟨hends, rfl, rfl⟩
  · obtain ⟨ts, rfl, hts, hagain⟩ := hif hp hs
    refine ⟨ts, rfl, .inr ⟨hts, by simp [hp]⟩, fun ts' rest' bound' hts' hfits hbound => ?_⟩
    obtain ⟨s', hs', hsame⟩ := hagain hts' hfits hbound
    have hnext := hts'.peek_append_of_ne hts.nonempty rest rest'
    exact ⟨[s'], .inl ⟨hnext.trans hp, s', hs', rfl⟩, .cons hsame .nil⟩
  · obtain ⟨ts, rfl, hts, hagain⟩ := hb helse
    have hec : Closed [e, c] := by
      refine .cons ?_ ?_ ?_ (.single ?_ ?_ ?_) <;> simp [he, hc, Token.isLayout]
    refine ⟨[e, c] ++ ts, by simp, .inr ⟨hts.behind hec, by simp [peek, he]⟩, ?_⟩
    intro vs rest' bound' hvs hfits _
    cases hvs with
    | @cons _ e' _ _ hee hvs =>
      cases hvs with
      | @cons _ c' _ ts' hcc hts' =>
        obtain ⟨elsePart', helse', hsame⟩ := hagain hts' (Segment.fits_behind hec hfits)
        exact ⟨elsePart', .inr (.inl ⟨e', c', ts' ++ rest', rfl, hee.token ▸ he, hcc.token ▸ hc,
          helse'⟩), hsame⟩
  · refine ⟨[], rfl, .inl rfl, fun ts' rest' bound' hts' hfits _ => ?_⟩
    cases hts'
    refine ⟨[], .inr (.inr ⟨?_, rfl, rfl⟩), .nil⟩
    exact hfits.elim (fun hnext => hnext ▸ hends) fun hfits => hfits.2

theorem spans_readIf (hb : Spans π b b' (SameBlock π)) {bound : List Lexeme} :
    ∀ {ls : List Lexeme} {s : Stmt} {rest : List Lexeme},
      peek ls = .keyword .if_ ∨ peek ls = .keyword .elif → readIf n b bound ls = .ok (s, rest) →
      TakenIf π n b' ls s rest := by
  induction bound with
  | nil =>
    intro ls s rest _ h
    rw [readIf] at h
    exact absurd h refuse_ne_ok
  | cons l bound ih =>
    intro ls s rest hp h
    obtain ⟨cond, thenPart, elsePart, ls₁, harm, helse, rfl⟩ := readIf_eq_ok_iff.1 h
    cases ls with
    | nil => rcases hp with hp | hp <;> cases hp
    | cons o ls =>
      obtain ⟨us, hls, hus, hagain⟩ := spans_readArm hb harm
      obtain ⟨ts, rfl, htail, hagain'⟩ := spans_else hb (fun hp => ih (.inr hp)) helse
      rw [List.tail_cons] at hls
      subst hls
      have ho : Closed [o] := by
        have hp : o.token = .keyword .if_ ∨ o.token = .keyword .elif := hp
        refine .single ?_ ?_ ?_ <;> rcases hp with hp | hp <;> simp [hp, Token.isLayout]
      have hus' : Segment ([o] ++ us) (ts ++ rest) := hus.behind ho
      refine ⟨[o] ++ us ++ ts, by simp, hus'.append htail, ?_⟩
      intro vs rest' bound' hvs hfits hbound
      obtain ⟨ous, ts', rfl, hous, hts'⟩ := hvs.of_append
      obtain ⟨hfits₁, hfits₂⟩ := hus'.fits_append htail hts' hfits
      cases hous with
      | @cons _ o' _ us' hoo hus' =>
        cases bound' with
        | nil => simp at hbound
        | cons l' bound' =>
          have hbound' : ts.length ≤ bound'.length := by
            simp only [List.length_append, List.length_cons, List.length_nil] at hbound
            omega
          obtain ⟨⟨cond', thenPart'⟩, harm', hcond, hthen⟩ :=
            hagain hus' (Segment.fits_behind ho hfits₁)
          obtain ⟨elsePart', helse', hsame⟩ := hagain' hts' hfits₂ hbound'
          have hpos : π o.pos = π o'.pos := hoo.pos (ho.inline o List.mem_cons_self)
          refine ⟨.if_ cond' thenPart' elsePart' o'.pos, readIf_eq_ok_iff.2
            ⟨cond', thenPart', elsePart', ts' ++ rest', ?_, helse', rfl⟩,
            same_if hcond hthen hsame hpos⟩
          simpa using harm'

theorem spans_readWhile (hb : Spans π b b' (SameBlock π)) (hp : peek ls = .keyword .while_)
    (h : readWhile n b ls = .ok (s, rest)) :
    Taken π (readWhile n b') (Stmt.Same π) ls s rest := by
  obtain ⟨cond, body, harm, rfl⟩ := readWhile_eq_ok_iff.1 h
  cases ls with
  | nil => cases hp
  | cons o ls =>
    have ho : o.token = .keyword .while_ := hp
    have hclosed : Closed [o] := by
      refine .single ?_ ?_ ?_ <;> simp [ho, Token.isLayout]
    obtain ⟨us, hls, hus, hagain⟩ := spans_readArm hb harm
    rw [List.tail_cons] at hls
    subst hls
    refine ⟨[o] ++ us, by simp, hus.behind hclosed, ?_⟩
    intro vs rest' hvs hfits
    cases hvs with
    | @cons _ o' _ us' hoo hus' =>
      obtain ⟨⟨cond', body'⟩, harm', hcond, hbody⟩ :=
        hagain hus' (Segment.fits_behind hclosed hfits)
      refine ⟨_, readWhile_eq_ok_iff.2 ⟨cond', body', harm', rfl⟩, ?_⟩
      have hpos : π o.pos = π o'.pos := hoo.pos (by rw [ho]; rfl)
      simp only [Stmt.Same, Stmt.mapPos_while, hbody.map_eq, here, List.cons_append, hpos]
      rw [hcond]

end Blocks

theorem spans_readStmtWith {b b' : Bool → Reader (List Stmt)}
    (hb : ∀ inFunction, Spans π (b inFunction) (b' inFunction) (SameBlock π)) :
    Spans π (readStmtWith n b inFunction) (readStmtWith n b' inFunction) (Stmt.Same π) := by
  intro ls s rest h
  rcases readStmtWith_eq_ok_iff.1 h with ⟨hp, h⟩ | ⟨hp, h⟩ | ⟨hp, h⟩ | ⟨h₁, h₂, h₃, h⟩
  · refine (spans_readDefine (hb true) hp h).imp fun ls' s' rest' hpeek hs' => ?_
    exact readStmtWith_eq_ok_iff.2 (.inl ⟨hpeek.trans hp, hs'⟩)
  · obtain ⟨ts, rfl, hts, hagain⟩ := spans_readIf (hb inFunction) (.inl hp) h
    refine ⟨ts, rfl, hts, fun ts' rest' hts' hfits => ?_⟩
    have hbound : ts.length ≤ (ts' ++ rest').length := by
      rw [List.length_append, hts'.length_eq]
      exact Nat.le_add_right _ _
    obtain ⟨s', hs', hsame⟩ := hagain hts' hfits hbound
    have hpeek := hts'.peek_append_of_ne hts.nonempty rest rest'
    exact ⟨s', readStmtWith_eq_ok_iff.2 (.inr (.inl ⟨hpeek.trans hp, hs'⟩)), hsame⟩
  · refine (spans_readWhile (hb inFunction) hp h).imp fun ls' s' rest' hpeek hs' => ?_
    exact readStmtWith_eq_ok_iff.2 (.inr (.inr (.inl ⟨hpeek.trans hp, hs'⟩)))
  · refine (spans_readLine h).imp fun ls' s' rest' hpeek hs' => ?_
    refine readStmtWith_eq_ok_iff.2 (.inr (.inr (.inr ⟨?_, ?_, ?_, hs'⟩))) <;> rw [hpeek]
    · exact h₁
    · exact h₂
    · exact h₃

theorem readIndented_endOfInput {r : Reader Stmt} {bound ls rest : List Lexeme} {ss : List Stmt}
    (hp : peek ls = .endOfInput) (h : readIndented r bound ls = .ok (ss, rest)) :
    ss = [] ∧ rest = ls := by
  cases bound with
  | nil =>
    rw [readIndented] at h
    cases h
    exact ⟨rfl, rfl⟩
  | cons l bound =>
    rw [readIndented, hp] at h
    cases h
    exact ⟨rfl, rfl⟩

/-- Every parenthesis is closed in `ts`. So is one block more than is opened, unless the input ends
behind it. -/
structure Indented (ts rest : List Lexeme) : Prop where
  depth : ∀ d, ts.foldl Lexeme.depthAfter d = d
  blocks : level ts = -1 ∨ (0 ≤ level ts ∧ peek rest = .endOfInput)

namespace Indented

variable {us ts rest : List Lexeme}

theorem nil (hend : peek rest = .endOfInput) : Indented [] rest :=
  ⟨fun _ => rfl, .inr ⟨Int.le_refl 0, hend⟩⟩

theorem outdent {o : Lexeme} (ho : o.token = .outdent) : Indented [o] rest := by
  refine ⟨fun d => ?_, .inl (level_outdent ho [])⟩
  rw [List.foldl_cons, List.foldl_nil, Lexeme.depthAfter, ho]

/-- A segment, and the rest of a block behind it. -/
theorem behind (h : Indented ts rest) (hus : Segment us (ts ++ rest))
    (hstop : peek (ts ++ rest) = .endOfInput → ts = []) : Indented (us ++ ts) rest := by
  refine ⟨fun d => by rw [List.foldl_append, hus.depth, h.depth], ?_⟩
  rw [level_append]
  rcases hus.blocks with hzero | ⟨hlt, hend⟩
  · rw [hzero, Int.zero_add]
    exact h.blocks
  · obtain rfl := hstop hend
    exact .inr ⟨by rw [level, Int.add_zero]; exact Int.le_of_lt hlt, hend⟩

/-- What may come behind both may come behind each. -/
theorem fits_behind {ts' rest' : List Lexeme} (h : Indented ts rest)
    (hus : Segment us (ts ++ rest)) (hts : SameText π ts ts')
    (hends : level (us ++ ts) = -1 ∨ peek rest' = .endOfInput) :
    Fits us (ts ++ rest) (ts' ++ rest') ∧ (level ts = -1 ∨ peek rest' = .endOfInput) := by
  have hblocks := hus.blocks
  have hblocks' := h.blocks
  rw [level_append] at hends
  constructor
  · by_cases hnil : ts = []
    · subst hnil
      cases hts
      have hend : peek rest = .endOfInput := (hblocks'.resolve_left (by decide)).2
      refine .inl (.trans (hends.resolve_left fun hclosed => ?_) hend.symm)
      rw [level] at hclosed
      omega
    · exact .inl (hts.peek_append_of_ne hnil rest rest')
  · refine hends.imp_left fun hclosed => ?_
    omega

end Indented

/-- The statements of an indented block, and the outdent behind it, unless the input ends. The bound
need not be the same, as long as it is great enough. -/
def TakenIndented (π : Pos → Pos) (r' : Reader Stmt) (ls : List Lexeme) (ss : List Stmt)
    (rest : List Lexeme) : Prop :=
  ∃ ts, ls = ts ++ rest ∧ Indented ts rest ∧ ∀ ⦃ts' rest' bound'⦄, SameText π ts ts' →
    (level ts = -1 ∨ peek rest' = .endOfInput) → ts.length ≤ bound'.length →
    ∃ ss', readIndented r' bound' (ts' ++ rest') = .ok (ss', rest') ∧ SameBlock π ss ss'

theorem takenIndented_nil {r' : Reader Stmt} {rest : List Lexeme} (hend : peek rest = .endOfInput) :
    TakenIndented π r' rest [] rest := by
  refine ⟨[], rfl, .nil hend, fun ts' rest' bound' hts' hends _ => ?_⟩
  cases hts'
  have hend' : peek rest' = .endOfInput := hends.resolve_left (by decide)
  refine ⟨[], ?_, .nil⟩
  cases bound' with
  | nil => rfl
  | cons l' bound' => exact readIndented_cons_eq_ok_iff.2 (.inr (.inl ⟨hend', rfl, rfl⟩))

theorem spans_readIndented {r r' : Reader Stmt} (hr : Spans π r r' (Stmt.Same π)) :
    ∀ {bound ls : List Lexeme} {ss : List Stmt} {rest : List Lexeme},
      ls.length ≤ bound.length → readIndented r bound ls = .ok (ss, rest) →
      TakenIndented π r' ls ss rest := by
  intro bound
  induction bound with
  | nil =>
    intro ls ss rest hbound h
    have hls : ls = [] := List.length_eq_zero_iff.1 (Nat.le_zero.1 hbound)
    subst hls
    obtain ⟨rfl, rfl⟩ := readIndented_endOfInput rfl h
    exact takenIndented_nil rfl
  | cons l bound ih =>
    intro ls ss rest hbound h
    rcases readIndented_cons_eq_ok_iff.1 h with
      ⟨o, rfl, ho, rfl⟩ | ⟨hp, rfl, rfl⟩ | ⟨h₁, h₂, s, ls₁, ss₁, hs, hss, rfl⟩
    · refine ⟨[o], rfl, .outdent ho, fun ts' rest' bound' hts' _ hbound' => ?_⟩
      cases hts' with
      | @cons _ o' _ _ hoo hnil =>
        cases hnil
        cases bound' with
        | nil => simp at hbound'
        | cons l' bound' =>
          exact ⟨[], readIndented_cons_eq_ok_iff.2 (.inl ⟨o', rfl, hoo.token ▸ ho, rfl⟩), .nil⟩
    · exact takenIndented_nil hp
    · obtain ⟨us, rfl, hus, hagain⟩ := hr hs
      have hpos : 0 < us.length := List.length_pos_iff.2 hus.nonempty
      rw [List.length_append, List.length_cons] at hbound
      obtain ⟨ts, rfl, hts, hagain'⟩ := ih (by omega) hss
      have hstop : peek (ts ++ rest) = .endOfInput → ts = [] := fun hend =>
        List.self_eq_append_left.1 (readIndented_endOfInput hend hss).2
      refine ⟨us ++ ts, by simp, hts.behind hus hstop, ?_⟩
      intro vs rest' bound' hvs hends hbound'
      obtain ⟨us', ts', rfl, hus', hts'⟩ := hvs.of_append
      obtain ⟨hfits, hends'⟩ := hts.fits_behind hus hts' hends
      cases bound' with
      | nil => simp [hus.nonempty] at hbound'
      | cons l' bound' =>
        rw [List.length_append, List.length_cons] at hbound'
        have hbound' : ts.length ≤ bound'.length := by omega
        obtain ⟨s', hs', hsame⟩ := hagain hus' hfits
        obtain ⟨ss', hss', hblock⟩ := hagain' hts' hends' hbound'
        have hfirst : peek (us' ++ (ts' ++ rest')) = peek (us ++ (ts ++ rest)) :=
          hus'.peek_append_of_ne hus.nonempty _ _
        refine ⟨s' :: ss', readIndented_cons_eq_ok_iff.2 (.inr (.inr ⟨?_, ?_, s', ts' ++ rest', ss',
          ?_, hss', rfl⟩)), .cons hsame hblock⟩ <;> rw [List.append_assoc]
        · rwa [hfirst]
        · rwa [hfirst]
        · exact hs'

theorem spans_readBlock (n : Nat) : ∀ inFunction,
    Spans π (readBlock n inFunction) (readBlock n inFunction) (SameBlock π) := by
  induction n with
  | zero =>
    intro inFunction ls ss rest h
    obtain ⟨m, hm, -⟩ := readBlock_eq_ok_iff.1 h
    omega
  | succ n ih =>
    intro inFunction ls ss rest h
    obtain ⟨m, hm, h⟩ := readBlock_eq_ok_iff.1 h
    obtain rfl : n = m := by omega
    rcases h with ⟨o, i, ls₁, rfl, ho, hi, hss⟩ | ⟨hp, s, hs, rfl⟩
    · obtain ⟨ts, rfl, ⟨hdepth, hlevel⟩, hagain⟩ :=
        spans_readIndented (spans_readStmtWith ih) (by simp; omega) hss
      have hblocks : level ([o, i] ++ ts) = 1 + level ts := by
        rw [List.cons_append, level_other (by simp [ho]) (by simp [ho])]
        exact level_indent hi ts
      refine ⟨[o, i] ++ ts, by simp, ⟨by simp, fun d => ?_, ?_⟩, ?_⟩
      · rw [List.foldl_append, hdepth, List.foldl_cons, List.foldl_cons, List.foldl_nil,
          Lexeme.depthAfter, Lexeme.depthAfter, ho, hi]
      · rw [hblocks]
        rcases hlevel with hclosed | ⟨hle, hend⟩
        · exact .inl (by omega)
        · exact .inr ⟨by omega, hend⟩
      · intro vs rest' hvs hfits
        cases hvs with
        | @cons _ o' _ _ hoo hvs =>
          cases hvs with
          | @cons _ i' _ ts' hii hts' =>
            have hlength : ts.length = ts'.length := hts'.length_eq
            have hends : level ts = -1 ∨ peek rest' = .endOfInput := by
              rw [Fits, hblocks] at hfits
              rcases hfits with hpeek | ⟨hzero, -⟩
              · exact hlevel.imp_right fun hend => hpeek.trans hend.2
              · exact .inl (by omega)
            obtain ⟨ss', hss', hsame⟩ := hagain hts' hends
              (show ts.length ≤ (o' :: i' :: (ts' ++ rest')).length by
                simp only [List.length_cons, List.length_append]
                omega)
            exact ⟨ss', readBlock_eq_ok_iff.2 ⟨n, rfl, .inl ⟨o', i', ts' ++ rest', rfl,
              hoo.token ▸ ho, hii.token ▸ hi, hss'⟩⟩, hsame⟩
    · obtain ⟨ts, rfl, hts, hagain⟩ := spans_readLine (π := π) hs
      refine ⟨ts, rfl, hts, fun ts' rest' hts' hfits => ?_⟩
      obtain ⟨s', hs', hsame⟩ := hagain hts' hfits
      refine ⟨[s'], readBlock_eq_ok_iff.2 ⟨n, rfl, .inr ⟨?_, s', hs', rfl⟩⟩, .cons hsame .nil⟩
      rw [hts'.peek_append_of_ne hts.nonempty rest rest']
      exact hp

/-- The reader of statements takes a segment, and reads it whatever fits behind. -/
theorem spans_read : Spans π (Stmt.read n inFunction) (Stmt.read n inFunction) (Stmt.Same π) :=
  spans_readStmtWith (spans_readBlock n)

/-- The reader of statements reads alike lists alike. -/
theorem carries_read : Carries π (Stmt.read n inFunction) (Stmt.read n inFunction)
    (Stmt.Same π) :=
  spans_read.carries

/-! ## Programs -/

/-- The statements that a list of lexemes is, line ends between them aside. -/
inductive Reads : List Lexeme → List Stmt → Prop
  | done {ls : List Lexeme} : peek (skipNewlines ls) = .endOfInput → Reads ls []
  | more {ls rest : List Lexeme} {s : Stmt} {ss : List Stmt} :
    peek (skipNewlines ls) ≠ .endOfInput →
    Stmt.read maxNesting false (skipNewlines ls) = .ok (s, rest) → Reads rest ss →
    Reads ls (s :: ss)

theorem length_skipNewlines_le (ls : List Lexeme) : (skipNewlines ls).length ≤ ls.length :=
  (List.dropWhile_suffix _).length_le

theorem readStmts_eq_ok_iff {bound ls : List Lexeme} {ss : List Stmt}
    (hbound : ls.length ≤ bound.length) : readStmts bound ls = .ok ss ↔ Reads ls ss := by
  induction bound generalizing ls ss with
  | nil =>
    have hls : ls = [] := List.length_eq_zero_iff.1 (Nat.le_zero.1 hbound)
    subst hls
    rw [readStmts]
    constructor
    · intro h
      cases h
      exact .done rfl
    · intro h
      cases h with
      | done _ => rfl
      | more hp _ _ => exact absurd rfl hp
  | cons b bound ih =>
    have hrest : ∀ {s : Stmt} {rest : List Lexeme},
        Stmt.read maxNesting false (skipNewlines ls) = .ok (s, rest) →
        rest.length ≤ bound.length := by
      intro s rest hs
      obtain ⟨hlt, -⟩ := carries_read (π := id) (SameText.refl _) hs
      have hle := length_skipNewlines_le ls
      rw [List.length_cons] at hbound
      omega
    rw [readStmts_cons_eq_ok_iff]
    constructor
    · intro h
      rcases h with ⟨hp, rfl⟩ | ⟨hp, s, rest, ss', hs, hss, rfl⟩
      · exact .done hp
      · exact .more hp hs ((ih (hrest hs)).1 hss)
    · intro h
      cases h with
      | done hp => exact .inl ⟨hp, rfl⟩
      | more hp hs hss => exact .inr ⟨hp, _, _, _, hs, (ih (hrest hs)).2 hss, rfl⟩

theorem Program.parse_eq_ok_iff {text : String} {p : Program} :
    Program.parse text = .ok p ↔ ∃ ls, scan .program text = .ok ls ∧ Reads ls p := by
  unfold Program.parse
  constructor
  · intro h
    obtain ⟨ls, hls, h⟩ := bind_eq_ok_iff.1 h
    exact ⟨ls, hls, (readStmts_eq_ok_iff (Nat.le_refl _)).1 h⟩
  · intro ⟨ls, hls, h⟩
    exact bind_eq_ok_iff.2 ⟨ls, hls, (readStmts_eq_ok_iff (Nat.le_refl _)).2 h⟩

theorem SameText.skipNewlines {ls ls' : List Lexeme} (h : SameText π ls ls') :
    SameText π (skipNewlines ls) (skipNewlines ls') := by
  induction h with
  | nil => exact .nil
  | @cons l l' ls ls' hl h ih =>
    simp only [ScriptShell.skipNewlines, List.dropWhile_cons, decide_eq_true_eq] at ih ⊢
    rw [← hl.token]
    split
    · exact ih
    · exact .cons hl h

/-- Alike lists are alike programs. -/
theorem Reads.same {ls ls' : List Lexeme} {ss : List Stmt} (hls : SameText π ls ls')
    (h : Reads ls ss) : ∃ ss', Reads ls' ss' ∧ SameBlock π ss ss' := by
  induction h generalizing ls' with
  | done hp => exact ⟨[], .done (hls.skipNewlines.peek_eq ▸ hp), .nil⟩
  | more hp hs _ ih =>
    obtain ⟨-, s', rest', hs', hsame, hrest⟩ := carries_read hls.skipNewlines hs
    obtain ⟨ss', hss', hblock⟩ := ih hrest
    exact ⟨s' :: ss', .more (hls.skipNewlines.peek_eq ▸ hp) hs' hss', .cons hsame hblock⟩

end ScriptShell
