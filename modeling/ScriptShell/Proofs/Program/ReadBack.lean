import ScriptShell.Proofs.Program.Layout

/-!
# ScriptShell.Proofs.Program.ReadBack

Printed statements that hold no other are read back, and so are lists of statements if each of them
is. A reader takes what it should, or fails for want of levels of nesting.

* `Obtains`: a reader takes what it should, or the program is nested too deeply.
* `Stmt.Laid.obtains`: statements that hold no other.
* `Laid.first`: the first token of a statement.
* `ReadsAll`: a list of statements, in a block or in a program.
-/

namespace ScriptShell

/-! ## Taking what one should, or being nested too deeply -/

/-- The faults of a program that is nested too deeply. -/
def NestedTooDeep (f : SyntaxFault) : Prop :=
  f = .expressionTooDeep ∨ f = .blockTooDeep

/-- A value of the kind `A` is read and `rest` is left, or the program is nested too deeply, which
`shallow` excludes. -/
inductive Obtains {α : Type} (shallow : Prop) (x : Except SyntaxError (α × List Lexeme))
    (rest : List Lexeme) (A : α → Prop) : Prop
  | ok (a : α) (hx : x = .ok (a, rest)) (ha : A a)
  | refused (hdeep : ¬shallow) (p : Pos) (f : SyntaxFault) (hx : x = .error ⟨p, f⟩)
    (hf : NestedTooDeep f)

namespace Obtains

variable {α β : Type} {shallow : Prop} {x : Except SyntaxError (α × List Lexeme)}
  {mid rest : List Lexeme} {A : α → Prop} {B : β → Prop}

theorem bind {k : α × List Lexeme → Except SyntaxError (β × List Lexeme)}
    (h : Obtains shallow x mid A) (hk : ∀ a, A a → Obtains shallow (k (a, mid)) rest B) :
    Obtains shallow (x >>= k) rest B := by
  cases h with
  | refused hdeep p f hx hf => exact .refused hdeep p f (by rw [hx]; rfl) hf
  | ok a hx ha =>
    rw [hx]
    exact hk a ha

/-- What cannot fail is read afterwards. -/
theorem andThen {k : α × List Lexeme → Except SyntaxError (β × List Lexeme)}
    (h : Obtains shallow x mid A) (hk : ∀ a, A a → ∃ b, k (a, mid) = .ok (b, rest) ∧ B b) :
    Obtains shallow (x >>= k) rest B :=
  h.bind fun a ha => by
    obtain ⟨b, hb, hB⟩ := hk a ha
    exact .ok b hb hB

end Obtains

theorem Delivers.obtains {α : Type} {shallow enough : Prop}
    {x : Except SyntaxError (α × List Lexeme)} {rest : List Lexeme} {A : α → Prop}
    (h : Delivers TooDeep x enough rest A) (henough : shallow → enough) :
    Obtains shallow x rest A := by
  cases h with
  | ok _ a hx ha => exact .ok a hx ha
  | refused hnot p f hx hf => exact .refused (fun hs => hnot (henough hs)) p f hx (.inl hf)

variable {shallow : Prop} {wrap inFunction : Bool} {n : Nat} {us rest : List Lexeme}
  {e : Expr} {s : Stmt} {ss : List Stmt}

/-! ## Expressions -/

theorem obtains_expr (hus : tokens us = e.tokens wrap) (hrest : (peek rest).rank = 0)
    (hlow : shallow → 3 * e.height < n) :
    Obtains shallow (Expr.read n (us ++ rest)) rest (e.Same Pos.forget) := by
  obtain ⟨k, hk, h⟩ := e.derives_tokens wrap
  exact (Expr.delivers_read (hus ▸ h) hrest).obtains fun hs => by have := hlow hs; omega

theorem opensExpr_of_tokens {ts : List Token} (hus : tokens us = e.tokens wrap ++ ts) :
    (peek (us ++ rest)).opensExpr = true := by
  obtain ⟨k, -, h⟩ := e.derives_tokens wrap
  obtain ⟨t, vs, hts, ht⟩ := h.opens rfl
  rw [hts, List.cons_append] at hus
  rw [peek_of_tokens hus]
  exact ht.opensExpr

/-! ## Statements that hold no other -/

theorem bind_of_eq_ok {ε α β : Type} {x : Except ε α} {f : α → Except ε β} {a : α}
    (h : x = .ok a) : x >>= f = f a := by
  rw [h]
  rfl

theorem intercalate_cons_eq {t : Token} {ts : List Token} {tss : List (List Token)} :
    [t].intercalate (ts :: tss) = ts ++ tss.flatMap (t :: ·) := by
  induction tss generalizing ts with
  | nil => simp
  | cons us tss ih => simp [ih]

theorem readImports_of_laid {q : Pos} {is : List Import} {tss : List (List Token)}
    (h : List.Forall₂ Import.Laid is tss) {bound : List Lexeme}
    (hus : tokens us = tss.flatMap (.mark .comma :: ·)) (hrest : peek rest = .mark .parenRight)
    (hbound : us.length < bound.length) : readImports q bound (us ++ rest) = .ok (is, rest) := by
  induction h generalizing us bound with
  | nil =>
    obtain rfl := List.map_eq_nil_iff.1 hus
    cases bound with
    | nil => cases hbound
    | cons b bound => exact readImports_cons_eq_ok_iff.2 (.inl ⟨by simp [hrest], rfl, rfl⟩)
  | cons hi _ ih =>
    cases bound with
    | nil => cases hbound
    | cons b bound =>
      rw [List.flatMap_cons] at hus
      obtain ⟨vs, us, rfl, hvs, hmore⟩ := tokens_eq_append_iff.1 hus
      obtain ⟨c, vs, rfl, hc, hvs⟩ := tokens_eq_cons_iff.1 hvs
      have hlt : us.length < bound.length := by
        simp only [List.cons_append, List.length_cons, List.length_append] at hbound
        omega
      cases hi with
      | kept x =>
        obtain ⟨l, vs, rfl, hl, hvs⟩ := tokens_eq_cons_iff.1 hvs
        obtain rfl := List.map_eq_nil_iff.1 hvs
        exact readImports_cons_eq_ok_iff.2
          (.inr (.inr (.inl ⟨c, l, us ++ rest, x, _, rfl, hc, hl, ih hmore hlt, rfl⟩)))
      | renamed _ =>
        obtain ⟨l, vs, rfl, hl, hvs⟩ := tokens_eq_cons_iff.1 hvs
        obtain ⟨a, vs, rfl, ha, hvs⟩ := tokens_eq_cons_iff.1 hvs
        obtain ⟨r, vs, rfl, hr, hvs⟩ := tokens_eq_cons_iff.1 hvs
        obtain rfl := List.map_eq_nil_iff.1 hvs
        exact readImports_cons_eq_ok_iff.2 (.inr (.inr (.inr
          ⟨c, l, a, r, us ++ rest, _, _, _, rfl, hc, hl, ha, hr, ih hmore hlt, rfl⟩)))

theorem eq_name_of_same {x : String} {q : Pos} {a : Expr}
    (h : (Expr.name x q).Same Pos.forget a) : ∃ q', a = .name x q' := by
  cases a with
  | name y q' =>
    simp only [Expr.Same, Expr.mapPos, Expr.name.injEq] at h
    exact ⟨q', by rw [h.1]⟩
  | _ => simp [Expr.Same, Expr.mapPos] at h

theorem readSimple_return {o : Lexeme} {ls : List Lexeme} (ho : o.token = .keyword .return_)
    (hopens : (peek ls).opensExpr = true) :
    readSimple n true (o :: ls) = (do
      let (e, ls) ← Expr.read n ls
      .ok (.return_ (some e) o.pos, ls)) := by
  have hne : peek ls ≠ .newline := by
    intro h
    rw [h] at hopens
    cases hopens
  have hp : peek (o :: ls) = .keyword .return_ := ho
  have hreturn : readSimple n true (o :: ls) = readReturn n true (o :: ls) := by
    simp only [readSimple, hp]
  rw [hreturn, readReturn, if_pos rfl]
  exact if_neg hne

theorem obtains_expression {p : Pos} (hus : tokens us = e.tokens wrap)
    (hrest : peek rest = .newline) (hlow : shallow → 3 * e.height < n) :
    Obtains shallow (readSimple n inFunction (us ++ rest)) rest
      (Stmt.Same Pos.forget (.expr e p)) := by
  have hopens : (peek (us ++ rest)).opensExpr = true :=
    opensExpr_of_tokens (show tokens us = e.tokens wrap ++ [] by simpa using hus)
  rw [readSimple_of_opensExpr hopens, readAssignment]
  refine (obtains_expr hus (by rw [hrest]; rfl) hlow).andThen fun e' he =>
    ⟨.expr e' (here (us ++ rest)), ?_, ?_⟩
  · dsimp only
    rw [if_neg (by rw [hrest]; simp)]
  · simp only [Stmt.Same, Stmt.mapPos]
    rw [he]
    rfl

/-- The name on the left of an assignment is read as an expression first. -/
theorem obtains_assign {x : String} {p : Pos}
    (hus : tokens us = .name x :: .mark .assign :: e.tokens wrap)
    (hrest : peek rest = .newline) (hlow : shallow → 3 * e.height < n) :
    Obtains shallow (readSimple n inFunction (us ++ rest)) rest
      (Stmt.Same Pos.forget (.assign x e p)) := by
  obtain ⟨l, us, rfl, hl, hus⟩ := tokens_eq_cons_iff.1 hus
  obtain ⟨a, us, rfl, ha, hus⟩ := tokens_eq_cons_iff.1 hus
  have hopens : (peek (l :: a :: us ++ rest)).opensExpr = true := by
    rw [List.cons_append, peek, hl]
    rfl
  have hname : Obtains shallow (Expr.read n ([l] ++ (a :: us ++ rest))) (a :: us ++ rest)
      ((Expr.name x .start).Same Pos.forget) :=
    obtains_expr (show tokens [l] = (Expr.name x .start).tokens wrap by simp [hl, Expr.tokens])
      (show (peek (a :: (us ++ rest))).rank = 0 by rw [peek, ha]; rfl)
      (fun hs => by have := hlow hs; simp only [Expr.height]; omega)
  rw [readSimple_of_opensExpr hopens, readAssignment]
  refine hname.bind fun e' he' => ?_
  obtain ⟨q, rfl⟩ := eq_name_of_same he'
  dsimp only
  rw [if_pos (show peek (a :: us ++ rest) = _ from ha)]
  refine (obtains_expr hus (by rw [hrest]; rfl) hlow).andThen fun e' he =>
    ⟨.assign x e' _, rfl, ?_⟩
  simp only [Stmt.Same, Stmt.mapPos]
  rw [he]
  rfl

theorem obtains_load {m : String} {is : List Import} {tss : List (List Token)} {p : Pos}
    (hus : tokens us = .keyword .load :: .mark .parenLeft ::
      ([.mark .comma].intercalate ([.str m] :: tss) ++ [.mark .parenRight]))
    (htss : List.Forall₂ Import.Laid is tss) (hf : inFunction = false)
    (hne : is.isEmpty = false) :
    Obtains shallow (readSimple n inFunction (us ++ rest)) rest
      (Stmt.Same Pos.forget (.load m is p)) := by
  rw [intercalate_cons_eq, List.append_assoc, List.singleton_append] at hus
  obtain ⟨o, us, rfl, ho, hus⟩ := tokens_eq_cons_iff.1 hus
  obtain ⟨l, us, rfl, hl, hus⟩ := tokens_eq_cons_iff.1 hus
  obtain ⟨k, us, rfl, hk, hus⟩ := tokens_eq_cons_iff.1 hus
  obtain ⟨us, vs, rfl, hmore, hvs⟩ := tokens_eq_append_iff.1 hus
  obtain ⟨r, vs, rfl, hr, hvs⟩ := tokens_eq_cons_iff.1 hvs
  obtain rfl := List.map_eq_nil_iff.1 hvs
  have himports : readImports o.pos (k :: (us ++ r :: rest)) (us ++ r :: rest) =
      .ok (is, r :: rest) := by
    refine readImports_of_laid htss hmore hr ?_
    simp only [List.length_cons, List.length_append]
    omega
  refine .ok (.load m is o.pos) ?_ rfl
  exact readSimple_eq_ok_iff.2 (.inr (.inr (.inl ⟨ho, readLoad_eq_ok_iff.2
    ⟨hf, o, l, k, r, us ++ r :: rest, m, is, by simp, hl, hk, himports, hr, hne, rfl⟩⟩)))

theorem obtains_return {p : Pos} (hus : tokens us = .keyword .return_ :: e.tokens wrap)
    (hrest : peek rest = .newline) (hlow : shallow → 3 * e.height < n) :
    Obtains shallow (readSimple n true (us ++ rest)) rest
      (Stmt.Same Pos.forget (.return_ (some e) p)) := by
  obtain ⟨o, us, rfl, ho, hus⟩ := tokens_eq_cons_iff.1 hus
  have hopens : (peek (us ++ rest)).opensExpr = true :=
    opensExpr_of_tokens (show tokens us = e.tokens wrap ++ [] by simpa using hus)
  rw [List.cons_append, readSimple_return ho hopens]
  refine (obtains_expr hus (by rw [hrest]; rfl) hlow).andThen fun e' he =>
    ⟨.return_ (some e') _, rfl, ?_⟩
  simp only [Stmt.Same, Stmt.mapPos, Option.map_some]
  rw [he]
  rfl

/-- A statement that holds no other is read back before the end of its line. -/
theorem Stmt.Laid.obtains {ts : List Token} (h : Stmt.Laid wrap s ts)
    (hs : s.isPrintable inFunction = true) (hus : tokens us = ts) (hrest : peek rest = .newline)
    (hlow : shallow → 3 * s.tallest < n) :
    Obtains shallow (readSimple n inFunction (us ++ rest)) rest (s.Same Pos.forget) := by
  cases h with
  | expr e p => exact obtains_expression hus hrest hlow
  | assign x e p => exact obtains_assign hus hrest hlow
  | @load is tss m p htss =>
    simp only [Stmt.isPrintable, Bool.and_eq_true, Bool.not_eq_true'] at hs
    exact obtains_load hus htss hs.1.1 hs.1.2
  | returnNothing p =>
    simp only [Stmt.isPrintable, Bool.and_eq_true] at hs
    obtain ⟨o, us, rfl, ho, hus⟩ := tokens_eq_cons_iff.1 hus
    obtain rfl := List.map_eq_nil_iff.1 hus
    exact .ok (.return_ none o.pos) (readSimple_eq_ok_iff.2 (.inr (.inl ⟨ho,
      readReturn_eq_ok_iff.2 ⟨hs.1, o, rest, rfl, .inl ⟨hrest, rfl, rfl⟩⟩⟩))) rfl
  | return_ e p =>
    simp only [Stmt.isPrintable, Bool.and_eq_true] at hs
    rw [hs.1]
    exact obtains_return hus hrest hlow
  | pass =>
    obtain ⟨o, us, rfl, ho, hus⟩ := tokens_eq_cons_iff.1 hus
    obtain rfl := List.map_eq_nil_iff.1 hus
    exact .ok .pass (readSimple_eq_ok_iff.2 (.inl ⟨o, rfl, ho, rfl⟩)) rfl

/-! ## First tokens -/

/-- Can the token be the first of a statement? -/
def Token.startsStmt (t : Token) : Bool :=
  !t.isLayout && !t.continuesIf

theorem startsStmt_of_opensExpr {t : Token} (h : t.opensExpr = true) : t.startsStmt = true := by
  unfold Token.opensExpr at h
  split at h <;> first | rfl | cases h

theorem Stmt.Laid.first {ts : List Token} (h : Stmt.Laid wrap s ts) :
    ∃ t vs, ts = t :: vs ∧ t.startsStmt = true ∧ t.isPlain = true := by
  cases h with
  | expr e p =>
    obtain ⟨k, -, h⟩ := e.derives_tokens wrap
    obtain ⟨t, vs, hts, ht⟩ := h.opens rfl
    exact ⟨t, vs, hts, startsStmt_of_opensExpr ht.opensExpr, isPlain_of_opensExpr ht.opensExpr⟩
  | _ => exact ⟨_, _, rfl, rfl, rfl⟩

variable {ws : List Nat} {w : Nat} {ls : List Line}

theorem Laid.first (h : Laid wrap ws (.stmt s) ls) (hus : tokens us = lineTokens ws ls ws)
    (rest : List Lexeme) :
    (peek (us ++ rest)).startsStmt = true := by
  have hfirst : ∀ {l : Line} {ls t ts}, l.around = ws → l.tokens = t :: ts →
      t.startsStmt = true → tokens us = lineTokens ws (l :: ls) ws →
      (peek (us ++ rest)).startsStmt = true := by
    intro l ls t ts hl hts ht hus
    rw [lineTokens_cons hl, hts, List.cons_append] at hus
    rw [peek_of_tokens hus]
    exact ht
  cases h with
  | simple h =>
    obtain ⟨t, vs, hts, ht, -⟩ := h.first
    exact hfirst rfl hts ht hus
  | define => exact hfirst rfl rfl rfl hus
  | while_ => exact hfirst rfl rfl rfl hus
  | if_ h =>
    cases h with
    | branch => exact hfirst rfl rfl rfl hus

theorem length_pos_of_startsStmt (h : (peek (us ++ [])).startsStmt = true) : 0 < us.length := by
  cases us with
  | nil => cases h
  | cons _ _ => exact Nat.succ_pos _

theorem Laid.ne_nil (h : Laid wrap ws (.stmts ss) ls) (hne : ss ≠ []) : ls ≠ [] := by
  cases h with
  | noStmts => exact absurd rfl hne
  | stmts h _ =>
    intro hnil
    obtain ⟨rfl, -⟩ := List.append_eq_nil_iff.1 hnil
    cases h.first (show tokens [] = lineTokens ws [] ws from (lineTokens_nil ws).symm) []

/-- Behind a statement stands what is left, or another statement. -/
theorem Laid.continuesIf (h : Laid wrap ws (.stmts ss) ls) (hus : tokens us = lineTokens ws ls ws)
    (hrest : (peek rest).continuesIf = false) : (peek (us ++ rest)).continuesIf = false := by
  cases h with
  | noStmts =>
    rw [lineTokens_nil] at hus
    obtain rfl := List.map_eq_nil_iff.1 hus
    exact hrest
  | stmts h hs =>
    rw [lineTokens_append h.starts.inside (List.suffix_refl _) hs.starts] at hus
    obtain ⟨vs, us, rfl, hvs, -⟩ := tokens_eq_append_iff.1 hus
    have hfirst := h.first hvs (us ++ rest)
    rw [Token.startsStmt, Bool.and_eq_true, Bool.not_eq_true', Bool.not_eq_true'] at hfirst
    rw [List.append_assoc]
    exact hfirst.2

/-! ## Lists of statements -/

theorem readIndented_cons_of_not_layout {stmt : Reader Stmt} {b : Lexeme} {bound ls : List Lexeme}
    (hfirst : (peek ls).isLayout = false) :
    readIndented stmt (b :: bound) ls = (do
      let (s, ls) ← stmt ls
      let (ss, ls) ← readIndented stmt bound ls
      .ok (s :: ss, ls)) := by
  rw [readIndented]
  split
  · rename_i hp
    rw [hp] at hfirst
    cases hfirst
  · rename_i hp
    rw [hp] at hfirst
    cases hfirst
  · rfl

theorem readStmts_cons_of_not_layout {b : Lexeme} {bound ls : List Lexeme}
    (hfirst : (peek ls).isLayout = false) :
    readStmts (b :: bound) ls = (do
      let (s, ls) ← Stmt.read maxNesting false ls
      let ss ← readStmts bound ls
      .ok (s :: ss)) := by
  have hskip : skipNewlines ls = ls := by
    refine skipNewlines_of_ne fun hp => ?_
    rw [hp] at hfirst
    cases hfirst
  rw [readStmts]
  dsimp only
  rw [hskip, if_neg (by intro hp; rw [hp] at hfirst; cases hfirst)]

/-- The reader of statements takes the statements off the list, up to `rest`. -/
inductive ReadsAll (shallow : Prop) (n : Nat) (inFunction : Bool) (rest : List Lexeme) :
    List Lexeme → List Stmt → Prop
  | nil : ReadsAll shallow n inFunction rest rest []
  | cons {ls mid s ss} (hfirst : (peek ls).isLayout = false) (hlength : mid.length < ls.length)
      (h : Obtains shallow (Stmt.read n inFunction ls) mid (s.Same Pos.forget))
      (hs : ReadsAll shallow n inFunction rest mid ss) :
      ReadsAll shallow n inFunction rest ls (s :: ss)

namespace ReadsAll

variable {ms bound : List Lexeme}

theorem obtains_indented {o : Lexeme} (h : ReadsAll shallow n inFunction (o :: rest) ms ss)
    (ho : o.token = .outdent) (hbound : ms.length ≤ bound.length) :
    Obtains shallow (readIndented (Stmt.read n inFunction) bound ms) rest
      (SameBlock Pos.forget ss) := by
  induction h generalizing bound with
  | nil =>
    cases bound with
    | nil => simp at hbound
    | cons b bound =>
      exact .ok [] (readIndented_cons_eq_ok_iff.2 (.inl ⟨o, rfl, ho, rfl⟩)) .nil
  | @cons ls mid s ss hfirst hlength h _ ih =>
    cases bound with
    | nil =>
      rw [List.length_nil] at hbound
      omega
    | cons b bound =>
      rw [readIndented_cons_of_not_layout hfirst]
      refine h.bind fun s' hs' => (ih ?_).andThen fun ss' hss' => ⟨_, rfl, .cons hs' hss'⟩
      rw [List.length_cons] at hbound
      omega

/-- Read as a block, they take one level more. -/
theorem obtains_block {l i o : Lexeme} (h : ReadsAll shallow n inFunction (o :: rest) ms ss)
    (hl : l.token = .newline) (hi : i.token = .indent) (ho : o.token = .outdent) :
    Obtains shallow (readBlock (n + 1) inFunction (l :: i :: ms)) rest
      (SameBlock Pos.forget ss) := by
  have hl' : peek (l :: i :: ms) = .newline := hl
  have hi' : peek (i :: ms) = .indent := hi
  rw [readBlock, if_pos hl', List.tail_cons, if_pos hi', List.tail_cons]
  refine h.obtains_indented ho ?_
  simp only [List.length_cons]
  omega

theorem obtains_stmts (h : ReadsAll shallow maxNesting false rest ms ss)
    (hrest : peek rest = .endOfInput) (hbound : ms.length ≤ bound.length) :
    (∃ ss', readStmts bound ms = .ok ss' ∧ SameBlock Pos.forget ss ss') ∨
      ¬shallow ∧ ∃ p f, readStmts bound ms = .error ⟨p, f⟩ ∧ NestedTooDeep f := by
  induction h generalizing bound with
  | nil =>
    refine .inl ⟨[], ?_, .nil⟩
    cases bound with
    | nil => rfl
    | cons b bound =>
      have hskip : skipNewlines rest = rest := skipNewlines_of_ne (by rw [hrest]; simp)
      exact readStmts_cons_eq_ok_iff.2 (.inl ⟨by rw [hskip, hrest], rfl⟩)
  | @cons ls mid s ss hfirst hlength h _ ih =>
    cases bound with
    | nil =>
      rw [List.length_nil] at hbound
      omega
    | cons b bound =>
      rw [readStmts_cons_of_not_layout hfirst]
      cases h with
      | refused hdeep p f hx hf => exact .inr ⟨hdeep, p, f, by rw [hx]; rfl, hf⟩
      | ok s' hx hs' =>
        rw [bind_of_eq_ok hx]
        dsimp only
        rw [List.length_cons] at hbound
        rcases ih (show mid.length ≤ bound.length by omega) with
          ⟨ss', hss, hsame⟩ | ⟨hdeep, p, f, hss, hf⟩
        · exact .inl ⟨s' :: ss', by rw [bind_of_eq_ok hss], .cons hs' hsame⟩
        · exact .inr ⟨hdeep, p, f, by rw [hss]; rfl, hf⟩

end ReadsAll

end ScriptShell
