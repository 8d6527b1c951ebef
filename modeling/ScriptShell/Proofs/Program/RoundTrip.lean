import ScriptShell.Proofs.Program.ReadBack

/-!
# ScriptShell.Proofs.Program.RoundTrip

Parsing undoes printing. The tokens of printed lines are read back statement by statement and block
by block. Levels of nesting enough are left where the blocks around every line and three times the
height of its expression stay below the number of levels that there was.

* `Part.Reads`: what it is to read a part of a program back.
* `Laid.reads`: the lines of a part are read back.
* `parseProgram_print`: a printed program is read back.
-/

namespace ScriptShell

variable {shallow : Prop} {wrap inFunction : Bool} {n : Nat} {us rest : List Lexeme}
  {e : Expr} {s : Stmt} {ss : List Stmt} {ws : List Nat} {w : Nat} {ls : List Line}

/-! ## Blocks and headers -/

/-- Read what stands behind the first block of an `if`. -/
def readElse (n : Nat) (block : Reader (List Stmt)) (bound : List Lexeme) : Reader (List Stmt) :=
  fun ls => match peek ls with
  | .keyword .elif => do
    let (s, ls) ← readIf n block bound ls
    .ok ([s], ls)
  | .keyword .else_ => do
    let ls ← expect (.mark .colon) ls.tail
    block ls
  | _ => .ok ([], ls)

theorem readIf_cons {block : Reader (List Stmt)} {b o : Lexeme} {bound ms : List Lexeme} :
    readIf n block (b :: bound) (o :: ms) = (do
      let ((cond, thenPart), ls) ← readArm n block ms
      let (elsePart, ls) ← readElse n block bound ls
      .ok (.if_ cond thenPart elsePart o.pos, ls)) := by
  rw [readIf]
  dsimp only [List.tail_cons, here]
  refine congrArg (readArm n block ms >>= ·) (funext ?_)
  rintro ⟨⟨cond, thenPart⟩, ls⟩
  dsimp only [readElse]
  by_cases helif : peek ls = .keyword .elif
  · simp only [helif]
    cases readIf n block bound ls <;> rfl
  by_cases helse : peek ls = .keyword .else_
  · simp only [helse]
    cases expect (.mark .colon) ls.tail <;> rfl
  · simp only
    rfl

/-- What is read of a part of a program: off `us ++ rest`, with `n` levels left, it is the part, and
`rest` is left. -/
def Part.Reads (shallow : Prop) (n : Nat) (inFunction : Bool) (us rest : List Lexeme) :
    Part → Prop
  | .stmt s =>
    Obtains shallow (Stmt.read n inFunction (us ++ rest)) rest (s.Same Pos.forget)
  | .stmts ss => ReadsAll shallow n inFunction rest (us ++ rest) ss
  | .branch _ cond thenPart elsePart => ∀ bound : List Lexeme, us.length ≤ bound.length →
    Obtains shallow (readIf n (readBlock n inFunction) bound (us ++ rest)) rest
      (Stmt.Same Pos.forget (.if_ cond thenPart elsePart .start))
  | .otherwise elsePart => ∀ bound : List Lexeme, us.length ≤ bound.length →
    Obtains shallow (readElse n (readBlock n inFunction) bound (us ++ rest)) rest
      (SameBlock Pos.forget elsePart)

/-- A block below its header is read back with one level more than its statements. -/
theorem Laid.obtains_block_succ (h : Laid wrap (w :: ws) (.stmts ss) ls) (hne : ss ≠ [])
    (hreads : ∀ {vs rest}, tokens vs = lineTokens (w :: ws) ls (w :: ws) →
      (peek rest).continuesIf = false → (Part.stmts ss).Reads shallow n inFunction vs rest)
    (hus : tokens us = .newline :: lineTokens ws ls ws) :
    Obtains shallow (readBlock (n + 1) inFunction (us ++ rest)) rest
      (SameBlock Pos.forget ss) := by
  rw [lineTokens_block (h.ne_nil hne) h.starts] at hus
  obtain ⟨l, us, rfl, hl, hus⟩ := tokens_eq_cons_iff.1 hus
  obtain ⟨i, us, rfl, hi, hus⟩ := tokens_eq_cons_iff.1 hus
  obtain ⟨vs, os, rfl, hvs, hos⟩ := tokens_eq_append_iff.1 hus
  obtain ⟨o, os, rfl, ho, hos⟩ := tokens_eq_cons_iff.1 hos
  obtain rfl := List.map_eq_nil_iff.1 hos
  have hall : (Part.stmts ss).Reads shallow n inFunction vs (o :: rest) :=
    hreads hvs (by rw [peek, ho]; rfl)
  rw [show l :: i :: (vs ++ [o]) ++ rest = l :: i :: (vs ++ o :: rest) by simp]
  exact hall.obtains_block hl hi ho

/-- A block below its header is read back, if its statements are with a level less. -/
theorem Laid.obtains_block {N : Nat} (h : Laid wrap (w :: ws) (.stmts ss) ls) (hne : ss ≠ [])
    (hfits : shallow → ∀ l ∈ ls, l.around.length + 3 * l.height < N) (hn : n + ws.length = N)
    (ih : ∀ {m vs rest}, m + (w :: ws).length = N →
      tokens vs = lineTokens (w :: ws) ls (w :: ws) → (peek rest).continuesIf = false →
      (Part.stmts ss).Reads shallow m inFunction vs rest)
    (hus : tokens us = .newline :: lineTokens ws ls ws) :
    Obtains shallow (readBlock n inFunction (us ++ rest)) rest (SameBlock Pos.forget ss) := by
  cases n with
  | zero =>
    refine .refused (fun hs => ?_) _ _ rfl (.inr rfl)
    obtain ⟨l, hl⟩ := List.exists_mem_of_ne_nil ls (h.ne_nil hne)
    have hlength := (h.starts.inside l hl).length_le
    have hlt := hfits hs l hl
    rw [List.length_cons] at hlength
    omega
  | succ n => exact h.obtains_block_succ hne (ih (by rw [List.length_cons]; omega)) hus

theorem obtains_arm {block : Reader (List Stmt)} {c : Lexeme} {ms : List Lexeme}
    (hus : tokens us = e.tokens wrap) (hc : c.token = .mark .colon)
    (hlow : shallow → 3 * e.height < n)
    (hblock : Obtains shallow (block ms) rest (SameBlock Pos.forget ss)) :
    Obtains shallow (readArm n block (us ++ c :: ms)) rest
      (fun arm => e.Same Pos.forget arm.1 ∧ SameBlock Pos.forget ss arm.2) := by
  refine (obtains_expr hus (by rw [peek, hc]; rfl) hlow).bind fun e' he => ?_
  dsimp only
  rw [bind_of_eq_ok (expect_cons hc)]
  exact hblock.andThen fun ss' hss => ⟨(e', ss'), rfl, he, hss⟩

theorem readItems_names {params : List String} {bound : List Lexeme}
    (hus : tokens us = [.mark .comma].intercalate (params.map fun x => [.name x]))
    (hrest : peek rest = .mark .parenRight) (hbound : us.length < bound.length) :
    readItems readName bound (us ++ rest) = .ok (params, rest) := by
  induction params generalizing us bound with
  | nil =>
    obtain rfl := List.map_eq_nil_iff.1 hus
    cases bound with
    | nil => cases hbound
    | cons b bound => exact readItems_cons_eq_ok_iff.2 (.inl ⟨hrest, rfl, rfl⟩)
  | cons x params ih =>
    have hname : ∀ {l : Lexeme} {ms}, l.token = .name x →
        peek (l :: ms) ≠ .mark .parenRight ∧ readName (l :: ms) = .ok (x, ms) :=
      fun hl => ⟨by simp [peek, hl], readName_eq_ok_iff.2 ⟨_, rfl, hl⟩⟩
    cases bound with
    | nil => cases hbound
    | cons b bound =>
      cases params with
      | nil =>
        obtain ⟨l, us, rfl, hl, hus⟩ := tokens_eq_cons_iff.1 hus
        obtain rfl := List.map_eq_nil_iff.1 hus
        refine readItems_cons_eq_ok_iff.2 (.inr (.inl ⟨(hname hl).1, x, (hname hl).2, ?_, rfl⟩))
        exact fun h => by cases hrest.symm.trans h
      | cons y params =>
        rw [List.map_cons, List.map_cons, List.intercalate_cons_cons] at hus
        obtain ⟨l, us, rfl, hl, hus⟩ := tokens_eq_cons_iff.1 hus
        obtain ⟨c, us, rfl, hc, hus⟩ := tokens_eq_cons_iff.1 hus
        refine readItems_cons_eq_ok_iff.2 (.inr (.inr ⟨(hname hl).1, x, c, us ++ rest, _,
          (hname hl).2, hc, ih hus ?_, rfl⟩))
        simp only [List.length_cons] at hbound
        omega

theorem readDefine_eq {name : String} {params : List String}
    (hus : tokens us = defineTokens name params) (block : Reader (List Stmt)) (ms : List Lexeme) :
    ∃ p, readDefine block (us ++ ms) =
      (block ms >>= fun (body, ls) => .ok (.define name params body p, ls)) := by
  obtain ⟨o, us, rfl, -, hus⟩ := tokens_eq_cons_iff.1 hus
  obtain ⟨i, us, rfl, hi, hus⟩ := tokens_eq_cons_iff.1 hus
  obtain ⟨l, us, rfl, hl, hus⟩ := tokens_eq_cons_iff.1 hus
  obtain ⟨us, vs, rfl, hparams, hvs⟩ := tokens_eq_append_iff.1 hus
  obtain ⟨r, vs, rfl, hr, hvs⟩ := tokens_eq_cons_iff.1 hvs
  obtain ⟨c, vs, rfl, hc, hvs⟩ := tokens_eq_cons_iff.1 hvs
  obtain rfl := List.map_eq_nil_iff.1 hvs
  have hitems : readItems readName (us ++ r :: c :: ms) (us ++ r :: c :: ms) =
      .ok (params, r :: c :: ms) := by
    refine readItems_names hparams hr ?_
    simp only [List.length_append, List.length_cons]
    omega
  refine ⟨o.pos, ?_⟩
  have heq : o :: i :: l :: (us ++ [r, c]) ++ ms = o :: i :: l :: (us ++ r :: c :: ms) := by simp
  rw [heq, readDefine, List.tail_cons, bind_of_eq_ok (readName_eq_ok_iff.2 ⟨i, rfl, hi⟩)]
  dsimp only
  rw [bind_of_eq_ok (expect_cons hl), bind_of_eq_ok hitems]
  dsimp only
  rw [bind_of_eq_ok (expect_cons hr), bind_of_eq_ok (expect_cons hc)]
  rfl

/-! ## Statements with blocks -/

theorem obtains_simple {ts : List Token} (h : Stmt.Laid wrap s ts)
    (hs : s.isPrintable inFunction = true) (hlow : shallow → 3 * s.tallest < n)
    (hus : tokens us = ts ++ [.newline]) :
    Obtains shallow (Stmt.read n inFunction (us ++ rest)) rest (s.Same Pos.forget) := by
  obtain ⟨ms, os, rfl, hms, hos⟩ := tokens_eq_append_iff.1 hus
  obtain ⟨o, os, rfl, ho, hos⟩ := tokens_eq_cons_iff.1 hos
  obtain rfl := List.map_eq_nil_iff.1 hos
  obtain ⟨t, vs, hts, -, hplain⟩ := h.first
  rw [List.append_assoc, List.singleton_append,
    read_of_plain (by rw [peek_of_tokens (hms.trans hts)]; exact hplain), readLine]
  refine (h.obtains hs hms (show peek (o :: rest) = .newline from ho) hlow).andThen fun s' hs' =>
    ⟨s', ?_, hs'⟩
  dsimp only
  rw [bind_of_eq_ok (expect_cons ho)]

theorem obtains_define {name : String} {params : List String} {p : Pos} {ms : List Lexeme}
    (hus : tokens us = defineTokens name params)
    (hblock : Obtains shallow (readBlock n true ms) rest (SameBlock Pos.forget ss)) :
    Obtains shallow (Stmt.read n inFunction (us ++ ms)) rest
      (Stmt.Same Pos.forget (.define name params ss p)) := by
  have hread : Stmt.read n inFunction (us ++ ms) = readDefine (readBlock n true) (us ++ ms) := by
    rw [Stmt.read, readStmtWith]
    simp only [peek_of_tokens (show tokens us = .keyword .def_ :: _ from hus)]
  obtain ⟨q, hdefine⟩ := readDefine_eq hus (readBlock n true) ms
  rw [hread, hdefine]
  refine hblock.andThen fun body hbody => ⟨.define name params body q, rfl, ?_⟩
  simp only [Stmt.Same, Stmt.mapPos_define, hbody.map_eq]
  rfl

theorem tokens_eq_arm {k : Keyword} {cond : Expr} (hus : tokens us = armTokens wrap k cond) :
    ∃ o vs c, us = o :: (vs ++ [c]) ∧ o.token = .keyword k ∧ tokens vs = cond.tokens wrap ∧
      c.token = .mark .colon := by
  obtain ⟨o, us, rfl, ho, hus⟩ := tokens_eq_cons_iff.1 hus
  obtain ⟨vs, cs, rfl, hvs, hcs⟩ := tokens_eq_append_iff.1 hus
  obtain ⟨c, cs, rfl, hc, hcs⟩ := tokens_eq_cons_iff.1 hcs
  obtain rfl := List.map_eq_nil_iff.1 hcs
  exact ⟨o, vs, c, rfl, ho, hvs, hc⟩

theorem obtains_while {p : Pos} {ms : List Lexeme} (hus : tokens us = armTokens wrap .while_ e)
    (hlow : shallow → 3 * e.height < n)
    (hblock : Obtains shallow (readBlock n inFunction ms) rest (SameBlock Pos.forget ss)) :
    Obtains shallow (Stmt.read n inFunction (us ++ ms)) rest
      (Stmt.Same Pos.forget (.while_ e ss p)) := by
  have hread : Stmt.read n inFunction (us ++ ms) =
      readWhile n (readBlock n inFunction) (us ++ ms) := by
    rw [Stmt.read, readStmtWith]
    simp only [peek_of_tokens (show tokens us = .keyword .while_ :: _ from hus)]
  obtain ⟨o, vs, c, rfl, -, hvs, hc⟩ := tokens_eq_arm hus
  rw [hread, List.cons_append, List.append_assoc, List.singleton_append, readWhile, List.tail_cons]
  refine (obtains_arm hvs hc hlow hblock).andThen fun arm harm =>
    ⟨.while_ arm.1 arm.2 o.pos, rfl, ?_⟩
  simp only [Stmt.Same, Stmt.mapPos_while, harm.2.map_eq]
  rw [harm.1]
  rfl

theorem obtains_if {p : Pos} {thenPart elsePart : List Stmt}
    (hpeek : peek (us ++ rest) = .keyword .if_)
    (h : (Part.branch .if_ e thenPart elsePart).Reads shallow n inFunction us rest) :
    Obtains shallow (Stmt.read n inFunction (us ++ rest)) rest
      (Stmt.Same Pos.forget (.if_ e thenPart elsePart p)) := by
  have hread : Stmt.read n inFunction (us ++ rest) =
      readIf n (readBlock n inFunction) (us ++ rest) (us ++ rest) := by
    rw [Stmt.read, readStmtWith]
    simp only [hpeek]
  rw [hread]
  have hsame : ∀ {s' : Stmt}, Stmt.Same Pos.forget (.if_ e thenPart elsePart .start) s' →
      Stmt.Same Pos.forget (.if_ e thenPart elsePart p) s' := fun h => h
  cases h (us ++ rest) (by simp) with
  | ok s' hx hs' => exact .ok s' hx (hsame hs')
  | refused hdeep q f hx hf => exact .refused hdeep q f hx hf

theorem reads_branch {k : Keyword} {thenPart elsePart : List Stmt} {vs ms : List Lexeme}
    (hus : tokens us = armTokens wrap k e) (hlow : shallow → 3 * e.height < n)
    (hthen : Obtains shallow (readBlock n inFunction (vs ++ (ms ++ rest))) (ms ++ rest)
      (SameBlock Pos.forget thenPart))
    (helse : (Part.otherwise elsePart).Reads shallow n inFunction ms rest) :
    (Part.branch k e thenPart elsePart).Reads shallow n inFunction (us ++ (vs ++ ms)) rest := by
  intro bound hbound
  obtain ⟨o, cs, c, rfl, -, hcs, hc⟩ := tokens_eq_arm hus
  simp only [List.cons_append, List.length_cons, List.length_append] at hbound
  cases bound with
  | nil =>
    rw [List.length_nil] at hbound
    omega
  | cons b bound =>
    have heq : o :: (cs ++ [c]) ++ (vs ++ ms) ++ rest = o :: (cs ++ c :: (vs ++ (ms ++ rest))) := by
      simp
    rw [heq, readIf_cons]
    refine (obtains_arm hcs hc hlow hthen).bind fun arm harm => ?_
    dsimp only
    rw [List.length_cons] at hbound
    refine (helse bound (by omega)).andThen fun elsePart' helse' =>
      ⟨.if_ arm.1 arm.2 elsePart' o.pos, rfl, ?_⟩
    simp only [Stmt.Same, Stmt.mapPos_if, harm.2.map_eq, helse'.map_eq]
    rw [harm.1]
    rfl

theorem reads_noElse (hrest : (peek rest).continuesIf = false) :
    (Part.otherwise []).Reads shallow n inFunction [] rest := by
  intro bound _
  refine .ok [] ?_ .nil
  rw [List.nil_append, readElse]
  split
  · rename_i hp
    rw [hp] at hrest
    cases hrest
  · rename_i hp
    rw [hp] at hrest
    cases hrest
  · rfl

theorem reads_elif {p : Pos} {thenPart elsePart : List Stmt}
    (hpeek : peek (us ++ rest) = .keyword .elif)
    (h : (Part.branch .elif e thenPart elsePart).Reads shallow n inFunction us rest) :
    (Part.otherwise [.if_ e thenPart elsePart p]).Reads shallow n inFunction us rest := by
  intro bound hbound
  rw [readElse]
  simp only [hpeek]
  exact (h bound hbound).andThen fun s' hs' => ⟨[s'], rfl, .cons hs' .nil⟩

theorem reads_else {vs : List Lexeme} (hus : tokens us = [.keyword .else_, .mark .colon])
    (hblock : Obtains shallow (readBlock n inFunction (vs ++ rest)) rest
      (SameBlock Pos.forget ss)) :
    (Part.otherwise ss).Reads shallow n inFunction (us ++ vs) rest := by
  intro bound _
  obtain ⟨o, us, rfl, ho, hus⟩ := tokens_eq_cons_iff.1 hus
  obtain ⟨c, us, rfl, hc, hus⟩ := tokens_eq_cons_iff.1 hus
  obtain rfl := List.map_eq_nil_iff.1 hus
  have hpeek : peek ([o, c] ++ vs ++ rest) = .keyword .else_ := ho
  rw [readElse]
  simp only [hpeek]
  rw [List.cons_append, List.cons_append, List.tail_cons, List.cons_append, List.nil_append,
    List.cons_append, bind_of_eq_ok (expect_cons hc)]
  exact hblock

/-! ## Printed programs are read back -/

theorem tokens_eq_line {ts : List Token} {k : Nat} {vs : List Nat}
    (hus : tokens us = lineTokens ws (⟨ws, ts, k⟩ :: ls) vs) :
    ∃ ms ns, us = ms ++ ns ∧ tokens ms = ts ∧ tokens ns = .newline :: lineTokens ws ls vs := by
  rw [lineTokens_cons (l := ⟨ws, ts, k⟩) rfl] at hus
  exact tokens_eq_append_iff.1 hus

theorem Laid.peek_branch {k : Keyword} {thenPart elsePart : List Stmt}
    (h : Laid wrap ws (.branch k e thenPart elsePart) ls) (hus : tokens us = lineTokens ws ls ws) :
    peek (us ++ rest) = .keyword k := by
  cases h with
  | branch =>
    obtain ⟨ms, ns, rfl, hms, -⟩ := tokens_eq_line hus
    rw [List.append_assoc]
    exact peek_of_tokens hms

/-- The lines of a part are read back, as far as levels are left: every block around a line has
taken one of the `N` that there were. -/
theorem Laid.reads {N : Nat} {φ : Part} (h : Laid wrap ws φ ls) :
    ∀ {inFunction n us rest}, φ.isPrintable inFunction = true →
      (shallow → ∀ l ∈ ls, l.around.length + 3 * l.height < N) → n + ws.length = N →
      tokens us = lineTokens ws ls ws → (peek rest).continuesIf = false →
      φ.Reads shallow n inFunction us rest := by
  induction h with
  | simple h =>
    intro inFunction n us rest hφ hfits hn hus _
    refine obtains_simple h hφ (fun hs => ?_) (by simpa [lineTokens, layoutTokens_self] using hus)
    have := hfits hs _ List.mem_cons_self
    dsimp only at this
    omega
  | define hw h ih =>
    intro inFunction n us rest hφ hfits hn hus _
    obtain ⟨ms, ns, rfl, hms, hns⟩ := tokens_eq_line hus
    simp only [Part.isPrintable, Stmt.isPrintable, Bool.and_eq_true] at hφ
    have hfits' := fun hs => (List.forall_mem_cons.1 (hfits hs)).2
    show Obtains _ (Stmt.read n inFunction (ms ++ ns ++ rest)) _ _
    rw [List.append_assoc]
    exact obtains_define hms
      (h.obtains_block (by simpa using hφ.1.2) hfits' hn (ih hφ.2 hfits') hns)
  | while_ hw h ih =>
    intro inFunction n us rest hφ hfits hn hus _
    obtain ⟨ms, ns, rfl, hms, hns⟩ := tokens_eq_line hus
    simp only [Part.isPrintable, Stmt.isPrintable, Bool.and_eq_true] at hφ
    have hfits' := fun hs => (List.forall_mem_cons.1 (hfits hs)).2
    have hlow := fun hs => (List.forall_mem_cons.1 (hfits hs)).1
    show Obtains _ (Stmt.read n inFunction (ms ++ ns ++ rest)) _ _
    rw [List.append_assoc]
    exact obtains_while hms (fun hs => by have := hlow hs; dsimp only at this; omega)
      (h.obtains_block (by simpa using hφ.1.2) hfits' hn (ih hφ.2 hfits') hns)
  | if_ h ih =>
    intro inFunction n us rest hφ hfits hn hus hrest
    exact obtains_if (h.peek_branch hus) (ih hφ hfits hn hus hrest)
  | branch hw hthen helse ihthen ihelse =>
    intro inFunction n us rest hφ hfits hn hus hrest
    obtain ⟨ms, ns, rfl, hms, hns⟩ := tokens_eq_line hus
    rw [lineTokens_append hthen.starts.outer (List.suffix_refl _) helse.starts] at hns
    obtain ⟨vs, es, rfl, hvs, hes⟩ :=
      tokens_eq_append_iff.1 (show tokens ns = (.newline :: lineTokens _ _ _) ++ _ from hns)
    simp only [Part.isPrintable, Bool.and_eq_true] at hφ
    have hlow := fun hs => (List.forall_mem_cons.1 (hfits hs)).1
    have hthen' := fun hs => (List.forall_mem_append.1 (List.forall_mem_cons.1 (hfits hs)).2).1
    have helse' := fun hs => (List.forall_mem_append.1 (List.forall_mem_cons.1 (hfits hs)).2).2
    exact reads_branch hms (fun hs => by have := hlow hs; dsimp only at this; omega)
      (hthen.obtains_block (by simpa using hφ.1.1.2) hthen' hn (ihthen hφ.1.2 hthen') hvs)
      (ihelse hφ.2 helse' hn hes hrest)
  | noElse =>
    intro inFunction n us rest _ _ _ hus hrest
    rw [lineTokens_nil] at hus
    obtain rfl := List.map_eq_nil_iff.1 hus
    exact reads_noElse hrest
  | elif h ih =>
    intro inFunction n us rest hφ hfits hn hus hrest
    simp only [Part.isPrintable, Stmt.isPrintable.blockPrintable, Bool.and_true] at hφ
    exact reads_elif (h.peek_branch hus) (ih hφ hfits hn hus hrest)
  | else_ hne hw h ih =>
    intro inFunction n us rest hφ hfits hn hus _
    obtain ⟨ms, ns, rfl, hms, hns⟩ := tokens_eq_line hus
    have hfits' := fun hs => (List.forall_mem_cons.1 (hfits hs)).2
    exact reads_else hms (h.obtains_block hne hfits' hn (ih hφ hfits') hns)
  | noStmts =>
    intro inFunction n us rest _ _ _ hus _
    rw [lineTokens_nil] at hus
    obtain rfl := List.map_eq_nil_iff.1 hus
    exact .nil
  | stmts h hs ih ihs =>
    intro inFunction n us rest hφ hfits hn hus hrest
    rw [lineTokens_append h.starts.inside (List.suffix_refl _) hs.starts] at hus
    obtain ⟨vs, us, rfl, hvs, hmore⟩ := tokens_eq_append_iff.1 hus
    simp only [Part.isPrintable, Stmt.isPrintable.blockPrintable, Bool.and_eq_true] at hφ
    have hfits₁ := fun hs => (List.forall_mem_append.1 (hfits hs)).1
    have hfits₂ := fun hs => (List.forall_mem_append.1 (hfits hs)).2
    have hfirst := h.first hvs (us ++ rest)
    rw [Token.startsStmt, Bool.and_eq_true, Bool.not_eq_true'] at hfirst
    have hlength := length_pos_of_startsStmt (h.first hvs [])
    show ReadsAll shallow n inFunction rest (vs ++ us ++ rest) _
    rw [List.append_assoc]
    refine .cons hfirst.1 ?_ (ih hφ.1 hfits₁ hn hvs (hs.continuesIf hmore hrest))
      (ihs hφ.2 hfits₂ hn hmore hrest)
    simp only [List.length_append]
    omega

/-- Parsing undoes printing. However a program was printed, what is read is the program itself,
places aside, or the text is refused because it is nested too deeply; and it is not refused if for
every statement, on the line that it begins with, the number of blocks around it and three times the
height of its tallest expression are together no more than 190. A line that begins no statement,
which is that of an `else`, has less around it than the block below it. -/
theorem parseProgram_print (file : String) {p : Program} {text : String}
    (hp : p.isPrintable = true) (h : Laid wrap [] (.stmts p) ls) (htext : Written ls text.toList) :
    ((∃ p', parseProgram file text = .ok p' ∧ SameBlock Pos.forget p p') ∨
      ∃ q, parseProgram file text = .error (.parse ⟨file, q⟩ "expression nested too deeply") ∨
        parseProgram file text = .error (.parse ⟨file, q⟩ "block nested too deeply")) ∧
    ((∀ l ∈ ls, l.around.length + 3 * l.height ≤ 190) →
      ∃ p', parseProgram file text = .ok p' ∧ SameBlock Pos.forget p p') := by
  obtain ⟨ms, hscan, hms⟩ := scan_written hp h htext
  obtain ⟨us, es, rfl, hus, hes⟩ := tokens_eq_append_iff.1 hms
  obtain ⟨o, es, rfl, ho, hes⟩ := tokens_eq_cons_iff.1 hes
  obtain rfl := List.map_eq_nil_iff.1 hes
  have hparse : Program.parse text = readStmts (us ++ [o]) (us ++ [o]) := by
    rw [Program.parse, bind_of_eq_ok hscan]
  have hreads : (Part.stmts p).Reads (∀ l ∈ ls, l.around.length + 3 * l.height ≤ 190) maxNesting
      false us [o] :=
    h.reads hp (fun hs l hl => Nat.lt_of_le_of_lt (hs l hl) (by decide)) rfl hus
      (by rw [peek, ho]; rfl)
  rcases hreads.obtains_stmts ho (Nat.le_refl _) with ⟨p', hp', hsame⟩ | ⟨hdeep, q, f, hf, hfault⟩
  · have hok : parseProgram file text = .ok p' := by
      rw [parseProgram, hparse, hp']
      rfl
    exact ⟨.inl ⟨p', hok, hsame⟩, fun _ => ⟨p', hok, hsame⟩⟩
  · have herror : parseProgram file text = .error (.parse ⟨file, q⟩ f.message) := by
      rw [parseProgram, hparse, hf]
      rfl
    refine ⟨.inr ⟨q, ?_⟩, fun hs => absurd hs hdeep⟩
    rcases hfault with rfl | rfl
    · exact .inl herror
    · exact .inr herror

theorem Written.of_eq {cs ds : List Char} (h : Written ls cs) (hcs : cs = ds) : Written ls ds :=
  hcs ▸ h

/-- A program that takes over a name, and defines a function with an `if` and an `elif`. -/
def branchingProgram : Program :=
  [.load "lib" [⟨"f", "f"⟩] .start,
   .define "g" ["a", "b"]
    [.if_ (.binary .lt (.name "a" .start) (.int ⟨10, by decide, by decide⟩) .start)
      [.return_ (some (.call (.name "f" .start) [.name "a" .start] .start)) .start]
      [.if_ (.unary .not (.name "b" .start) .start) [.pass] [] .start] .start] .start]

/-- The program, printed with blocks of several widths. -/
def branchingText : String :=
  "load(\"lib\", \"f\")\ndef g(a, b):\n  if a<10:\n      return f(a)\n  elif not b:\n   pass"

theorem parseProgram_print_branching : ∃ p',
    parseProgram "main" branchingText = .ok p' ∧ SameBlock Pos.forget branchingProgram p' := by
  have hlaid : Laid false [] (.stmts branchingProgram) _ :=
    .stmts (.simple (.load _ _ (.cons (.kept _) .nil)))
      (.stmts (.define (w := 2) (by decide) (.stmts (.if_ (.branch (w := 6) (by decide)
        (.stmts (.simple (.return_ _ _)) .noStmts)
        (.elif (.branch (w := 3) (by decide) (.stmts (.simple .pass) .noStmts) .noElse))))
        .noStmts)) .noStmts)
  refine (parseProgram_print "main" (by decide) hlaid ?_).2 (by decide)
  exact (Written.cons (.beside (by decide) (.beside (by decide) (.beside (by decide)
      (.apart (.beside (by decide) (.beside (by decide) .nil))))))
    (.cons (.apart (.beside (by decide) (.beside (by decide) (.beside (by decide)
      (.apart (.beside (by decide) (.beside (by decide) (.beside (by decide) .nil))))))))
    (.cons (.apart (.beside (by decide) (.beside (by decide) (.beside (by decide)
      (.beside (by decide) .nil)))))
    (.cons (.apart (.beside (by decide) (.beside (by decide) (.beside (by decide)
      (.beside (by decide) .nil)))))
    (.cons (.apart (.apart (.beside (by decide) (.beside (by decide) .nil))))
    (.last (.beside (by decide) .nil)))))) : Written _ _).of_eq rfl

end ScriptShell
