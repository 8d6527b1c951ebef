import ScriptShell.Proofs.Expr.Built
import ScriptShell.Proofs.Program.Frame

/-!
# ScriptShell.Proofs.Program.Made

From which lexemes a program is made, statement by statement, in the manner of
`ScriptShell.Proofs.Expr.Built`. What can be read off the derivation alone, such as where `return`
stands, is in the rules.

* `Made`: a part of a program and the lexemes that it is made from.
* `made_readBlock`, `made_read`: what is read is made from the lexemes that are taken.
* `made_of_reads`: so is a program.
-/

namespace ScriptShell

/-- A part of a program. -/
inductive Clause where
  /-- The names that a load statement takes over. -/
  | imports (is : List Import)
  /-- The parameters of a function. -/
  | names (ids : List String)
  /-- A statement that holds no other, without the end of its line. -/
  | simple (s : Stmt)
  | stmt (s : Stmt)
  /-- An `if` or `elif`, as the keyword says, with all that belongs to it. -/
  | branch (k : Keyword) (s : Stmt)
  /-- What stands behind the block of a branch. -/
  | otherwise (ss : List Stmt)
  /-- What stands behind a colon. -/
  | block (ss : List Stmt)
  /-- The statements of an indented block, and the outdent behind them. -/
  | stmts (ss : List Stmt)
  | program (ss : List Stmt)

/-- `Made inFunction φ ls rest`: the part `φ`, inside a function or outside, is made from the
lexemes that stand in `ls` before `rest`. A statement has the place of the keyword that it begins
with; an expression statement and an assignment have that of their first lexeme. -/
inductive Made : Bool → Clause → List Lexeme → List Lexeme → Prop
  | noImports {f ls} : Made f (.imports []) ls ls
  | comma {f c rest} (hc : c.token = .mark .comma) : Made f (.imports []) (c :: rest) rest
  | kept {f is t c l ls rest} (hc : c.token = .mark .comma) (hl : l.token = .str t)
      (h : Made f (.imports is) ls rest) : Made f (.imports (⟨t, t⟩ :: is)) (c :: l :: ls) rest
  | renamed {f is id t c i a l ls rest} (hc : c.token = .mark .comma) (hi : i.token = .name id)
      (ha : a.token = .mark .assign) (hl : l.token = .str t) (h : Made f (.imports is) ls rest) :
      Made f (.imports (⟨id, t⟩ :: is)) (c :: i :: a :: l :: ls) rest
  | noNames {f ls} : Made f (.names []) ls ls
  | lastName {f id l rest} (hl : l.token = .name id) : Made f (.names [id]) (l :: rest) rest
  | names {f id ids l c ls rest} (hl : l.token = .name id) (hc : c.token = .mark .comma)
      (h : Made f (.names ids) ls rest) : Made f (.names (id :: ids)) (l :: c :: ls) rest
  | pass {f l rest} (hl : l.token = .keyword .pass) : Made f (.simple .pass) (l :: rest) rest
  | expr {f e ls rest} (he : Built (.whole e) ls rest) :
      Made f (.simple (.expr e (here ls))) ls rest
  | assign {f id p e a ls ms rest} (hid : Built (.whole (.name id p)) ls (a :: ms))
      (ha : a.token = .mark .assign) (he : Built (.whole e) ms rest) :
      Made f (.simple (.assign id e (here ls))) ls rest
  | returnNothing {l rest} (hl : l.token = .keyword .return_) :
      Made true (.simple (.return_ none l.pos)) (l :: rest) rest
  | return_ {e l ls rest} (hl : l.token = .keyword .return_) (he : Built (.whole e) ls rest) :
      Made true (.simple (.return_ (some e) l.pos)) (l :: ls) rest
  | load {m is l o s r ls rest} (hl : l.token = .keyword .load) (ho : o.token = .mark .parenLeft)
      (hs : s.token = .str m) (his : Made false (.imports is) ls (r :: rest))
      (hr : r.token = .mark .parenRight) (hne : is ≠ []) :
      Made false (.simple (.load m is l.pos)) (l :: o :: s :: ls) rest
  | line {f s l ls rest} (h : Made f (.simple s) ls (l :: rest)) (hl : l.token = .newline) :
      Made f (.stmt s) ls rest
  | define {f id ids ss l i o r c ls ms rest} (hl : l.token = .keyword .def_)
      (hi : i.token = .name id) (ho : o.token = .mark .parenLeft)
      (hids : Made f (.names ids) ls (r :: c :: ms)) (hr : r.token = .mark .parenRight)
      (hc : c.token = .mark .colon) (hss : Made true (.block ss) ms rest) :
      Made f (.stmt (.define id ids ss l.pos)) (l :: i :: o :: ls) rest
  | if_ {f s ls rest} (h : Made f (.branch .if_ s) ls rest) : Made f (.stmt s) ls rest
  | while_ {f e ss l c ls ms rest} (hl : l.token = .keyword .while_)
      (he : Built (.whole e) ls (c :: ms)) (hc : c.token = .mark .colon)
      (hss : Made f (.block ss) ms rest) : Made f (.stmt (.while_ e ss l.pos)) (l :: ls) rest
  | branch {f k e ss us l c ls ms ns rest} (hk : k = .if_ ∨ k = .elif) (hl : l.token = .keyword k)
      (he : Built (.whole e) ls (c :: ms)) (hc : c.token = .mark .colon)
      (hss : Made f (.block ss) ms ns) (hus : Made f (.otherwise us) ns rest) :
      Made f (.branch k (.if_ e ss us l.pos)) (l :: ls) rest
  | noElse {f ls} : Made f (.otherwise []) ls ls
  | elif {f s ls rest} (h : Made f (.branch .elif s) ls rest) : Made f (.otherwise [s]) ls rest
  | else_ {f ss l c ls rest} (hl : l.token = .keyword .else_) (hc : c.token = .mark .colon)
      (h : Made f (.block ss) ls rest) : Made f (.otherwise ss) (l :: c :: ls) rest
  | oneLine {f s l ls rest} (h : Made f (.simple s) ls (l :: rest)) (hl : l.token = .newline) :
      Made f (.block [s]) ls rest
  | indented {f ss l i ls rest} (hl : l.token = .newline) (hi : i.token = .indent)
      (h : Made f (.stmts ss) ls rest) : Made f (.block ss) (l :: i :: ls) rest
  | outdent {f l rest} (hl : l.token = .outdent) : Made f (.stmts []) (l :: rest) rest
  | endOfInput {f ls} (h : peek ls = .endOfInput) : Made f (.stmts []) ls ls
  | stmts {f s ss ls ms rest} (hs : Made f (.stmt s) ls ms) (h : Made f (.stmts ss) ms rest) :
      Made f (.stmts (s :: ss)) ls rest
  | done {ls} (h : peek (skipNewlines ls) = .endOfInput) :
      Made false (.program []) ls (skipNewlines ls)
  | program {s ss ls ms rest} (hs : Made false (.stmt s) (skipNewlines ls) ms)
      (h : Made false (.program ss) ms rest) : Made false (.program (s :: ss)) ls rest

variable {n : Nat} {inFunction : Bool} {φ : Clause} {ls rest : List Lexeme}

theorem skipNewlines_suffix (ls : List Lexeme) : skipNewlines ls <:+ ls :=
  List.dropWhile_suffix _

/-- What is left is the end of the list. -/
theorem Made.suffix (h : Made inFunction φ ls rest) : rest <:+ ls := by
  have hcons : ∀ {l : Lexeme} {ms : List Lexeme}, ms <:+ l :: ms := List.suffix_cons _ _
  induction h with
  | noImports => exact List.suffix_refl _
  | comma => exact hcons
  | kept _ _ _ ih => exact (ih.trans hcons).trans hcons
  | renamed _ _ _ _ _ ih => exact (((ih.trans hcons).trans hcons).trans hcons).trans hcons
  | noNames => exact List.suffix_refl _
  | lastName => exact hcons
  | names _ _ _ ih => exact (ih.trans hcons).trans hcons
  | pass => exact hcons
  | expr he => exact he.suffix
  | assign hid _ he => exact he.suffix.trans (hcons.trans hid.suffix)
  | returnNothing => exact hcons
  | return_ _ he => exact he.suffix.trans hcons
  | load _ _ _ _ _ _ ih => exact (((hcons.trans ih).trans hcons).trans hcons).trans hcons
  | line _ _ ih => exact hcons.trans ih
  | define _ _ _ _ _ _ _ ihids ihss =>
    have hms := ihss.trans (hcons.trans (hcons.trans ihids))
    exact ((hms.trans hcons).trans hcons).trans hcons
  | if_ _ ih => exact ih
  | while_ _ he _ _ ih => exact (ih.trans (hcons.trans he.suffix)).trans hcons
  | branch _ _ he _ _ _ ihss ihus =>
    exact (ihus.trans (ihss.trans (hcons.trans he.suffix))).trans hcons
  | noElse => exact List.suffix_refl _
  | elif _ ih => exact ih
  | else_ _ _ _ ih => exact (ih.trans hcons).trans hcons
  | oneLine _ _ ih => exact hcons.trans ih
  | indented _ _ _ ih => exact (ih.trans hcons).trans hcons
  | outdent => exact hcons
  | endOfInput => exact List.suffix_refl _
  | stmts _ _ ihs ih => exact ih.trans ihs
  | done => exact skipNewlines_suffix _
  | program _ _ ihs ih => exact ih.trans (ihs.trans (skipNewlines_suffix _))

/-! ## What is read is made -/

/-- What a reader reads is made from the lexemes that it takes. -/
def Makes {α : Type} (inFunction : Bool) (r : Reader α) (φ : α → Clause) : Prop :=
  ∀ ⦃ls a rest⦄, r ls = .ok (a, rest) → Made inFunction (φ a) ls rest

theorem makes_readImports (p : Pos) : ∀ bound : List Lexeme,
    Makes inFunction (readImports p bound) .imports := by
  intro bound
  induction bound with
  | nil =>
    intro ls is rest h
    cases h
    exact .noImports
  | cons b bound ih =>
    intro ls is rest h
    rcases readImports_cons_eq_ok_iff.1 h with ⟨-, rfl, rfl⟩ | ⟨c, rfl, hc, -, rfl⟩ |
      ⟨c, l, ls', t, is', rfl, hc, hl, his, rfl⟩ |
      ⟨c, i, a, l, ls', id, t, is', rfl, hc, hi, ha, hl, his, rfl⟩
    · exact .noImports
    · exact .comma hc
    · exact .kept hc hl (ih his)
    · exact .renamed hc hi ha hl (ih his)

theorem makes_readNames : ∀ bound : List Lexeme,
    Makes inFunction (readItems readName bound) .names := by
  intro bound
  induction bound with
  | nil =>
    intro ls ids rest h
    cases h
    exact .noNames
  | cons b bound ih =>
    intro ls ids rest h
    rcases readItems_cons_eq_ok_iff.1 h with
      ⟨-, rfl, rfl⟩ | ⟨-, id, hid, -, rfl⟩ | ⟨-, id, c, ls', ids', hid, hc, hids, rfl⟩
    · exact .noNames
    · obtain ⟨l, rfl, hl⟩ := readName_eq_ok_iff.1 hid
      exact .lastName hl
    · obtain ⟨l, rfl, hl⟩ := readName_eq_ok_iff.1 hid
      exact .names hl hc (ih hids)

/-- A statement that holds no other. -/
theorem makes_readSimple : Makes inFunction (readSimple n inFunction) .simple := by
  intro ls s rest h
  rcases readSimple_eq_ok_iff.1 h with ⟨o, rfl, ho, rfl⟩ | ⟨hp, h⟩ | ⟨hp, h⟩ | ⟨-, -, -, h⟩
  · exact .pass ho
  · obtain ⟨rfl, o, ls', rfl, ⟨-, rfl, rfl⟩ | ⟨-, e, he, rfl⟩⟩ := readReturn_eq_ok_iff.1 h
    · exact .returnNothing hp
    · exact .return_ hp (Expr.built_of_read he)
  · obtain ⟨rfl, o, l, m, r, ls', module, is, rfl, hl, hm, his, hr, hne, rfl⟩ :=
      readLoad_eq_ok_iff.1 h
    exact .load hp hl hm (makes_readImports _ _ his) hr (by simpa using hne)
  · rcases readAssignment_eq_ok_iff.1 h with
      ⟨e, he, -, rfl⟩ | ⟨id, p, a, ls', e, hid, ha, he, rfl⟩
    · exact .expr (Expr.built_of_read he)
    · exact .assign (Expr.built_of_read hid) ha (Expr.built_of_read he)

section Blocks

variable {block : Reader (List Stmt)}

theorem makes_readDefine {s : Stmt} (hb : Makes true block .block)
    (hp : peek ls = .keyword .def_) (h : readDefine block ls = .ok (s, rest)) :
    Made inFunction (.stmt s) ls rest := by
  obtain ⟨o, i, l, ls₁, r, c, ls₂, name, params, body, rfl, hi, hl, hparams, hr, hc, hbody, rfl⟩ :=
    readDefine_eq_ok_iff.1 h
  exact .define hp hi hl (makes_readNames _ hparams) hr hc (hb hbody)

/-- An `if` or `elif`, and the branches behind it. -/
theorem makes_readIf (hb : Makes inFunction block .block) : ∀ (bound : List Lexeme) {k : Keyword}
    {ls rest : List Lexeme} {s : Stmt}, k = .if_ ∨ k = .elif → peek ls = .keyword k →
      readIf n block bound ls = .ok (s, rest) → Made inFunction (.branch k s) ls rest := by
  intro bound
  induction bound with
  | nil =>
    intro k ls rest s _ _ h
    exact absurd h refuse_ne_ok
  | cons b bound ih =>
    intro k ls rest s hk hp h
    obtain ⟨l, ls, rfl, hl⟩ := (peek_eq_iff (by simp)).1 hp
    obtain ⟨cond, thenPart, ls', harm, h⟩ := readIf_cons_eq_ok_iff.1 h
    obtain ⟨c, ms, hcond, hc, hthen⟩ := readArm_eq_ok_iff.1 harm
    have hmade : ∀ {elsePart}, Made inFunction (.otherwise elsePart) ls' rest →
        Made inFunction (.branch k (.if_ cond thenPart elsePart l.pos)) (l :: ls) rest :=
      fun helse => .branch hk hl (Expr.built_of_read hcond) hc (hb hthen) helse
    rcases h with ⟨hp, s', hs, rfl⟩ | ⟨o, c', ls'', elsePart, rfl, ho, hc', helse, rfl⟩ |
      ⟨-, -, rfl, rfl⟩
    · exact hmade (.elif (ih (.inr rfl) hp hs))
    · exact hmade (.else_ ho hc' (hb helse))
    · exact hmade .noElse

theorem makes_readWhile {s : Stmt} (hb : Makes inFunction block .block)
    (hp : peek ls = .keyword .while_) (h : readWhile n block ls = .ok (s, rest)) :
    Made inFunction (.stmt s) ls rest := by
  obtain ⟨l, ls, rfl, hl⟩ := (peek_eq_iff (by simp)).1 hp
  obtain ⟨cond, body, harm, rfl⟩ := readWhile_eq_ok_iff.1 h
  obtain ⟨c, ms, hcond, hc, hbody⟩ := readArm_eq_ok_iff.1 harm
  exact .while_ hl (Expr.built_of_read hcond) hc (hb hbody)

end Blocks

theorem makes_readStmtWith {block : Bool → Reader (List Stmt)}
    (hb : ∀ inFunction, Makes inFunction (block inFunction) .block) :
    Makes inFunction (readStmtWith n block inFunction) .stmt := by
  intro ls s rest h
  rcases readStmtWith_eq_ok_iff.1 h with ⟨hp, h⟩ | ⟨hp, h⟩ | ⟨hp, h⟩ | ⟨-, -, -, h⟩
  · exact makes_readDefine (hb true) hp h
  · exact .if_ (makes_readIf (hb inFunction) ls (.inl rfl) hp h)
  · exact makes_readWhile (hb inFunction) hp h
  · obtain ⟨l, hs, hl⟩ := readLine_eq_ok_iff.1 h
    exact .line (makes_readSimple hs) hl

/-- The statements of a block; the bound on their number is never met. -/
theorem makes_readIndented (hs : Makes inFunction (Stmt.read n inFunction) .stmt) :
    ∀ {bound ls rest : List Lexeme} {ss : List Stmt}, ls.length ≤ bound.length →
      readIndented (Stmt.read n inFunction) bound ls = .ok (ss, rest) →
      Made inFunction (.stmts ss) ls rest := by
  intro bound
  induction bound with
  | nil =>
    intro ls rest ss hbound h
    obtain rfl : ls = [] := List.length_eq_zero_iff.1 (Nat.le_zero.1 hbound)
    cases h
    exact .endOfInput rfl
  | cons b bound ih =>
    intro ls rest ss hbound h
    rcases readIndented_cons_eq_ok_iff.1 h with
      ⟨o, rfl, ho, rfl⟩ | ⟨hp, rfl, rfl⟩ | ⟨-, -, s, ls', ss', hread, hss, rfl⟩
    · exact .outdent ho
    · exact .endOfInput hp
    · obtain ⟨hlt, -⟩ := carries_read (π := id) (SameText.refl _) hread
      rw [List.length_cons] at hbound
      exact .stmts (hs hread) (ih (by omega) hss)

theorem makes_readBlock (n : Nat) : ∀ inFunction,
    Makes inFunction (readBlock n inFunction) .block := by
  induction n with
  | zero =>
    intro inFunction ls ss rest h
    obtain ⟨_, hn, -⟩ := readBlock_eq_ok_iff.1 h
    cases hn
  | succ n ih =>
    intro inFunction ls ss rest h
    obtain ⟨m, hm, h⟩ := readBlock_eq_ok_iff.1 h
    cases hm
    rcases h with ⟨a, b, ls', rfl, ha, hb, h⟩ | ⟨-, s, hs, rfl⟩
    · exact .indented ha hb (makes_readIndented (makes_readStmtWith ih) (by simp; omega) h)
    · obtain ⟨l, hs, hl⟩ := readLine_eq_ok_iff.1 hs
      exact .oneLine (makes_readSimple hs) hl

/-- A statement is made from the lexemes that are taken. -/
theorem makes_read : Makes inFunction (Stmt.read n inFunction) .stmt :=
  makes_readStmtWith (makes_readBlock n)

/-- A program is made from its lexemes. -/
theorem made_of_reads {p : Program} (h : Reads ls p) : ∃ rest, Made false (.program p) ls rest := by
  induction h with
  | done hp => exact ⟨_, .done hp⟩
  | more _ hs _ ih =>
    obtain ⟨rest, hrest⟩ := ih
    exact ⟨rest, .program (makes_read hs) hrest⟩

end ScriptShell
