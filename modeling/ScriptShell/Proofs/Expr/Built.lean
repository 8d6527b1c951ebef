import ScriptShell.Proofs.Expr.Grammar

/-!
# ScriptShell.Proofs.Expr.Built

From which lexemes an expression is built, and which of them made which node. The grammar here is
looser than the one that the readers follow (how tightly operators bind is left out), but it is
about lexemes, and so about places.

* `Built`: a part of an expression and the lexemes that it is built from.
* `Expr.built_of_read`: what is read is built from the lexemes that are taken.
* `Built.suffix`, `Built.opens`: what is left, and how an expression begins.
* `AllStand`: something holds of every lexeme of a list, and so of those in any part of it.
-/

namespace ScriptShell

/-- A part of an expression. -/
inductive Piece where
  | whole (e : Expr)
  /-- The arguments of a call. -/
  | items (es : List Expr)

/-- `Built φ ls rest`: the part `φ` is built from the lexemes that stand in `ls` before `rest`. A
node has the place of the lexeme that made it: a name its own; an operator node that of the
operator, which stands before its operand or between its operands; a call that of the parenthesis
which opens its arguments. -/
inductive Built : Piece → List Lexeme → List Lexeme → Prop
  | leaf {e l rest} (h : l.leaf? = some e) : Built (.whole e) (l :: rest) rest
  | parens {e l r ls rest} (hl : l.token = .mark .parenLeft)
      (h : Built (.whole e) ls (r :: rest)) (hr : r.token = .mark .parenRight) :
      Built (.whole e) (l :: ls) rest
  | unary {op e l ls rest} (hl : l.token = UnaryOp.token op) (h : Built (.whole e) ls rest) :
      Built (.whole (.unary op e l.pos)) (l :: ls) rest
  | binary {op a b l ls ms rest} (ha : Built (.whole a) ls (l :: ms))
      (hl : l.token = BinaryOp.token op) (hb : Built (.whole b) ms rest) :
      Built (.whole (.binary op a b l.pos)) ls rest
  | call {f args l r ls ms rest} (hf : Built (.whole f) ls (l :: ms))
      (hl : l.token = .mark .parenLeft) (hargs : Built (.items args) ms (r :: rest))
      (hr : r.token = .mark .parenRight) : Built (.whole (.call f args l.pos)) ls rest
  | noItems {ls} : Built (.items []) ls ls
  | lastItem {e ls rest} (h : Built (.whole e) ls rest) : Built (.items [e]) ls rest
  | items {e es l ls ms rest} (he : Built (.whole e) ls (l :: ms)) (hl : l.token = .mark .comma)
      (h : Built (.items es) ms rest) : Built (.items (e :: es)) ls rest

namespace Built

variable {φ : Piece} {e : Expr} {ls rest : List Lexeme}

/-- What is left is the end of the list. -/
theorem suffix (h : Built φ ls rest) : rest <:+ ls := by
  induction h with
  | leaf => exact List.suffix_cons _ _
  | parens _ _ _ ih => exact ((List.suffix_cons _ _).trans ih).trans (List.suffix_cons _ _)
  | unary _ _ ih => exact ih.trans (List.suffix_cons _ _)
  | binary _ _ _ iha ihb => exact ihb.trans ((List.suffix_cons _ _).trans iha)
  | call _ _ _ _ ihf ihargs =>
    exact ((List.suffix_cons _ _).trans ihargs).trans ((List.suffix_cons _ _).trans ihf)
  | noItems => exact List.suffix_refl _
  | lastItem _ ih => exact ih
  | items _ _ _ ihe ih => exact ih.trans ((List.suffix_cons _ _).trans ihe)

/-- An expression begins with a token that can be the first of one. -/
theorem opens (h : Built (.whole e) ls rest) : (peek ls).opensExpr = true := by
  generalize hφ : Piece.whole e = φ at h
  induction h generalizing e with
  | leaf h => exact opensExpr_of_leaf h
  | parens hl => simp [peek, hl, Token.opensExpr]
  | @unary op _ l _ _ hl =>
    rw [peek, hl]
    cases op <;> rfl
  | binary _ _ _ iha => exact iha rfl
  | call _ _ _ _ ihf => exact ihf rfl
  | _ => cases hφ

end Built

/-- The relation holds between the place and the token of every lexeme. -/
def AllStand (stands : Pos → Token → Prop) (ls : List Lexeme) : Prop :=
  ∀ l ∈ ls, stands l.pos l.token

namespace AllStand

variable {stands : Pos → Token → Prop} {l : Lexeme} {ls ms : List Lexeme}

theorem head {t : Token} (h : AllStand stands (l :: ls)) (hl : l.token = t) : stands l.pos t :=
  hl ▸ h l List.mem_cons_self

theorem tail (h : AllStand stands (l :: ls)) : AllStand stands ls :=
  fun l hl => h l (List.mem_cons_of_mem _ hl)

theorem suffix (h : AllStand stands ls) (hms : ms <:+ ls) : AllStand stands ms :=
  fun l hl => h l (hms.subset hl)

end AllStand

/-! ## What is read is built -/

/-- What a reader reads is built from the lexemes that it takes. -/
def Builds {α : Type} (r : Reader α) (φ : α → Piece) : Prop :=
  ∀ ⦃ls a rest⦄, r ls = .ok (a, rest) → Built (φ a) ls rest

/-- A reader that goes on behind an expression makes a greater one of it. -/
def BuildsOn (r : Expr → Reader Expr) : Prop :=
  ∀ ⦃l us ls e rest⦄, Built (.whole l) us ls → r l ls = .ok (e, rest) → Built (.whole e) us rest

theorem built_items {item : Reader Expr} (hitem : Builds item .whole) :
    ∀ bound : List Lexeme, Builds (readItems item bound) .items := by
  intro bound
  induction bound with
  | nil =>
    intro ls es rest h
    cases h
    exact .noItems
  | cons b bound ih =>
    intro ls es rest h
    rcases readItems_cons_eq_ok_iff.1 h with
      ⟨-, rfl, rfl⟩ | ⟨-, e, he, -, rfl⟩ | ⟨-, e, l, ls', es', he, hl, hes, rfl⟩
    · exact .noItems
    · exact .lastItem (hitem he)
    · exact .items (hitem he) hl (ih hes)

namespace Expr

variable {n : Nat}

theorem builds_readPrimary (hread : Builds (read n) .whole) : Builds (readPrimary n) .whole := by
  intro ls e rest h
  rcases readPrimary_eq_ok_iff.1 h with ⟨l, rfl, hl⟩ | ⟨l, r, ls', rfl, hl, he, hr⟩
  · exact .leaf hl
  · exact .parens hl (hread he) hr

theorem buildsOn_readCalls (hread : ∀ m < n, Builds (read m) .whole) : BuildsOn (readCalls n) := by
  induction n with
  | zero =>
    intro f us ls e rest hf h
    rcases readCalls_eq_ok_iff.1 h with ⟨-, rfl, rfl⟩ | ⟨m, _, _, _, _, _, hm, -⟩
    · exact hf
    · omega
  | succ n ih =>
    intro f us ls e rest hf h
    rcases readCalls_eq_ok_iff.1 h with
      ⟨-, rfl, rfl⟩ | ⟨m, l, ls', args, r, ls'', hm, rfl, hl, hargs, hr, he⟩
    · exact hf
    · obtain rfl : n = m := by omega
      have hargs' := built_items (hread n (by omega)) _ hargs
      exact ih (fun m hm => hread m (by omega)) (.call hf hl hargs' hr) he

theorem builds_readCall (hread : Builds (read n) .whole) (ih : ∀ m < n, Builds (read m) .whole) :
    Builds (readCall n) .whole := by
  intro ls e rest h
  obtain ⟨f, ls', hf, he⟩ := readCall_eq_ok_iff.1 h
  exact buildsOn_readCalls ih (builds_readPrimary hread hf) he

theorem builds_readNegation (hcall : Builds (readCall n) .whole)
    (ih : ∀ m < n, Builds (readNegation m) .whole) : Builds (readNegation n) .whole := by
  intro ls e rest h
  rcases readNegation_eq_ok_iff.1 h with ⟨-, he⟩ | ⟨m, l, ls', a, rfl, rfl, hl, ha, rfl⟩
  · exact hcall he
  · exact .unary hl (ih m (by omega) ha)

theorem buildsOn_readChain {c : Chain} (hop : ∀ m < n, Builds (c.operand m) .whole) :
    BuildsOn (readChain c n) := by
  induction n with
  | zero =>
    intro l us ls e rest hl h
    rcases readChain_eq_ok_iff.1 h with ⟨-, rfl, rfl⟩ | ⟨m, _, _, _, _, _, hm, -⟩
    · exact hl
    · omega
  | succ n ih =>
    intro l us ls e rest hl h
    rcases readChain_eq_ok_iff.1 h with
      ⟨-, rfl, rfl⟩ | ⟨m, o, ls', op, rhs, ls'', hm, rfl, ho, hrhs, he⟩
    · exact hl
    · obtain rfl : n = m := by omega
      have htoken := (Chain.op?_eq_some_iff.1 ho).2
      exact ih (fun m hm => hop m (by omega)) (.binary hl htoken (hop n (by omega) hrhs)) he

/-- A first operand and then the operators of its group. -/
theorem builds_group {c : Chain} {r q : Reader Expr} (hr : Builds r .whole)
    (hop : ∀ m < n, Builds (c.operand m) .whole)
    (hq : ∀ {ls e rest}, q ls = .ok (e, rest) ↔
      ∃ a ls', r ls = .ok (a, ls') ∧ readChain c n a ls' = .ok (e, rest)) :
    Builds q .whole := by
  intro ls e rest h
  obtain ⟨a, ls', ha, he⟩ := hq.1 h
  exact buildsOn_readChain hop (hr ha) he

theorem builds_readComparison (hsum : Builds (readSum n) .whole) :
    Builds (readComparison n) .whole := by
  intro ls e rest h
  rcases readComparison_eq_ok_iff.1 h with ⟨he, -⟩ | ⟨a, o, ls', op, b, ha, ho, hb, rfl⟩
  · exact hsum he
  · exact .binary (hsum ha) (comparison?_eq_some_iff.1 ho).2 (hsum hb)

theorem builds_readNot (hcomparison : Builds (readComparison n) .whole)
    (ih : ∀ m < n, Builds (readNot m) .whole) : Builds (readNot n) .whole := by
  intro ls e rest h
  rcases readNot_eq_ok_iff.1 h with ⟨-, he⟩ | ⟨m, l, ls', a, rfl, rfl, hl, ha, rfl⟩
  · exact hcomparison he
  · exact .unary hl (ih m (by omega) ha)

/-- The readers of operands with `n` levels left. -/
structure Building (n : Nat) : Prop where
  expr : Builds (read n) .whole
  negation : Builds (readNegation n) .whole
  product : Builds (readProduct n) .whole
  not : Builds (readNot n) .whole
  and : Builds (readAnd n) .whole

theorem builds_read_of (ih : ∀ m < n, Building m) : Builds (read n) .whole := by
  intro ls e rest h
  obtain ⟨m, rfl, hor⟩ := read_eq_ok_iff.1 h
  have hgroup : Builds (readOr m) .whole :=
    builds_group (c := .or) (ih m (by omega)).and (fun k hk => (ih k (by omega)).and)
      readOr_eq_ok_iff
  exact hgroup hor

theorem building (n : Nat) : Building n := by
  induction n using Nat.strongRecOn with
  | ind n ih =>
    have hexpr : Builds (read n) .whole := builds_read_of ih
    have hneg : Builds (readNegation n) .whole :=
      builds_readNegation (builds_readCall hexpr fun m hm => (ih m hm).expr)
        fun m hm => (ih m hm).negation
    have hprod : Builds (readProduct n) .whole :=
      builds_group (c := .product) hneg (fun m hm => (ih m hm).negation) readProduct_eq_ok_iff
    have hsum : Builds (readSum n) .whole :=
      builds_group (c := .sum) hprod (fun m hm => (ih m hm).product) readSum_eq_ok_iff
    have hnot : Builds (readNot n) .whole :=
      builds_readNot (builds_readComparison hsum) fun m hm => (ih m hm).not
    have hand : Builds (readAnd n) .whole :=
      builds_group (c := .and) hnot (fun m hm => (ih m hm).not) readAnd_eq_ok_iff
    exact ⟨hexpr, hneg, hprod, hnot, hand⟩

/-- What is read off a list is built from the lexemes that are taken. -/
theorem built_of_read {ls rest : List Lexeme} {e : Expr} (h : read n ls = .ok (e, rest)) :
    Built (.whole e) ls rest :=
  (building n).expr h

end Expr
end ScriptShell
