import ScriptShell.Expr.Parser

/-!
# ScriptShell.Proofs.Expr.Success

When the readers of expressions succeed. Each statement opens one reader, once and for all: it says
which readers must have succeeded before it, and on which lists. Nothing here looks at errors.

* `Lexeme.leaf?`: the expression that a token is by itself.
* `Chain.operand`: the reader of the operands of a group of operators.
* `Expr.readChain_eq_ok_iff` and its siblings: one for each reader.
-/

namespace ScriptShell

theorem bind_eq_ok_iff {ε α β : Type} {x : Except ε α} {f : α → Except ε β} {b : β} :
    x >>= f = .ok b ↔ ∃ a, x = .ok a ∧ f a = .ok b := by
  constructor
  · intro h
    cases x with
    | error e => cases h
    | ok a => exact ⟨a, rfl, h⟩
  · rintro ⟨a, rfl, h⟩
    exact h

theorem peek_eq_iff {t : Token} (ht : t ≠ .endOfInput) {ls : List Lexeme} :
    peek ls = t ↔ ∃ l rest, ls = l :: rest ∧ l.token = t := by
  cases ls with
  | nil =>
    constructor
    · intro h; exact absurd h.symm ht
    · rintro ⟨l, rest, h, -⟩; cases h
  | cons l rest =>
    constructor
    · intro h; exact ⟨l, rest, rfl, h⟩
    · rintro ⟨l', rest', h, hl⟩; cases h; exact hl

theorem refuse_ne_ok {α : Type} {ls : List Lexeme} {f : SyntaxFault} {a : α} :
    refuse ls f ≠ .ok a := by
  intro h; cases h

theorem expect_eq_ok_iff {t : Token} (ht : t ≠ .endOfInput) {ls rest : List Lexeme} :
    expect t ls = .ok rest ↔ ∃ l, ls = l :: rest ∧ l.token = t := by
  unfold expect
  constructor
  · intro h
    split at h
    · rename_i hp
      obtain ⟨l, ls', rfl, hl⟩ := (peek_eq_iff ht).1 hp
      cases h
      exact ⟨l, rfl, hl⟩
    · cases h
  · rintro ⟨l, rfl, hl⟩
    rw [if_pos (show peek (l :: rest) = t from hl)]
    rfl

/-- The expression that a token is by itself, if it is one. -/
def Lexeme.leaf? (l : Lexeme) : Option Expr :=
  match l.token with
  | .int i => some (.int i)
  | .str s => some (.str s)
  | .name id => some (.name id l.pos)
  | .keyword .none => some .none
  | .keyword .true => some (.bool true)
  | .keyword .false => some (.bool false)
  | _ => none

/-- Can the token be the first of an expression? -/
def Token.opensExpr : Token → Bool
  | .int _ | .str _ | .name _ => true
  | .keyword .none | .keyword .true | .keyword .false | .keyword .not => true
  | .mark .parenLeft | .mark .minus => true
  | _ => false

theorem opensExpr_of_leaf {l : Lexeme} {e : Expr} (h : l.leaf? = some e) :
    l.token.opensExpr = true := by
  unfold Lexeme.leaf? at h
  split at h <;> simp_all [Token.opensExpr]

theorem skipNewlines_of_ne {ls : List Lexeme} (h : peek ls ≠ .newline) : skipNewlines ls = ls := by
  cases ls with
  | nil => rfl
  | cons l ls => exact List.dropWhile_cons_of_neg (by simpa [peek] using h)

theorem skipNewlines_of_opensExpr {ls : List Lexeme} (h : (peek ls).opensExpr = true) :
    skipNewlines ls = ls := by
  refine skipNewlines_of_ne fun hn => ?_
  rw [hn] at h
  cases h

/-- The reader of the operands of a group of operators. -/
def Chain.operand : Chain → Nat → Reader Expr
  | .or => Expr.readAnd
  | .and => Expr.readNot
  | .sum => Expr.readProduct
  | .product => Expr.readNegation

/-- With an item allowed, either the closing parenthesis is there already, or an item is read and
then, behind a comma, the others. -/
theorem readItems_cons_eq_ok_iff {α : Type} {item : Reader α} {b : Lexeme}
    {bound ls rest : List Lexeme}
    {as : List α} :
    readItems item (b :: bound) ls = .ok (as, rest) ↔
      (peek ls = .mark .parenRight ∧ as = [] ∧ rest = ls) ∨
      (peek ls ≠ .mark .parenRight ∧ ∃ a, item ls = .ok (a, rest) ∧
        peek rest ≠ .mark .comma ∧ as = [a]) ∨
      (peek ls ≠ .mark .parenRight ∧ ∃ a l ls' as', item ls = .ok (a, l :: ls') ∧
        l.token = .mark .comma ∧ readItems item bound ls' = .ok (as', rest) ∧ as = a :: as') := by
  rw [readItems]
  constructor
  · intro h
    split at h
    · rename_i hp
      cases h
      exact .inl ⟨hp, rfl, rfl⟩
    · rename_i hp
      obtain ⟨⟨a, ls₁⟩, ha, h⟩ := bind_eq_ok_iff.1 h
      dsimp only at h
      split at h
      · rename_i hc
        obtain ⟨l, ls', rfl, hl⟩ := (peek_eq_iff (by simp)).1 hc
        obtain ⟨⟨as', ls₂⟩, hi, he⟩ := bind_eq_ok_iff.1 h
        cases he
        exact .inr (.inr ⟨hp, a, l, ls', as', ha, hl, hi, rfl⟩)
      · rename_i hc
        cases h
        exact .inr (.inl ⟨hp, a, ha, hc, rfl⟩)
  · rintro (⟨hp, rfl, rfl⟩ | ⟨hp, a, ha, hc, rfl⟩ | ⟨hp, a, l, ls', as', ha, hl, hi, rfl⟩)
    · rw [if_pos hp]
    · rw [if_neg hp]
      refine bind_eq_ok_iff.2 ⟨_, ha, ?_⟩
      dsimp only
      rw [if_neg hc]
    · rw [if_neg hp]
      refine bind_eq_ok_iff.2 ⟨_, ha, ?_⟩
      dsimp only
      rw [if_pos (show peek (l :: ls') = _ from hl)]
      exact bind_eq_ok_iff.2 ⟨_, hi, rfl⟩

theorem Chain.op?_endOfInput (c : Chain) : c.op? .endOfInput = none := by
  cases c <;> rfl

namespace Expr

variable {n : Nat} {e : Expr} {ls rest : List Lexeme}

theorem read_eq_ok_iff :
    read n ls = .ok (e, rest) ↔ ∃ m, n = m + 1 ∧ readOr m ls = .ok (e, rest) := by
  cases n with
  | zero => rw [read]; simp [refuse_ne_ok]
  | succ m => rw [read]; simp

/-- A primary expression is one token, or an expression between parentheses. -/
theorem readPrimary_eq_ok_iff :
    readPrimary n ls = .ok (e, rest) ↔
      (∃ l, ls = l :: rest ∧ l.leaf? = some e) ∨
      (∃ l r ls', ls = l :: ls' ∧ l.token = .mark .parenLeft ∧
        read n ls' = .ok (e, r :: rest) ∧ r.token = .mark .parenRight) := by
  rw [readPrimary]
  constructor
  · intro h
    split at h
    case h_7 hp =>
      obtain ⟨l, ls', rfl, hl⟩ := (peek_eq_iff (by simp)).1 hp
      obtain ⟨⟨e', ls₁⟩, hr, h⟩ := bind_eq_ok_iff.1 h
      dsimp only at h
      obtain ⟨ls₂, hx, he⟩ := bind_eq_ok_iff.1 h
      obtain ⟨r, rfl, hrt⟩ := (expect_eq_ok_iff (by simp)).1 hx
      cases he
      exact .inr ⟨l, r, ls', rfl, hl, hr, hrt⟩
    case h_8 => exact absurd h refuse_ne_ok
    all_goals
      rename_i hp
      obtain ⟨l, ls', rfl, hl⟩ := (peek_eq_iff (by simp)).1 hp
      cases h
      exact .inl ⟨l, rfl, by simp [Lexeme.leaf?, hl, here]⟩
  · rintro (⟨l, rfl, hl⟩ | ⟨l, r, ls', rfl, hl, hr, hrt⟩)
    · obtain ⟨t, p⟩ := l
      unfold Lexeme.leaf? at hl
      dsimp only at hl
      split at hl <;> cases hl <;> rfl
    · simp only [peek, hl, List.tail_cons]
      refine bind_eq_ok_iff.2 ⟨_, hr, bind_eq_ok_iff.2 ⟨rest, ?_, rfl⟩⟩
      exact (expect_eq_ok_iff (by simp)).2 ⟨r, rfl, hrt⟩

theorem readCall_eq_ok_iff :
    readCall n ls = .ok (e, rest) ↔
      ∃ f ls', readPrimary n ls = .ok (f, ls') ∧ readCalls n f ls' = .ok (e, rest) := by
  rw [readCall, bind_eq_ok_iff]
  simp only [Prod.exists]

/-- Behind a callee either nothing is read, or a call with its arguments and then what follows. -/
theorem readCalls_eq_ok_iff {f : Expr} :
    readCalls n f ls = .ok (e, rest) ↔
      (peek ls ≠ .mark .parenLeft ∧ e = f ∧ rest = ls) ∨
      (∃ m l ls' args r ls'', n = m + 1 ∧ ls = l :: ls' ∧ l.token = .mark .parenLeft ∧
        readItems (read m) ls ls' = .ok (args, r :: ls'') ∧ r.token = .mark .parenRight ∧
        readCalls m (.call f args l.pos) ls'' = .ok (e, rest)) := by
  rw [readCalls.eq_def]
  constructor
  · intro h
    split at h
    · rename_i hp
      obtain ⟨l, ls', rfl, hl⟩ := (peek_eq_iff (by simp)).1 hp
      cases n with
      | zero => exact absurd h refuse_ne_ok
      | succ m =>
        obtain ⟨⟨args, ls₁⟩, hi, h⟩ := bind_eq_ok_iff.1 h
        dsimp only at h
        obtain ⟨ls₂, hx, hc⟩ := bind_eq_ok_iff.1 h
        obtain ⟨r, rfl, hrt⟩ := (expect_eq_ok_iff (by simp)).1 hx
        exact .inr ⟨m, l, ls', args, r, ls₂, rfl, rfl, hl, hi, hrt, hc⟩
    · rename_i hp
      cases h
      exact .inl ⟨hp, rfl, rfl⟩
  · rintro (⟨hp, rfl, rfl⟩ | ⟨m, l, ls', args, r, ls'', rfl, rfl, hl, hi, hrt, h⟩)
    · rw [if_neg hp]
    · rw [if_pos (show peek (l :: ls') = _ from hl)]
      refine bind_eq_ok_iff.2 ⟨_, hi, bind_eq_ok_iff.2 ⟨ls'', ?_, h⟩⟩
      exact (expect_eq_ok_iff (by simp)).2 ⟨r, rfl, hrt⟩

/-- A sign before an operand takes a level; without a sign there is a call. -/
theorem readNegation_eq_ok_iff :
    readNegation n ls = .ok (e, rest) ↔
      (peek ls ≠ .mark .minus ∧ readCall n ls = .ok (e, rest)) ∨
      (∃ m l ls' a, n = m + 1 ∧ ls = l :: ls' ∧ l.token = .mark .minus ∧
        readNegation m ls' = .ok (a, rest) ∧ e = .unary .neg a l.pos) := by
  rw [readNegation.eq_def]
  constructor
  · intro h
    split at h
    · rename_i hp
      obtain ⟨l, ls', rfl, hl⟩ := (peek_eq_iff (by simp)).1 hp
      cases n with
      | zero => exact absurd h refuse_ne_ok
      | succ m =>
        obtain ⟨⟨a, ls₁⟩, hr, h⟩ := bind_eq_ok_iff.1 h
        cases h
        exact .inr ⟨m, l, ls', a, rfl, rfl, hl, hr, rfl⟩
    · rename_i hp
      exact .inl ⟨hp, h⟩
  · rintro (⟨hp, h⟩ | ⟨m, l, ls', a, rfl, rfl, hl, hr, rfl⟩)
    · rw [if_neg hp, h]
    · rw [if_pos (show peek (l :: ls') = _ from hl)]
      exact bind_eq_ok_iff.2 ⟨_, hr, rfl⟩

theorem readProduct_eq_ok_iff :
    readProduct n ls = .ok (e, rest) ↔
      ∃ a ls', readNegation n ls = .ok (a, ls') ∧ readChain .product n a ls' = .ok (e, rest) := by
  rw [readProduct, bind_eq_ok_iff]
  simp only [Prod.exists]

theorem readSum_eq_ok_iff :
    readSum n ls = .ok (e, rest) ↔
      ∃ a ls', readProduct n ls = .ok (a, ls') ∧ readChain .sum n a ls' = .ok (e, rest) := by
  rw [readSum, bind_eq_ok_iff]
  simp only [Prod.exists]

/-- A comparison is a sum, or two of them on the same level. -/
theorem readComparison_eq_ok_iff :
    readComparison n ls = .ok (e, rest) ↔
      (readSum n ls = .ok (e, rest) ∧ comparison? (peek rest) = Option.none) ∨
      (∃ a o ls' op b, readSum n ls = .ok (a, o :: ls') ∧ comparison? o.token = some op ∧
        readSum n ls' = .ok (b, rest) ∧ e = .binary op a b o.pos) := by
  rw [readComparison]
  constructor
  · intro h
    obtain ⟨⟨a, ls₁⟩, ha, h⟩ := bind_eq_ok_iff.1 h
    dsimp only at h
    split at h
    · rename_i hop
      cases h
      exact .inl ⟨ha, hop⟩
    · rename_i op hop
      obtain ⟨⟨b, ls₂⟩, hb, h⟩ := bind_eq_ok_iff.1 h
      cases h
      cases ls₁ with
      | nil => cases hop
      | cons o ls' => exact .inr ⟨a, o, ls', op, b, ha, hop, hb, rfl⟩
  · rintro (⟨ha, hop⟩ | ⟨a, o, ls', op, b, ha, hop, hb, rfl⟩)
    · refine bind_eq_ok_iff.2 ⟨_, ha, ?_⟩
      simp only [hop]
    · refine bind_eq_ok_iff.2 ⟨_, ha, ?_⟩
      simp only [peek, hop, List.tail_cons]
      exact bind_eq_ok_iff.2 ⟨_, hb, rfl⟩

/-- A `not` before an operand takes a level; without one there is a comparison. -/
theorem readNot_eq_ok_iff :
    readNot n ls = .ok (e, rest) ↔
      (peek ls ≠ .keyword .not ∧ readComparison n ls = .ok (e, rest)) ∨
      (∃ m l ls' a, n = m + 1 ∧ ls = l :: ls' ∧ l.token = .keyword .not ∧
        readNot m ls' = .ok (a, rest) ∧ e = .unary .not a l.pos) := by
  rw [readNot.eq_def]
  constructor
  · intro h
    split at h
    · rename_i hp
      obtain ⟨l, ls', rfl, hl⟩ := (peek_eq_iff (by simp)).1 hp
      cases n with
      | zero => exact absurd h refuse_ne_ok
      | succ m =>
        obtain ⟨⟨a, ls₁⟩, hr, h⟩ := bind_eq_ok_iff.1 h
        cases h
        exact .inr ⟨m, l, ls', a, rfl, rfl, hl, hr, rfl⟩
    · rename_i hp
      exact .inl ⟨hp, h⟩
  · rintro (⟨hp, h⟩ | ⟨m, l, ls', a, rfl, rfl, hl, hr, rfl⟩)
    · rw [if_neg hp, h]
    · rw [if_pos (show peek (l :: ls') = _ from hl)]
      exact bind_eq_ok_iff.2 ⟨_, hr, rfl⟩

theorem readAnd_eq_ok_iff :
    readAnd n ls = .ok (e, rest) ↔
      ∃ a ls', readNot n ls = .ok (a, ls') ∧ readChain .and n a ls' = .ok (e, rest) := by
  rw [readAnd, bind_eq_ok_iff]
  simp only [Prod.exists]

theorem readOr_eq_ok_iff :
    readOr n ls = .ok (e, rest) ↔
      ∃ a ls', readAnd n ls = .ok (a, ls') ∧ readChain .or n a ls' = .ok (e, rest) := by
  rw [readOr, bind_eq_ok_iff]
  simp only [Prod.exists]

/-- Behind a first operand either nothing is read, or an operator of the group with its operand,
for a level, and then what follows. -/
theorem readChain_eq_ok_iff {c : Chain} {lhs : Expr} :
    readChain c n lhs ls = .ok (e, rest) ↔
      (c.op? (peek ls) = Option.none ∧ e = lhs ∧ rest = ls) ∨
      (∃ m o ls' op rhs ls'', n = m + 1 ∧ ls = o :: ls' ∧ c.op? o.token = some op ∧
        c.operand m ls' = .ok (rhs, ls'') ∧
        readChain c m (.binary op lhs rhs o.pos) ls'' = .ok (e, rest)) := by
  rw [readChain]
  constructor
  · intro h
    split at h
    · rename_i hop
      cases h
      exact .inl ⟨hop, rfl, rfl⟩
    · rename_i op hop
      cases n with
      | zero => exact absurd h refuse_ne_ok
      | succ m =>
        cases ls with
        | nil => cases (Chain.op?_endOfInput c).symm.trans hop
        | cons o ls' =>
          cases c <;>
          · obtain ⟨⟨rhs, ls''⟩, hr, h⟩ := bind_eq_ok_iff.1 h
            exact .inr ⟨m, o, ls', op, rhs, ls'', rfl, rfl, hop, hr, h⟩
  · rintro (⟨hop, rfl, rfl⟩ | ⟨m, o, ls', op, rhs, ls'', rfl, rfl, hop, hr, h⟩)
    · simp only [hop]
    · simp only [peek, hop, List.tail_cons]
      cases c <;> exact bind_eq_ok_iff.2 ⟨_, hr, h⟩

/-- Nothing but the first token of an expression is the first token that is read. -/
theorem opensExpr_of_read (h : read n ls = .ok (e, rest)) : (peek ls).opensExpr = true := by
  obtain ⟨m, -, h⟩ := read_eq_ok_iff.1 h
  obtain ⟨_, _, h, -⟩ := readOr_eq_ok_iff.1 h
  obtain ⟨_, _, h, -⟩ := readAnd_eq_ok_iff.1 h
  rcases readNot_eq_ok_iff.1 h with ⟨-, h⟩ | ⟨_, _, _, _, -, rfl, hl, -⟩
  · have hsum : ∃ a r, readSum m ls = .ok (a, r) := by
      rcases readComparison_eq_ok_iff.1 h with ⟨h, -⟩ | ⟨_, _, _, _, _, h, -⟩ <;> exact ⟨_, _, h⟩
    obtain ⟨_, _, h⟩ := hsum
    obtain ⟨_, _, h, -⟩ := readSum_eq_ok_iff.1 h
    obtain ⟨_, _, h, -⟩ := readProduct_eq_ok_iff.1 h
    rcases readNegation_eq_ok_iff.1 h with ⟨-, h⟩ | ⟨_, _, _, _, -, rfl, hl, -⟩
    · obtain ⟨_, _, h, -⟩ := readCall_eq_ok_iff.1 h
      rcases readPrimary_eq_ok_iff.1 h with ⟨l, rfl, hl⟩ | ⟨_, _, _, rfl, hl, -⟩
      · exact opensExpr_of_leaf hl
      · simp [peek, hl, Token.opensExpr]
    · simp [peek, hl, Token.opensExpr]
  · simp [peek, hl, Token.opensExpr]

theorem parse_eq_ok_iff {text : String} :
    parse text = .ok e ↔ ∃ ls rest, scan .expression text = .ok ls ∧
      read maxNesting (skipNewlines ls) = .ok (e, rest) ∧
      peek (skipNewlines rest) = .endOfInput := by
  unfold parse
  constructor
  · intro h
    obtain ⟨ls, hls, h⟩ := bind_eq_ok_iff.1 h
    obtain ⟨⟨e', rest⟩, he, h⟩ := bind_eq_ok_iff.1 h
    obtain ⟨_, hend, hok⟩ := bind_eq_ok_iff.1 h
    cases hok
    refine ⟨ls, rest, hls, he, ?_⟩
    unfold expect at hend
    by_cases hp : peek (skipNewlines rest) = .endOfInput
    · exact hp
    · rw [if_neg hp] at hend
      cases hend
  · rintro ⟨ls, rest, hls, he, hend⟩
    have hexpect : expect .endOfInput (skipNewlines rest) = .ok (skipNewlines rest).tail := by
      rw [expect, if_pos hend]
    exact bind_eq_ok_iff.2 ⟨ls, hls, bind_eq_ok_iff.2 ⟨_, he, bind_eq_ok_iff.2 ⟨_, hexpect, rfl⟩⟩⟩

end Expr
end ScriptShell
