import Mathlib.Data.List.DropRight
import ScriptShell.Proofs.Expr.Grammar
import ScriptShell.Proofs.Expr.Moved
import ScriptShell.Proofs.Program.Line

/-!
# ScriptShell.Proofs.Expr.Complete

What follows the grammar is read, as far as the levels of nesting suffice. A phrase ends where a
token stands that could not go on with it, so every reader stops where the derivation does; and
while the tokens are derived, a reader fails for want of levels only.

* `Delivers`: a reader takes what it should, or has too few levels.
* `Token.rank`, `Phrase.rank`: which tokens can go on with a phrase.
* `Expr.delivers_read`: an expression is read exactly where its levels suffice.
-/

namespace ScriptShell

/-! ## Taking what one should, or having too few levels -/

/-- With enough levels, `rest` is left and the value is of the kind `A`; with too few, a fault of
the kind `F` is reported. -/
inductive Delivers {α : Type} (F : SyntaxFault → Prop) (x : Except SyntaxError (α × List Lexeme))
    (enough : Prop) (rest : List Lexeme) (A : α → Prop) : Prop
  | ok (henough : enough) (a : α) (hx : x = .ok (a, rest)) (ha : A a)
  | refused (henough : ¬enough) (p : Pos) (f : SyntaxFault) (hx : x = .error ⟨p, f⟩) (hf : F f)

namespace Delivers

variable {α β : Type} {F : SyntaxFault → Prop} {x : Except SyntaxError (α × List Lexeme)}
  {p q r : Prop} {mid rest : List Lexeme} {A : α → Prop}

theorem congr (h : Delivers F x p rest A) (hpq : q ↔ p) : Delivers F x q rest A := by
  cases h with
  | ok hp a hx ha => exact .ok (hpq.2 hp) a hx ha
  | refused hp pos f hx hf => exact .refused (fun hq => hp (hpq.1 hq)) pos f hx hf

theorem bind {B : β → Prop} {k : α × List Lexeme → Except SyntaxError (β × List Lexeme)}
    (h : Delivers F x p mid A) (hk : ∀ a, A a → Delivers F (k (a, mid)) q rest B)
    (hr : r ↔ p ∧ q) : Delivers F (x >>= k) r rest B := by
  cases h with
  | refused hp pos f hx hf => exact .refused (fun h => hp (hr.1 h).1) pos f (by rw [hx]; rfl) hf
  | ok hp a hx ha =>
    cases hk a ha with
    | ok hq b hb hB => exact .ok (hr.2 ⟨hp, hq⟩) b (by rw [hx]; exact hb) hB
    | refused hq pos f hb hf =>
      exact .refused (fun h => hq (hr.1 h).2) pos f (by rw [hx]; exact hb) hf

/-- What needs no levels is read afterwards. -/
theorem andThen {B : β → Prop} {k : α × List Lexeme → Except SyntaxError (β × List Lexeme)}
    (h : Delivers F x p mid A) (hk : ∀ a, A a → ∃ b, k (a, mid) = .ok (b, rest) ∧ B b) :
    Delivers F (x >>= k) p rest B := by
  refine h.bind (q := True) (fun a ha => ?_) (iff_of_eq (and_true p)).symm
  obtain ⟨b, hb, hB⟩ := hk a ha
  exact .ok trivial b hb hB

end Delivers

/-! ## Where phrases begin and end -/

/-- How tightly a token binds behind an operand, from `or` to the parenthesis of a call; `0` where
it cannot stand there. -/
def Token.rank : Token → Nat
  | .keyword .or => 1
  | .keyword .and => 2
  | .mark .eq | .mark .notEq | .mark .lt | .mark .ltEq | .mark .gt | .mark .gtEq => 4
  | .mark .plus | .mark .minus => 5
  | .mark .star | .mark .slashSlash | .mark .percent => 6
  | .mark .parenLeft => 8
  | _ => 0

theorem Token.rank_le (t : Token) : t.rank ≤ 8 := by
  unfold Token.rank
  split <;> decide

/-- The rank of the operators of a group. -/
def Chain.rank : Chain → Nat
  | .or => 1
  | .and => 2
  | .sum => 5
  | .product => 6

/-- A token of this rank goes on with the phrase, and so does one of a higher rank. -/
def Phrase.rank : Phrase → Nat
  | .whole _ | .items _ => 1
  | .more c _ _ | .group c _ => c.rank
  | .not _ => 3
  | .comparison _ => 4
  | .negation _ => 7
  | .call _ | .calls _ _ => 8
  | .primary _ => 9

theorem Chain.rank_operandPhrase (c : Chain) (e : Expr) :
    (c.operandPhrase e).rank = c.rank + 1 := by
  cases c <;> rfl

theorem Chain.rank_op {c : Chain} {op : BinaryOp} (h : op ∈ c.ops) : op.token.rank = c.rank := by
  cases c <;> cases op <;> first | rfl | exact absurd h (by decide)

theorem rank_comparison {op : BinaryOp} (h : op ∈ comparisons) : op.token.rank = 4 := by
  cases op <;> first | rfl | exact absurd h (by decide)

theorem Chain.op?_eq_none {c : Chain} {t : Token} (h : t.rank < c.rank) : c.op? t = none := by
  refine Option.eq_none_iff_forall_ne_some.2 fun op hop => ?_
  obtain ⟨hmem, rfl⟩ := Chain.op?_eq_some_iff.1 hop
  rw [Chain.rank_op hmem] at h
  omega

theorem comparison?_eq_none {t : Token} (h : t.rank < 4) : comparison? t = none := by
  refine Option.eq_none_iff_forall_ne_some.2 fun op hop => ?_
  obtain ⟨hmem, rfl⟩ := comparison?_eq_some_iff.1 hop
  rw [rank_comparison hmem] at h
  omega

theorem ne_parenLeft_of_rank {t : Token} (h : t.rank < 8) : t ≠ .mark .parenLeft := by
  rintro rfl
  exact absurd h (by decide)

/-- The token can be the first of a phrase of the rank `r`. -/
structure Token.Opens (t : Token) (r : Nat) : Prop where
  opensExpr : t.opensExpr = true
  not : t = .keyword .not → r ≤ 3
  minus : t = .mark .minus → r ≤ 7

theorem Token.Opens.mono {t : Token} {r s : Nat} (h : t.Opens s) (hr : r ≤ s) : t.Opens r :=
  ⟨h.opensExpr, fun ht => Nat.le_trans hr (h.not ht), fun ht => Nat.le_trans hr (h.minus ht)⟩

/-- Is the phrase an operand, which begins with a token of its own? -/
def Phrase.isOperand : Phrase → Bool
  | .calls .. | .more .. | .items _ => false
  | _ => true

theorem Chain.isOperand_operandPhrase (c : Chain) (e : Expr) :
    (c.operandPhrase e).isOperand = true := by
  cases c <;> rfl

theorem opens_of_leafToken? {e : Expr} {t : Token} (h : e.leafToken? = some t) (r : Nat) :
    t.Opens r := by
  unfold Expr.leafToken? at h
  split at h <;> cases h <;> exact ⟨rfl, by simp, by simp⟩

theorem opens_append {ts us : List Token} {r s : Nat} (h : ∃ t vs, ts = t :: vs ∧ t.Opens s)
    (hr : r ≤ s) : ∃ t vs, ts ++ us = t :: vs ∧ t.Opens r := by
  obtain ⟨t, vs, rfl, ht⟩ := h
  exact ⟨t, vs ++ us, rfl, ht.mono hr⟩

/-- An operand begins with a token that opens expressions; a tighter one with neither `not` nor a
minus sign. -/
theorem Derives.opens {φ : Phrase} {k : Nat} {ts : List Token} (h : Derives φ k ts)
    (hφ : φ.isOperand = true) : ∃ t us, ts = t :: us ∧ t.Opens φ.rank := by
  induction h with
  | leaf h => exact ⟨_, _, rfl, opens_of_leafToken? h _⟩
  | parens => exact ⟨_, _, rfl, rfl, by simp, by simp⟩
  | call _ _ ihf => exact opens_append (ihf rfl) (by simp [Phrase.rank])
  | minus => exact ⟨_, _, rfl, rfl, by simp [UnaryOp.token], fun _ => Nat.le_refl 7⟩
  | noMinus _ ih =>
    obtain ⟨t, us, hts, ht⟩ := ih rfl
    exact ⟨t, us, hts, ht.mono (by simp [Phrase.rank])⟩
  | @group c l _ _ _ _ _ _ _ ihl =>
    refine opens_append (ihl (c.isOperand_operandPhrase l)) ?_
    rw [c.rank_operandPhrase l]
    exact Nat.le_succ _
  | comparison _ _ _ ihl => exact opens_append (ihl rfl) (by simp [Phrase.rank, Chain.rank])
  | noComparison _ ih =>
    obtain ⟨t, us, hts, ht⟩ := ih rfl
    exact ⟨t, us, hts, ht.mono (by simp [Phrase.rank, Chain.rank])⟩
  | not => exact ⟨_, _, rfl, rfl, fun _ => Nat.le_refl 3, by simp [UnaryOp.token]⟩
  | noNot _ ih =>
    obtain ⟨t, us, hts, ht⟩ := ih rfl
    exact ⟨t, us, hts, ht.mono (by simp [Phrase.rank])⟩
  | whole _ ih => exact ih rfl
  | noCalls | calls | noMore | more | noItems | lastItem | items => cases hφ

theorem peek_of_tokens {us rest : List Lexeme} {t : Token} {ts : List Token}
    (h : tokens us = t :: ts) : peek (us ++ rest) = t := by
  cases us with
  | nil => cases h
  | cons l us =>
    cases h
    rfl

/-- What stands behind an operand of a group does not go on with the operand. -/
theorem rank_behind_operand {c : Chain} {l e : Expr} {k : Nat} {us rest : List Lexeme}
    (h : Derives (.more c l e) k (tokens us)) (hrest : (peek rest).rank < c.rank) :
    (peek (us ++ rest)).rank ≤ c.rank := by
  generalize hts : tokens us = ts at h
  cases h with
  | noMore =>
    obtain rfl : us = [] := List.map_eq_nil_iff.1 hts
    exact Nat.le_of_lt hrest
  | more hop =>
    rw [peek_of_tokens hts, Chain.rank_op hop]

/-! ## What follows the grammar is read -/

/-- Forget a place. -/
def Pos.forget (_ : Pos) : Pos :=
  .start

/-- The only fault that is left. -/
def TooDeep (f : SyntaxFault) : Prop :=
  f = .expressionTooDeep

/-- The reader of operands of a group, joined by its operators. -/
def Chain.reader : Chain → Nat → Reader Expr
  | .or => Expr.readOr
  | .and => Expr.readAnd
  | .sum => Expr.readSum
  | .product => Expr.readProduct

/-- The reader of the phrase takes it off `ls` up to `rest`, if the `n` levels that are left are as
many as the `k` that it takes. -/
def Phrase.Reads (k n : Nat) (ls rest : List Lexeme) : Phrase → Prop
  | .primary e => Delivers TooDeep (Expr.readPrimary n ls) (k ≤ n) rest (e.Same Pos.forget)
  | .calls f e => ∀ f', f.Same Pos.forget f' →
      Delivers TooDeep (Expr.readCalls n f' ls) (k ≤ n) rest (e.Same Pos.forget)
  | .call e => Delivers TooDeep (Expr.readCall n ls) (k ≤ n) rest (e.Same Pos.forget)
  | .negation e => Delivers TooDeep (Expr.readNegation n ls) (k ≤ n) rest (e.Same Pos.forget)
  | .more c l e => ∀ l', l.Same Pos.forget l' →
      Delivers TooDeep (Expr.readChain c n l' ls) (k ≤ n) rest (e.Same Pos.forget)
  | .group c e => Delivers TooDeep (c.reader n ls) (k ≤ n) rest (e.Same Pos.forget)
  | .comparison e => Delivers TooDeep (Expr.readComparison n ls) (k ≤ n) rest (e.Same Pos.forget)
  | .not e => Delivers TooDeep (Expr.readNot n ls) (k ≤ n) rest (e.Same Pos.forget)
  | .whole e => Delivers TooDeep (Expr.read n ls) (k ≤ n) rest (e.Same Pos.forget)
  | .items es => ∀ bound : List Lexeme, ls.length < bound.length + rest.length →
      peek rest = .mark .parenRight →
      Delivers TooDeep (readItems (Expr.read n) bound ls) (k ≤ n) rest
        (List.Forall₂ (Expr.Same Pos.forget) es)

theorem tokens_eq_cons_iff {us : List Lexeme} {t : Token} {ts : List Token} :
    tokens us = t :: ts ↔ ∃ l vs, us = l :: vs ∧ l.token = t ∧ tokens vs = ts :=
  List.map_eq_cons_iff

theorem tokens_eq_append_iff {us : List Lexeme} {ts ts' : List Token} :
    tokens us = ts ++ ts' ↔ ∃ vs vs', us = vs ++ vs' ∧ tokens vs = ts ∧ tokens vs' = ts' :=
  List.map_eq_append_iff

theorem expect_cons {t : Token} {l : Lexeme} {rest : List Lexeme} (hl : l.token = t) :
    expect t (l :: rest) = .ok rest :=
  if_pos hl

namespace Expr

variable {c : Chain} {e f : Expr} {j k n : Nat} {ls us rest : List Lexeme} {l r : Lexeme}

theorem leaf?_of_leafToken? (h : e.leafToken? = some l.token) :
    ∃ e', l.leaf? = some e' ∧ e.Same Pos.forget e' := by
  obtain ⟨t, p⟩ := l
  unfold leafToken? at h
  split at h <;> cases h <;> exact ⟨_, rfl, rfl⟩

theorem operand_eq : (c.operandPhrase e).Reads k n ls rest ↔
    Delivers TooDeep (c.operand n ls) (k ≤ n) rest (e.Same Pos.forget) := by
  cases c <;> exact Iff.rfl

theorem reader_eq :
    c.reader n ls = c.operand n ls >>= fun (e, ls) => readChain c n e ls := by
  cases c
  · exact readOr.eq_1 n ls
  · exact readAnd.eq_1 n ls
  · exact readSum.eq_1 n ls
  · exact readProduct.eq_1 n ls

theorem reads_leaf (h : e.leafToken? = some l.token) :
    (Phrase.primary e).Reads 0 n (l :: rest) rest := by
  obtain ⟨e', hl, hsame⟩ := leaf?_of_leafToken? h
  exact .ok (Nat.zero_le n) e' (readPrimary_eq_ok_iff.2 (.inl ⟨l, rfl, hl⟩)) hsame

theorem reads_parens (hl : l.token = .mark .parenLeft) (hr : r.token = .mark .parenRight)
    (h : (Phrase.whole e).Reads k n ls (r :: rest)) :
    (Phrase.primary e).Reads k n (l :: ls) rest := by
  have heq : readPrimary n (l :: ls) = (do
      let (e, ls) ← read n ls
      let ls ← expect (.mark .parenRight) ls
      .ok (e, ls)) := by
    rw [readPrimary]
    simp only [peek, hl, List.tail_cons]
  rw [Phrase.Reads, heq]
  refine h.andThen fun e' he' => ⟨e', ?_, he'⟩
  dsimp only
  rw [expect_cons hr]
  rfl

theorem reads_noCalls (hrest : (peek rest).rank < 8) : (Phrase.calls f f).Reads 0 n rest rest :=
  fun f' hf => .ok (Nat.zero_le n) f'
    (readCalls_eq_ok_iff.2 (.inl ⟨ne_parenLeft_of_rank hrest, rfl, rfl⟩)) hf

theorem reads_calls {args : List Expr} {p : Pos} (hl : l.token = .mark .parenLeft)
    (hr : r.token = .mark .parenRight)
    (hargs : ∀ n, (Phrase.items args).Reads j n (ls ++ r :: us) (r :: us))
    (h : ∀ n, (Phrase.calls (.call f args p) e).Reads k n us rest) :
    (Phrase.calls f e).Reads (max j k + 1) n (l :: (ls ++ r :: us)) rest := by
  intro f' hf
  rw [readCalls.eq_def, if_pos (show peek (l :: (ls ++ r :: us)) = _ from hl)]
  cases n with
  | zero => exact .refused (by omega) l.pos _ rfl rfl
  | succ n =>
    refine (hargs n _ ?_ hr).bind (fun args' hargs' => ?_) (q := k ≤ n) (by omega)
    · simp only [List.length_cons, List.length_append]
      omega
    · dsimp only
      rw [expect_cons hr]
      exact h n _ (same_call hf hargs' rfl)

theorem reads_call (hf : (Phrase.primary f).Reads j n ls us)
    (h : (Phrase.calls f e).Reads k n us rest) : (Phrase.call e).Reads (max j k) n ls rest := by
  rw [Phrase.Reads, readCall]
  exact hf.bind (fun f' hf' => h f' hf') (by omega)

theorem reads_minus {p : Pos} (hl : l.token = .mark .minus)
    (h : ∀ n, (Phrase.negation e).Reads k n ls rest) :
    (Phrase.negation (.unary .neg e p)).Reads (k + 1) n (l :: ls) rest := by
  rw [Phrase.Reads, readNegation.eq_def, if_pos (show peek (l :: ls) = _ from hl)]
  cases n with
  | zero => exact .refused (by omega) l.pos _ rfl rfl
  | succ n =>
    refine Delivers.congr (p := k ≤ n) ?_ (by omega)
    exact (h n).andThen fun e' he' => ⟨_, rfl, same_unary he' rfl⟩

theorem reads_not {p : Pos} (hl : l.token = .keyword .not)
    (h : ∀ n, (Phrase.not e).Reads k n ls rest) :
    (Phrase.not (.unary .not e p)).Reads (k + 1) n (l :: ls) rest := by
  rw [Phrase.Reads, readNot.eq_def, if_pos (show peek (l :: ls) = _ from hl)]
  cases n with
  | zero => exact .refused (by omega) l.pos _ rfl rfl
  | succ n =>
    refine Delivers.congr (p := k ≤ n) ?_ (by omega)
    exact (h n).andThen fun e' he' => ⟨_, rfl, same_unary he' rfl⟩

theorem reads_noMore {a : Expr} (hrest : (peek rest).rank < c.rank) :
    (Phrase.more c a a).Reads 0 n rest rest :=
  fun a' ha => .ok (Nat.zero_le n) a'
    (readChain_eq_ok_iff.2 (.inl ⟨Chain.op?_eq_none hrest, rfl, rfl⟩)) ha

theorem reads_more {a b : Expr} {op : BinaryOp} {p : Pos} (hop : op ∈ c.ops)
    (hl : l.token = op.token) (hb : ∀ n, (c.operandPhrase b).Reads j n ls us)
    (h : ∀ n, (Phrase.more c (.binary op a b p) e).Reads k n us rest) :
    (Phrase.more c a e).Reads (max j k + 1) n (l :: ls) rest := by
  intro a' ha
  have hop' : c.op? (peek (l :: ls)) = some op := Chain.op?_eq_some_iff.2 ⟨hop, hl⟩
  rw [readChain]
  simp only [hop', List.tail_cons]
  cases n with
  | zero => exact .refused (by omega) l.pos _ rfl rfl
  | succ n =>
    have hbind : Delivers TooDeep (c.operand n ls >>= fun (b, ls) =>
        readChain c n (.binary op a' b l.pos) ls) (max j k ≤ n) rest (e.Same Pos.forget) :=
      (operand_eq.1 (hb n)).bind (fun b' hb' => h n _ (same_binary ha hb' rfl)) (by omega)
    refine Delivers.congr (p := max j k ≤ n) ?_ (by omega)
    cases c <;> exact hbind

theorem reads_group {a : Expr} (ha : (c.operandPhrase a).Reads j n ls us)
    (h : (Phrase.more c a e).Reads k n us rest) :
    (Phrase.group c e).Reads (max j k) n ls rest := by
  rw [Phrase.Reads, reader_eq]
  exact (operand_eq.1 ha).bind (fun a' ha' => h a' ha') (by omega)

theorem reads_comparison {a b : Expr} {op : BinaryOp} {p : Pos}
    (ha : (Phrase.group .sum a).Reads j n ls (l :: us)) (hop : op ∈ comparisons)
    (hl : l.token = op.token) (hb : (Phrase.group .sum b).Reads k n us rest) :
    (Phrase.comparison (.binary op a b p)).Reads (max j k) n ls rest := by
  have hop' : comparison? l.token = some op := comparison?_eq_some_iff.2 ⟨hop, hl⟩
  rw [Phrase.Reads, readComparison]
  refine Delivers.bind ha (q := k ≤ n) (fun a' ha' => ?_) (by omega)
  simp only [peek, hop', List.tail_cons]
  exact hb.andThen fun b' hb' => ⟨_, rfl, same_binary ha' hb' rfl⟩

theorem reads_noComparison (h : (Phrase.group .sum e).Reads k n ls rest)
    (hrest : (peek rest).rank < 4) : (Phrase.comparison e).Reads k n ls rest := by
  rw [Phrase.Reads, readComparison]
  refine Delivers.andThen h fun e' he' => ⟨e', ?_, he'⟩
  simp only [comparison?_eq_none hrest]

theorem reads_whole (h : ∀ n, (Phrase.group .or e).Reads k n ls rest) :
    (Phrase.whole e).Reads (k + 1) n ls rest := by
  rw [Phrase.Reads]
  cases n with
  | zero =>
    rw [read]
    exact .refused (by omega) (here ls) _ rfl rfl
  | succ n =>
    rw [read]
    exact (h n).congr (by omega)

/-- A closing parenthesis is not the first token of an expression. -/
theorem ne_parenRight_of_opens {ts : List Token} (h : Derives (.whole e) k ts)
    (hts : tokens ls = ts) : peek (ls ++ rest) ≠ .mark .parenRight := by
  obtain ⟨t, us, rfl, ht⟩ := h.opens rfl
  rw [peek_of_tokens hts]
  rintro rfl
  exact absurd ht.opensExpr (by decide)

theorem readItems_cons {b : Lexeme} {bound : List Lexeme} {item : Reader Expr}
    (h : peek ls ≠ .mark .parenRight) :
    readItems item (b :: bound) ls = (item ls >>= fun (a, ls) =>
      if peek ls = .mark .comma then
        readItems item bound ls.tail >>= fun (as, ls) => .ok (a :: as, ls)
      else .ok ([a], ls)) := by
  rw [readItems, if_neg h]

theorem reads_noItems : (Phrase.items []).Reads 0 n rest rest := by
  intro bound hbound hrest
  cases bound with
  | nil => simp at hbound
  | cons b bound =>
    refine .ok (Nat.zero_le n) [] ?_ .nil
    rw [readItems, if_pos hrest]

theorem reads_lastItem (he : Derives (.whole e) k (tokens ls))
    (h : (Phrase.whole e).Reads k n (ls ++ rest) rest) :
    (Phrase.items [e]).Reads k n (ls ++ rest) rest := by
  intro bound hbound hrest
  cases bound with
  | nil =>
    simp only [List.length_append, List.length_nil] at hbound
    omega
  | cons b bound =>
    rw [readItems_cons (ne_parenRight_of_opens he rfl)]
    refine h.andThen fun e' he' => ⟨[e'], ?_, .cons he' .nil⟩
    dsimp only
    rw [if_neg (by rw [hrest]; simp)]

theorem reads_items {es : List Expr} (he : Derives (.whole e) j (tokens ls))
    (h : (Phrase.whole e).Reads j n (ls ++ l :: (us ++ rest)) (l :: (us ++ rest)))
    (hl : l.token = .mark .comma) (hes : (Phrase.items es).Reads k n (us ++ rest) rest) :
    (Phrase.items (e :: es)).Reads (max j k) n (ls ++ l :: (us ++ rest)) rest := by
  intro bound hbound hrest
  simp only [List.length_append, List.length_cons] at hbound
  cases bound with
  | nil =>
    rw [List.length_nil] at hbound
    omega
  | cons b bound =>
    rw [readItems_cons (ne_parenRight_of_opens he rfl)]
    refine h.bind (q := k ≤ n) (fun e' he' => ?_) (by omega)
    simp only [peek, hl, if_true, List.tail_cons]
    refine (hes bound ?_ hrest).andThen fun es' hes' => ⟨_, rfl, .cons he' hes'⟩
    simp only [List.length_append, List.length_cons] at hbound ⊢
    omega

/-- Whatever stands behind that does not go on with it, a phrase is read up to its end. -/
theorem reads_of_derives {φ : Phrase} {ts : List Token} (h : Derives φ k ts) :
    ∀ {n us rest}, tokens us = ts → (peek rest).rank < φ.rank → φ.Reads k n (us ++ rest) rest := by
  induction h with
  | leaf h =>
    intro n us rest hus _
    obtain ⟨l, vs, rfl, rfl, hvs⟩ := tokens_eq_cons_iff.1 hus
    obtain rfl := List.map_eq_nil_iff.1 hvs
    exact reads_leaf h
  | parens _ ih =>
    intro n us rest hus _
    obtain ⟨vs, rs, rfl, hvs, hrs⟩ := tokens_eq_append_iff.1 hus
    obtain ⟨l, vs, rfl, hl, hvs⟩ := tokens_eq_cons_iff.1 hvs
    obtain ⟨r, rs, rfl, hr, hrs⟩ := tokens_eq_cons_iff.1 hrs
    obtain rfl := List.map_eq_nil_iff.1 hrs
    rw [List.append_assoc]
    refine reads_parens hl hr (ih hvs ?_)
    rw [List.cons_append, peek, hr]
    exact Nat.zero_lt_one
  | noCalls =>
    intro n us rest hus hrest
    obtain rfl := List.map_eq_nil_iff.1 hus
    exact reads_noCalls hrest
  | calls _ _ ihargs ih =>
    intro n us rest hus hrest
    obtain ⟨vs, rs, rfl, hvs, hrs⟩ := tokens_eq_append_iff.1 hus
    obtain ⟨l, vs, rfl, hl, hvs⟩ := tokens_eq_cons_iff.1 hvs
    obtain ⟨r, rs, rfl, hr, hrs⟩ := tokens_eq_cons_iff.1 hrs
    rw [List.append_assoc, List.cons_append, List.cons_append]
    refine reads_calls hl hr (fun n => ihargs hvs ?_) fun n => ih hrs hrest
    rw [peek, hr]
    exact Nat.zero_lt_one
  | call _ _ ihf ih =>
    intro n us rest hus hrest
    obtain ⟨vs, ws, rfl, hvs, hws⟩ := tokens_eq_append_iff.1 hus
    rw [List.append_assoc]
    refine reads_call (ihf hvs ?_) (ih hws hrest)
    exact Nat.lt_succ_of_le (Token.rank_le _)
  | minus _ ih =>
    intro n us rest hus hrest
    obtain ⟨l, vs, rfl, hl, hvs⟩ := tokens_eq_cons_iff.1 hus
    exact reads_minus hl fun n => ih hvs hrest
  | noMinus h ih =>
    intro n us rest hus hrest
    obtain ⟨t, vs, hts, ht⟩ := h.opens rfl
    have hpeek : peek (us ++ rest) ≠ .mark .minus := by
      rw [peek_of_tokens (hus.trans hts)]
      exact fun hminus => absurd (ht.minus hminus) (by simp [Phrase.rank])
    have h := ih (n := n) hus (Nat.lt_succ_of_lt hrest)
    rw [Phrase.Reads, readNegation.eq_def, if_neg hpeek]
    exact h
  | noMore =>
    intro n us rest hus hrest
    obtain rfl := List.map_eq_nil_iff.1 hus
    exact reads_noMore hrest
  | @more c l op r p e j k ts ts' hop hr h ihr ih =>
    intro n us rest hus hrest
    obtain ⟨vs, ws, rfl, hvs, hws⟩ := tokens_eq_append_iff.1 hus
    obtain ⟨o, vs, rfl, ho, hvs⟩ := tokens_eq_cons_iff.1 hvs
    rw [List.append_assoc]
    refine reads_more hop ho (fun n => ihr hvs ?_) fun n => ih hws hrest
    rw [c.rank_operandPhrase r]
    exact Nat.lt_succ_of_le (rank_behind_operand (hws ▸ h) hrest)
  | @group c l e j k ts ts' hl h ihl ih =>
    intro n us rest hus hrest
    obtain ⟨vs, ws, rfl, hvs, hws⟩ := tokens_eq_append_iff.1 hus
    rw [List.append_assoc]
    refine reads_group (ihl hvs ?_) (ih hws hrest)
    rw [c.rank_operandPhrase l]
    exact Nat.lt_succ_of_le (rank_behind_operand (hws ▸ h) hrest)
  | comparison _ hop _ ihl ihr =>
    intro n us rest hus hrest
    obtain ⟨vs, ws, rfl, hvs, hws⟩ := tokens_eq_append_iff.1 hus
    obtain ⟨o, ws, rfl, ho, hws⟩ := tokens_eq_cons_iff.1 hws
    rw [List.append_assoc]
    refine reads_comparison (ihl hvs ?_) hop ho (ihr hws (Nat.lt_succ_of_lt hrest))
    rw [List.cons_append, peek, ho, rank_comparison hop]
    exact Nat.lt_succ_self 4
  | noComparison _ ih =>
    intro n us rest hus hrest
    exact reads_noComparison (ih hus (Nat.lt_succ_of_lt hrest)) hrest
  | not _ ih =>
    intro n us rest hus hrest
    obtain ⟨l, vs, rfl, hl, hvs⟩ := tokens_eq_cons_iff.1 hus
    exact reads_not hl fun n => ih hvs hrest
  | noNot h ih =>
    intro n us rest hus hrest
    obtain ⟨t, vs, hts, ht⟩ := h.opens rfl
    have hpeek : peek (us ++ rest) ≠ .keyword .not := by
      rw [peek_of_tokens (hus.trans hts)]
      exact fun hnot => absurd (ht.not hnot) (by simp [Phrase.rank])
    have h := ih (n := n) hus (Nat.lt_succ_of_lt hrest)
    rw [Phrase.Reads, readNot.eq_def, if_neg hpeek]
    exact h
  | whole _ ih =>
    intro n us rest hus hrest
    exact reads_whole fun n => ih hus hrest
  | noItems =>
    intro n us rest hus _
    obtain rfl := List.map_eq_nil_iff.1 hus
    exact reads_noItems
  | lastItem h ih =>
    intro n us rest hus hrest
    exact reads_lastItem (hus ▸ h) (ih hus hrest)
  | items he _ ihe ih =>
    intro n us rest hus hrest
    obtain ⟨vs, ws, rfl, hvs, hws⟩ := tokens_eq_append_iff.1 hus
    obtain ⟨l, ws, rfl, hl, hws⟩ := tokens_eq_cons_iff.1 hws
    rw [List.append_assoc]
    refine reads_items (hvs ▸ he) (ihe hvs ?_) hl (ih hws hrest)
    rw [peek, hl]
    exact Nat.zero_lt_one

/-- An expression is read where its levels suffice, and refused for want of levels elsewhere. -/
theorem delivers_read (h : Derives (.whole e) k (tokens us)) (hrest : (peek rest).rank = 0) :
    Delivers TooDeep (read n (us ++ rest)) (k ≤ n) rest (e.Same Pos.forget) :=
  reads_of_derives h rfl (by rw [hrest]; exact Nat.zero_lt_one)

end Expr

/-! ## Texts -/

/-- A list of tokens without the line ends before and behind it. -/
def stripNewlines (ts : List Token) : List Token :=
  (ts.dropWhile (fun t => decide (t = .newline))).rdropWhile (fun t => decide (t = .newline))

theorem stripNewlines_append {as ts bs : List Token} (has : ∀ t ∈ as, t = .newline)
    (hts : ∀ t ∈ ts, t ≠ .newline) (hbs : ∀ t ∈ bs, t = .newline) (hne : ts ≠ []) :
    stripNewlines (as ++ (ts ++ bs)) = ts := by
  obtain ⟨t, us, rfl⟩ := List.exists_cons_of_ne_nil hne
  have hfront : (as ++ (t :: us ++ bs)).dropWhile (fun t => decide (t = .newline)) =
      t :: us ++ bs := by
    rw [List.dropWhile_append_of_pos (by simpa using has), List.cons_append,
      List.dropWhile_cons_of_neg (by simpa using hts t (by simp))]
  rw [stripNewlines, hfront, List.rdropWhile, List.reverse_append,
    List.dropWhile_append_of_pos (by simpa using hbs)]
  refine List.rdropWhile_eq_self_iff.2 fun hl => ?_
  simpa using hts _ (List.getLast_mem hl)

/-- What is stripped off is line ends. -/
theorem exists_strip (ms : List Lexeme) : ∃ as us bs, ms = as ++ (us ++ bs) ∧
    tokens us = stripNewlines (tokens ms) ∧ (∀ l ∈ as, l.token = .newline) ∧
      ∀ l ∈ bs, l.token = .newline := by
  have hfront := (List.takeWhile_append_dropWhile
    (p := fun t => decide (t = Token.newline)) (l := tokens ms)).symm
  obtain ⟨as, vs, rfl, has, hvs⟩ := tokens_eq_append_iff.1 hfront
  have hback := (List.rdropWhile_append_rtakeWhile
    (p := fun t => decide (t = Token.newline)) (l := tokens vs)).symm
  obtain ⟨us, bs, rfl, hus, hbs⟩ := tokens_eq_append_iff.1 hback
  refine ⟨as, us, bs, rfl, by rw [hus, hvs]; rfl, ?_, ?_⟩
  · intro l hl
    have hmem : l.token ∈ tokens as := List.mem_map_of_mem hl
    rw [has] at hmem
    simpa using List.mem_takeWhile_imp hmem
  · intro l hl
    have hmem : l.token ∈ tokens bs := List.mem_map_of_mem hl
    rw [hbs] at hmem
    simpa using List.mem_rtakeWhile_imp hmem

/-- The end of input is the last lexeme of a text, and no other. -/
theorem exists_endOfInput {mode : ScanMode} {text : String} {ls : List Lexeme}
    (h : scan mode text = .ok ls) : ∃ ms l, ls = ms ++ [l] ∧ l.token = .endOfInput ∧
      ∀ m ∈ ms, m.token ≠ .endOfInput := by
  have hended := terminated_of_scan h
  obtain ⟨ms, l, rfl⟩ := hended.exists_concat
  obtain ⟨hms, hl⟩ := terminated_append_singleton_iff.1 hended
  exact ⟨ms, l, rfl, hl, hms⟩

/-- The tokens of a text without line ends at either end and without the end of input. -/
def coreTokens (ls : List Lexeme) : List Token :=
  stripNewlines (tokens ls).dropLast

theorem coreTokens_append {ms : List Lexeme} {l : Lexeme} :
    coreTokens (ms ++ [l]) = stripNewlines (tokens ms) := by
  rw [coreTokens, tokens_append, tokens_cons, tokens_nil, List.dropLast_concat]

/-- Of a phrase with line ends around it, the phrase is left. -/
theorem Derives.strip {e : Expr} {k : Nat} {as us bs : List Lexeme}
    (h : Derives (.whole e) k (tokens us)) (has : ∀ l ∈ as, l.token = .newline)
    (hbs : ∀ l ∈ bs, l.token = .newline) :
    stripNewlines (tokens (as ++ (us ++ bs))) = tokens us := by
  obtain ⟨t, ts, hts, -⟩ := h.opens rfl
  rw [tokens_append, tokens_append]
  refine stripNewlines_append (by simpa [tokens] using has) ?_ (by simpa [tokens] using hbs) ?_
  · rintro t ht rfl
    exact absurd (h.isLayout _ ht) (by decide)
  · rw [hts]
    simp

/-- What a text is, when it is read as an expression, is derived from its tokens. -/
theorem Expr.derives_of_parse {text : String} {ls : List Lexeme} {e : Expr}
    (hls : scan .expression text = .ok ls) (h : Expr.parse text = .ok e) :
    ∃ k, Derives (.whole e) k (coreTokens ls) := by
  obtain ⟨ls', rest, hls', he, hend⟩ := Expr.parse_eq_ok_iff.1 h
  obtain rfl : ls = ls' := Except.ok.inj (hls.symm.trans hls')
  obtain ⟨ms, l, rfl, hl, hms⟩ := exists_endOfInput hls
  obtain ⟨us, k, hskip, hk⟩ := Expr.derives_of_read he
  obtain ⟨as, has, hsplit⟩ := exists_skipNewlines (ms ++ [l])
  rw [hskip, ← List.append_assoc] at hsplit
  have hbefore : ∀ m ∈ as ++ us, m.token ≠ .endOfInput := by
    refine List.forall_mem_append.2 ⟨fun m hm => by simp [has m hm], fun m hm hend => ?_⟩
    have := hk.isLayout m.token (List.mem_map_of_mem hm)
    rw [hend] at this
    cases this
  rcases List.eq_nil_or_concat rest with rfl | ⟨bs, l', rfl⟩
  · rw [List.append_nil] at hsplit
    exact absurd hl (hbefore l (hsplit ▸ by simp))
  · rw [List.concat_eq_append, ← List.append_assoc] at hsplit
    obtain ⟨rfl, hl'⟩ := List.append_inj' hsplit rfl
    obtain rfl : l = l' := by simpa using hl'
    rw [List.concat_eq_append] at hend
    have hbs : skipNewlines bs = [] := skipNewlines_eq_nil (fun m hm => hms m (by simp [hm])) hend
    refine ⟨k, ?_⟩
    rw [coreTokens_append, List.append_assoc, hk.strip has (by simpa [skipNewlines] using hbs)]
    exact hk

/-- Where the tokens of a text are an expression, so is the text, if there are levels enough. -/
theorem Expr.parse_of_derives {text : String} {ls : List Lexeme} {e : Expr} {k : Nat}
    (hls : scan .expression text = .ok ls) (h : Derives (.whole e) k (coreTokens ls)) :
    if k ≤ maxNesting then ∃ e', Expr.parse text = .ok e' ∧ e.Same Pos.forget e'
    else ∃ p, Expr.parse text = .error ⟨p, .expressionTooDeep⟩ := by
  obtain ⟨ms, l, rfl, hl, -⟩ := exists_endOfInput hls
  obtain ⟨as, us, bs, rfl, hus, has, hbs⟩ := exists_strip ms
  rw [coreTokens_append, ← hus] at h
  have hskip : skipNewlines (as ++ (us ++ bs) ++ [l]) = us ++ (bs ++ [l]) := by
    rw [List.append_assoc, skipNewlines_newlines has, List.append_assoc]
    refine skipNewlines_of_opensExpr ?_
    obtain ⟨t, ts, hts, ht⟩ := h.opens rfl
    rw [peek_of_tokens hts]
    exact ht.opensExpr
  have hend : peek (skipNewlines (bs ++ [l])) = .endOfInput := by
    rw [skipNewlines_newlines hbs, skipNewlines_of_ne] <;> simp [peek, hl]
  have hrest : (peek (bs ++ [l])).rank = 0 := by
    cases bs with
    | nil => rw [List.nil_append, peek, hl]; rfl
    | cons b bs => rw [List.cons_append, peek, hbs b (by simp)]; rfl
  cases Expr.delivers_read (n := maxNesting) h hrest with
  | ok hk e' he' hsame =>
    rw [if_pos hk]
    exact ⟨e', Expr.parse_eq_ok_iff.2 ⟨_, _, hls, hskip ▸ he', hend⟩, hsame⟩
  | refused hk p f he' hf =>
    rw [if_neg hk]
    cases hf
    refine ⟨p, ?_⟩
    unfold Expr.parse
    rw [hls]
    show (Expr.read maxNesting (skipNewlines _) >>= _) = _
    rw [hskip, he']
    rfl

/-- A text is accepted as an expression exactly if its tokens, without line ends around them, are
derived by the grammar, and what is returned is the tree of the derivation; only where this takes
more levels of nesting than there are the text is refused, and for that reason. A text that is no
list of tokens is refused as such. -/
theorem parseExpr_grammar (file text : String) :
    match scan .expression text with
    | .error fault => parseExpr file text = .error (fault.inFile file)
    | .ok ls =>
      (∀ e, parseExpr file text = .ok e → ∃ k, Derives (.whole e) k (coreTokens ls)) ∧
      ∀ e k, Derives (.whole e) k (coreTokens ls) →
        if k ≤ maxNesting then ∃ e', parseExpr file text = .ok e' ∧ e.Same Pos.forget e'
        else ∃ p, parseExpr file text =
          .error (.parse ⟨file, p⟩ "expression nested too deeply") := by
  cases hls : scan .expression text with
  | error fault =>
    simp only [parseExpr, Expr.parse, hls]
    rfl
  | ok ls =>
    dsimp only
    constructor
    · intro e he
      unfold parseExpr at he
      cases hparse : Expr.parse text with
      | error fault => rw [hparse] at he; cases he
      | ok e' =>
        rw [hparse] at he
        cases he
        exact Expr.derives_of_parse hls hparse
    · intro e k h
      have hparse := Expr.parse_of_derives hls h
      by_cases hk : k ≤ maxNesting
      · rw [if_pos hk] at hparse ⊢
        obtain ⟨e', he', hsame⟩ := hparse
        exact ⟨e', by rw [parseExpr, he']; rfl, hsame⟩
      · rw [if_neg hk] at hparse ⊢
        obtain ⟨p, hp⟩ := hparse
        exact ⟨p, by rw [parseExpr, hp]; rfl⟩

end ScriptShell
