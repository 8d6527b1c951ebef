import ScriptShell.Proofs.Expr.Frame

/-!
# ScriptShell.Proofs.Expr.Grammar

The grammar of expressions, over tokens, and that what is read off a list follows it.

    or         ::= and ("or" and)*
    and        ::= not ("and" not)*
    not        ::= "not" not | comparison
    comparison ::= sum [("==" | "!=" | "<" | "<=" | ">" | ">=") sum]
    sum        ::= product (("+" | "-") product)*
    product    ::= negation (("*" | "//" | "%") negation)*
    negation   ::= "-" negation | call
    call       ::= primary ("(" [or ("," or)* [","]] ")")*
    primary    ::= integer | string | name | "None" | "True" | "False" | "(" or ")"

A repetition is a phrase of its own, which says how the tree that stands before it grows: so
operators and calls of one line associate to the left. A derivation also counts the levels of
nesting that reading it takes.

* `Phrase`: a phrase of the grammar, with the tree that it stands for.
* `Derives`: a list of tokens is such a phrase.
* `Expr.derives_of_read`: what is read off a list is derived from the tokens that are taken.
-/

namespace ScriptShell

/-- The token that an operator is written as. -/
def UnaryOp.token : UnaryOp → Token
  | .neg => .mark .minus
  | .not => .keyword .not

/-- The token that an operator is written as. -/
def BinaryOp.token : BinaryOp → Token
  | .add => .mark .plus
  | .sub => .mark .minus
  | .mul => .mark .star
  | .floorDiv => .mark .slashSlash
  | .mod => .mark .percent
  | .eq => .mark .eq
  | .notEq => .mark .notEq
  | .lt => .mark .lt
  | .ltEq => .mark .ltEq
  | .gt => .mark .gt
  | .gtEq => .mark .gtEq
  | .and => .keyword .and
  | .or => .keyword .or

/-- The operators of a group. -/
def Chain.ops : Chain → List BinaryOp
  | .or => [.or]
  | .and => [.and]
  | .sum => [.add, .sub]
  | .product => [.mul, .floorDiv, .mod]

/-- The operators that compare. -/
def comparisons : List BinaryOp :=
  [.eq, .notEq, .lt, .ltEq, .gt, .gtEq]

/-- The token that a literal or a name is written as. -/
def Expr.leafToken? : Expr → Option Token
  | .none => some (.keyword .none)
  | .bool true => some (.keyword .true)
  | .bool false => some (.keyword .false)
  | .int i => some (.int i)
  | .str s => some (.str s)
  | .name id _ => some (.name id)
  | _ => Option.none

/-- A phrase of the grammar, with the tree that it stands for. -/
inductive Phrase where
  | primary (e : Expr)
  /-- The calls that stand behind `f` and make it `e`. -/
  | calls (f e : Expr)
  | call (e : Expr)
  | negation (e : Expr)
  /-- The operators of a group that stand behind `l`, with their operands, and make it `e`. -/
  | more (c : Chain) (l e : Expr)
  /-- Operands of a group joined by its operators. -/
  | group (c : Chain) (e : Expr)
  | comparison (e : Expr)
  | not (e : Expr)
  /-- An expression in its own right. -/
  | whole (e : Expr)
  /-- The arguments of a call. -/
  | items (es : List Expr)

/-- An operand of a group. -/
def Chain.operandPhrase : Chain → Expr → Phrase
  | .or => .group .and
  | .and => .not
  | .sum => .group .product
  | .product => .negation

/-- `Derives φ k ts`: the tokens `ts` are the phrase `φ`, which takes `k` levels of nesting. The
places in a tree are free. -/
inductive Derives : Phrase → Nat → List Token → Prop
  | leaf {e t} (h : e.leafToken? = some t) : Derives (.primary e) 0 [t]
  | parens {e k ts} (h : Derives (.whole e) k ts) :
      Derives (.primary e) k (.mark .parenLeft :: ts ++ [.mark .parenRight])
  | noCalls {f} : Derives (.calls f f) 0 []
  | calls {f args p e j k ts us} (hargs : Derives (.items args) j ts)
      (h : Derives (.calls (.call f args p) e) k us) :
      Derives (.calls f e) (max j k + 1)
        (.mark .parenLeft :: ts ++ .mark .parenRight :: us)
  | call {f e j k ts us} (hf : Derives (.primary f) j ts) (h : Derives (.calls f e) k us) :
      Derives (.call e) (max j k) (ts ++ us)
  | minus {e p k ts} (h : Derives (.negation e) k ts) :
      Derives (.negation (.unary .neg e p)) (k + 1) (UnaryOp.neg.token :: ts)
  | noMinus {e k ts} (h : Derives (.call e) k ts) : Derives (.negation e) k ts
  | noMore {c l} : Derives (.more c l l) 0 []
  | more {c l op r p e j k ts us} (hop : op ∈ c.ops) (hr : Derives (c.operandPhrase r) j ts)
      (h : Derives (.more c (.binary op l r p) e) k us) :
      Derives (.more c l e) (max j k + 1) (op.token :: ts ++ us)
  | group {c l e j k ts us} (hl : Derives (c.operandPhrase l) j ts)
      (h : Derives (.more c l e) k us) : Derives (.group c e) (max j k) (ts ++ us)
  | comparison {l op r p j k ts us} (hl : Derives (.group .sum l) j ts) (hop : op ∈ comparisons)
      (hr : Derives (.group .sum r) k us) :
      Derives (.comparison (.binary op l r p)) (max j k) (ts ++ op.token :: us)
  | noComparison {e k ts} (h : Derives (.group .sum e) k ts) : Derives (.comparison e) k ts
  | not {e p k ts} (h : Derives (.not e) k ts) :
      Derives (.not (.unary .not e p)) (k + 1) (UnaryOp.not.token :: ts)
  | noNot {e k ts} (h : Derives (.comparison e) k ts) : Derives (.not e) k ts
  | whole {e k ts} (h : Derives (.group .or e) k ts) : Derives (.whole e) (k + 1) ts
  | noItems : Derives (.items []) 0 []
  | lastItem {e k ts} (h : Derives (.whole e) k ts) : Derives (.items [e]) k ts
  | items {e es j k ts us} (he : Derives (.whole e) j ts) (h : Derives (.items es) k us) :
      Derives (.items (e :: es)) (max j k) (ts ++ .mark .comma :: us)

/-! ## Operators and their tokens -/

theorem Chain.op?_eq_some_iff {c : Chain} {t : Token} {op : BinaryOp} :
    c.op? t = some op ↔ op ∈ c.ops ∧ t = op.token := by
  constructor
  · intro h
    unfold Chain.op? at h
    split at h <;> cases h <;> exact ⟨by decide, rfl⟩
  · rintro ⟨hop, rfl⟩
    cases c <;> cases op <;> first | rfl | exact absurd hop (by decide)

theorem comparison?_eq_some_iff {t : Token} {op : BinaryOp} :
    comparison? t = some op ↔ op ∈ comparisons ∧ t = op.token := by
  constructor
  · intro h
    unfold comparison? at h
    split at h <;> cases h <;> exact ⟨by decide, rfl⟩
  · rintro ⟨hop, rfl⟩
    cases op <;> first | rfl | exact absurd hop (by decide)

theorem BinaryOp.isLayout_token (op : BinaryOp) : op.token.isLayout = false := by
  cases op <;> rfl

theorem leafToken?_of_leaf? {l : Lexeme} {e : Expr} (h : l.leaf? = some e) :
    e.leafToken? = some l.token := by
  unfold Lexeme.leaf? at h
  split at h <;> cases h <;> rename_i ht <;> rw [ht] <;> rfl

theorem isLayout_of_leafToken? {e : Expr} {t : Token} (h : e.leafToken? = some t) :
    t.isLayout = false := by
  unfold Expr.leafToken? at h
  split at h <;> cases h <;> rfl

/-- No phrase holds a layout token. -/
theorem Derives.isLayout {φ : Phrase} {k : Nat} {ts : List Token} (h : Derives φ k ts) :
    ∀ t ∈ ts, t.isLayout = false := by
  induction h with
  | leaf h => simpa using isLayout_of_leafToken? h
  | parens _ ih => simpa [or_imp, forall_and, Token.isLayout] using ih
  | noCalls => simp
  | calls _ _ ihargs ih => simpa [or_imp, forall_and, Token.isLayout] using ⟨ihargs, ih⟩
  | call _ _ ihf ih => simpa [or_imp, forall_and] using ⟨ihf, ih⟩
  | minus _ ih => simpa [UnaryOp.token, Token.isLayout] using ih
  | noMinus _ ih => exact ih
  | noMore => simp
  | more _ _ _ ihr ih =>
    simpa [or_imp, forall_and, BinaryOp.isLayout_token] using ⟨ihr, ih⟩
  | group _ _ ihl ih => simpa [or_imp, forall_and] using ⟨ihl, ih⟩
  | comparison _ _ _ ihl ihr =>
    simpa [or_imp, forall_and, BinaryOp.isLayout_token] using ⟨ihl, ihr⟩
  | noComparison _ ih => exact ih
  | not _ ih => simpa [UnaryOp.token, Token.isLayout] using ih
  | noNot _ ih => exact ih
  | whole _ ih => exact ih
  | noItems => simp
  | lastItem _ ih => exact ih
  | items _ _ ihe ih => simpa [or_imp, forall_and, Token.isLayout] using ⟨ihe, ih⟩

/-! ## What is read follows the grammar -/

/-- The tokens of a list of lexemes. -/
def tokens (ls : List Lexeme) : List Token :=
  ls.map (·.token)

@[simp] theorem tokens_nil : tokens [] = [] := rfl

@[simp] theorem tokens_cons (l : Lexeme) (ls : List Lexeme) :
    tokens (l :: ls) = l.token :: tokens ls := rfl

@[simp] theorem tokens_append (ls ms : List Lexeme) :
    tokens (ls ++ ms) = tokens ls ++ tokens ms :=
  List.map_append

/-- The tokens that stand before `rest` in `ls` are a phrase. -/
def Parsed (φ : Phrase) (ls rest : List Lexeme) : Prop :=
  ∃ us k, ls = us ++ rest ∧ Derives φ k (tokens us)

/-- What a reader reads is a phrase. -/
def Produces {α : Type} (r : Reader α) (φ : α → Phrase) : Prop :=
  ∀ ⦃ls a rest⦄, r ls = .ok (a, rest) → Parsed (φ a) ls rest

theorem parsed_items {item : Reader Expr} (hitem : Produces item .whole) :
    ∀ {bound ls es rest}, readItems item bound ls = .ok (es, rest) →
      Parsed (.items es) ls rest := by
  intro bound
  induction bound with
  | nil =>
    intro ls es rest h
    cases h
    exact ⟨[], 0, rfl, .noItems⟩
  | cons b bound ih =>
    intro ls es rest h
    rcases readItems_cons_eq_ok_iff.1 h with
      ⟨-, rfl, rfl⟩ | ⟨-, e, he, -, rfl⟩ | ⟨-, e, l, ls', es', he, hl, hes, rfl⟩
    · exact ⟨[], 0, rfl, .noItems⟩
    · obtain ⟨us, k, rfl, hus⟩ := hitem he
      exact ⟨us, k, rfl, .lastItem hus⟩
    · obtain ⟨us, j, hls, hus⟩ := hitem he
      obtain ⟨vs, k, rfl, hvs⟩ := ih hes
      refine ⟨us ++ l :: vs, max j k, by simpa using hls, ?_⟩
      rw [tokens_append, tokens_cons, hl]
      exact .items hus hvs

namespace Expr

variable {n : Nat}

theorem produces_readPrimary (hread : Produces (read n) .whole) :
    Produces (readPrimary n) .primary := by
  intro ls e rest h
  rcases readPrimary_eq_ok_iff.1 h with ⟨l, rfl, hl⟩ | ⟨l, r, ls', rfl, hl, he, hr⟩
  · exact ⟨[l], 0, rfl, .leaf (leafToken?_of_leaf? hl)⟩
  · obtain ⟨us, k, rfl, hus⟩ := hread he
    refine ⟨l :: us ++ [r], k, by simp, ?_⟩
    rw [tokens_append, tokens_cons, tokens_cons, tokens_nil, hl, hr]
    exact .parens hus

theorem produces_readCalls (hread : ∀ m < n, Produces (read m) .whole) :
    ∀ f, Produces (readCalls n f) (.calls f) := by
  induction n with
  | zero =>
    intro f ls e rest h
    rcases readCalls_eq_ok_iff.1 h with ⟨-, rfl, rfl⟩ | ⟨m, _, _, _, _, _, hm, -⟩
    · exact ⟨[], 0, rfl, .noCalls⟩
    · omega
  | succ n ih =>
    intro f ls e rest h
    rcases readCalls_eq_ok_iff.1 h with
      ⟨-, rfl, rfl⟩ | ⟨m, l, ls', args, r, ls'', hm, rfl, hl, hargs, hr, he⟩
    · exact ⟨[], 0, rfl, .noCalls⟩
    · obtain rfl : n = m := by omega
      obtain ⟨us, j, rfl, hus⟩ := parsed_items (hread n (by omega)) hargs
      obtain ⟨vs, k, rfl, hvs⟩ := ih (fun m hm => hread m (by omega)) _ he
      refine ⟨l :: us ++ r :: vs, max j k + 1, by simp, ?_⟩
      rw [tokens_append, tokens_cons, tokens_cons, hl, hr]
      exact .calls hus hvs

theorem produces_readCall (hread : Produces (read n) .whole)
    (ih : ∀ m < n, Produces (read m) .whole) : Produces (readCall n) .call := by
  intro ls e rest h
  obtain ⟨f, ls', hf, he⟩ := readCall_eq_ok_iff.1 h
  obtain ⟨us, j, rfl, hus⟩ := produces_readPrimary hread hf
  obtain ⟨vs, k, rfl, hvs⟩ := produces_readCalls ih f he
  refine ⟨us ++ vs, max j k, by simp, ?_⟩
  rw [tokens_append]
  exact .call hus hvs

theorem produces_readNegation (hcall : Produces (readCall n) .call)
    (ih : ∀ m < n, Produces (readNegation m) .negation) : Produces (readNegation n) .negation := by
  intro ls e rest h
  rcases readNegation_eq_ok_iff.1 h with ⟨-, he⟩ | ⟨m, l, ls', a, rfl, rfl, hl, ha, rfl⟩
  · obtain ⟨us, k, rfl, hus⟩ := hcall he
    exact ⟨us, k, rfl, .noMinus hus⟩
  · obtain ⟨us, k, rfl, hus⟩ := ih m (by omega) ha
    refine ⟨l :: us, k + 1, rfl, ?_⟩
    rw [tokens_cons, hl]
    exact .minus hus

theorem produces_readChain {c : Chain} (hop : ∀ m < n, Produces (c.operand m) c.operandPhrase) :
    ∀ l, Produces (readChain c n l) (.more c l) := by
  induction n with
  | zero =>
    intro l ls e rest h
    rcases readChain_eq_ok_iff.1 h with ⟨-, rfl, rfl⟩ | ⟨m, _, _, _, _, _, hm, -⟩
    · exact ⟨[], 0, rfl, .noMore⟩
    · omega
  | succ n ih =>
    intro l ls e rest h
    rcases readChain_eq_ok_iff.1 h with
      ⟨-, rfl, rfl⟩ | ⟨m, o, ls', op, rhs, ls'', hm, rfl, ho, hrhs, he⟩
    · exact ⟨[], 0, rfl, .noMore⟩
    · obtain rfl : n = m := by omega
      obtain ⟨us, j, rfl, hus⟩ := hop n (by omega) hrhs
      obtain ⟨vs, k, rfl, hvs⟩ := ih (fun m hm => hop m (by omega)) _ he
      obtain ⟨hmem, htoken⟩ := Chain.op?_eq_some_iff.1 ho
      refine ⟨o :: us ++ vs, max j k + 1, by simp, ?_⟩
      rw [tokens_append, tokens_cons, htoken]
      exact .more hmem hus hvs

/-- A first operand and then the operators of its group. -/
theorem produces_group {c : Chain} {r q : Reader Expr} (hr : Produces r c.operandPhrase)
    (hop : ∀ m < n, Produces (c.operand m) c.operandPhrase)
    (hq : ∀ {ls e rest}, q ls = .ok (e, rest) ↔
      ∃ a ls', r ls = .ok (a, ls') ∧ readChain c n a ls' = .ok (e, rest)) :
    Produces q (.group c) := by
  intro ls e rest h
  obtain ⟨a, ls', ha, he⟩ := hq.1 h
  obtain ⟨us, j, rfl, hus⟩ := hr ha
  obtain ⟨vs, k, rfl, hvs⟩ := produces_readChain hop a he
  refine ⟨us ++ vs, max j k, by simp, ?_⟩
  rw [tokens_append]
  exact .group hus hvs

theorem produces_readComparison (hsum : Produces (readSum n) (.group .sum)) :
    Produces (readComparison n) .comparison := by
  intro ls e rest h
  rcases readComparison_eq_ok_iff.1 h with ⟨he, -⟩ | ⟨a, o, ls', op, b, ha, ho, hb, rfl⟩
  · obtain ⟨us, k, rfl, hus⟩ := hsum he
    exact ⟨us, k, rfl, .noComparison hus⟩
  · obtain ⟨us, j, rfl, hus⟩ := hsum ha
    obtain ⟨vs, k, rfl, hvs⟩ := hsum hb
    obtain ⟨hmem, htoken⟩ := comparison?_eq_some_iff.1 ho
    refine ⟨us ++ o :: vs, max j k, by simp, ?_⟩
    rw [tokens_append, tokens_cons, htoken]
    exact .comparison hus hmem hvs

theorem produces_readNot (hcomparison : Produces (readComparison n) .comparison)
    (ih : ∀ m < n, Produces (readNot m) .not) : Produces (readNot n) .not := by
  intro ls e rest h
  rcases readNot_eq_ok_iff.1 h with ⟨-, he⟩ | ⟨m, l, ls', a, rfl, rfl, hl, ha, rfl⟩
  · obtain ⟨us, k, rfl, hus⟩ := hcomparison he
    exact ⟨us, k, rfl, .noNot hus⟩
  · obtain ⟨us, k, rfl, hus⟩ := ih m (by omega) ha
    refine ⟨l :: us, k + 1, rfl, ?_⟩
    rw [tokens_cons, hl]
    exact .not hus

/-- The readers of operands with `n` levels left. -/
structure Producing (n : Nat) : Prop where
  expr : Produces (read n) .whole
  negation : Produces (readNegation n) .negation
  product : Produces (readProduct n) (.group .product)
  not : Produces (readNot n) .not
  and : Produces (readAnd n) (.group .and)

theorem produces_read_of (ih : ∀ m < n, Producing m) : Produces (read n) .whole := by
  intro ls e rest h
  obtain ⟨m, rfl, hor⟩ := read_eq_ok_iff.1 h
  have hgroup : Produces (readOr m) (.group .or) :=
    produces_group (ih m (by omega)).and (fun k hk => (ih k (by omega)).and) readOr_eq_ok_iff
  obtain ⟨us, k, rfl, hus⟩ := hgroup hor
  exact ⟨us, k + 1, rfl, .whole hus⟩

theorem producing (n : Nat) : Producing n := by
  induction n using Nat.strongRecOn with
  | ind n ih =>
    have hexpr : Produces (read n) .whole := produces_read_of ih
    have hneg : Produces (readNegation n) .negation :=
      produces_readNegation (produces_readCall hexpr fun m hm => (ih m hm).expr)
        fun m hm => (ih m hm).negation
    have hprod : Produces (readProduct n) (.group .product) :=
      produces_group hneg (fun m hm => (ih m hm).negation) readProduct_eq_ok_iff
    have hsum : Produces (readSum n) (.group .sum) :=
      produces_group hprod (fun m hm => (ih m hm).product) readSum_eq_ok_iff
    have hnot : Produces (readNot n) .not :=
      produces_readNot (produces_readComparison hsum) fun m hm => (ih m hm).not
    have hand : Produces (readAnd n) (.group .and) :=
      produces_group hnot (fun m hm => (ih m hm).not) readAnd_eq_ok_iff
    exact ⟨hexpr, hneg, hprod, hnot, hand⟩

/-- What is read off a list is derived from the tokens that are taken. -/
theorem derives_of_read {ls rest : List Lexeme} {e : Expr} (h : read n ls = .ok (e, rest)) :
    Parsed (.whole e) ls rest :=
  (producing n).expr h

end Expr
end ScriptShell
