import ScriptShell.Proofs.Expr.Complete
import ScriptShell.Proofs.Token.Spelling

/-!
# ScriptShell.Proofs.Expr.Print

How expressions are printed: every operand that is no single token stands in parentheses, and so
does the callee of a call. Arguments stand between commas anyway; whether they get parentheses of
their own is left to the printer.

* `Expr.tokens`: the tokens of an expression.
* `Expr.derives_tokens`: they are an expression of the grammar, which takes at most three levels of
  nesting for each operator or call on the way to a leaf, and one more.
* `Expr.isSpellable_tokens`, `Expr.balanced_tokens`: they can be written, and close their
  parentheses.
-/

namespace ScriptShell

/-- The tokens of an operand, in parentheses unless the expression is a single token. -/
def enclose (e : Expr) (ts : List Token) : List Token :=
  if e.leafToken?.isSome then ts else .mark .parenLeft :: ts ++ [.mark .parenRight]

/-- The tokens of an expression. With `wrap`, arguments are printed like operands. -/
def Expr.tokens (wrap : Bool) : Expr → List Token
  | .none => [.keyword .none]
  | .bool true => [.keyword .true]
  | .bool false => [.keyword .false]
  | .int i => [.int i]
  | .str s => [.str s]
  | .name id _ => [.name id]
  | .unary op e _ => op.token :: enclose e (e.tokens wrap)
  | .binary op l r _ => enclose l (l.tokens wrap) ++ op.token :: enclose r (r.tokens wrap)
  | .call f args _ => enclose f (f.tokens wrap) ++
      .mark .parenLeft :: ([.mark .comma].intercalate (argTokens args) ++ [.mark .parenRight])
where
  /-- The tokens of each argument. -/
  argTokens : List Expr → List (List Token)
    | [] => []
    | e :: es => (if wrap then enclose e (e.tokens wrap) else e.tokens wrap) :: argTokens es

/-- Can the expression be printed? Its integers are not negative and its names are identifiers. -/
def Expr.isPrintable : Expr → Bool
  | .none | .bool _ | .str _ => true
  | .int i => 0 ≤ i.val
  | .name id _ => isIdentifier id
  | .unary _ e _ => e.isPrintable
  | .binary _ l r _ => l.isPrintable && r.isPrintable
  | .call f args _ => f.isPrintable && argsPrintable args
where
  /-- Can all arguments be printed? -/
  argsPrintable : List Expr → Bool
    | [] => true
    | e :: es => e.isPrintable && argsPrintable es

variable {e l r f : Expr} {t : Token} {ts us : List Token} {j k : Nat} {c : Chain} {op : BinaryOp}
  {p : Pos} {wrap : Bool}

theorem tokens_of_leafToken? (h : e.leafToken? = some t) : e.tokens wrap = [t] := by
  unfold Expr.leafToken? at h
  split at h <;> cases h <;> rfl

theorem enclose_of_leafToken? (h : e.leafToken? = some t) : enclose e (e.tokens wrap) = [t] := by
  rw [enclose, h, tokens_of_leafToken? h]
  rfl

theorem enclose_of_none (h : e.leafToken? = none) :
    enclose e ts = .mark .parenLeft :: ts ++ [.mark .parenRight] := by
  rw [enclose, h]
  rfl

/-! ## Printed expressions follow the grammar -/

/-- Every operator belongs to a group or compares. -/
theorem BinaryOp.chain_or_comparison (op : BinaryOp) :
    (∃ c : Chain, op ∈ c.ops) ∨ op ∈ comparisons := by
  cases op
  case or => exact .inl ⟨.or, by decide⟩
  case and => exact .inl ⟨.and, by decide⟩
  case add | sub => exact .inl ⟨.sum, by decide⟩
  case mul | floorDiv | mod => exact .inl ⟨.product, by decide⟩
  all_goals exact .inr (by decide)

namespace Derives

theorem group_single (h : Derives (c.operandPhrase e) k ts) : Derives (.group c e) k ts := by
  simpa using Derives.group h .noMore

/-- The operands of a group joined by its operators are an expression. -/
theorem whole_of_group (h : Derives (.group c e) k ts) : Derives (.whole e) (k + 1) ts := by
  have hand : ∀ {e k ts}, Derives (.group .and e) k ts → Derives (.whole e) (k + 1) ts :=
    fun h => .whole (group_single (c := .or) h)
  have hsum : ∀ {e k ts}, Derives (.group .sum e) k ts → Derives (.whole e) (k + 1) ts :=
    fun h => hand (group_single (c := .and) (.noNot (.noComparison h)))
  cases c with
  | or => exact .whole h
  | and => exact hand h
  | sum => exact hsum h
  | product => exact hsum (group_single (c := .sum) h)

theorem whole_of_not (h : Derives (.not e) k ts) : Derives (.whole e) (k + 1) ts :=
  whole_of_group (group_single (c := .and) h)

theorem whole_of_negation (h : Derives (.negation e) k ts) : Derives (.whole e) (k + 1) ts :=
  whole_of_group (group_single (c := .product) h)

/-- A primary expression is an operand of every group. -/
theorem operand_of_primary (h : Derives (.primary e) k ts) :
    Derives (c.operandPhrase e) k ts := by
  have hnegation : Derives (.negation e) k ts := .noMinus (by simpa using Derives.call h .noCalls)
  have hproduct : Derives (.group .product e) k ts := group_single hnegation
  have hnot : Derives (.not e) k ts :=
    .noNot (.noComparison (group_single (c := .sum) hproduct))
  cases c with
  | or => exact group_single (c := .and) hnot
  | and => exact hnot
  | sum => exact hproduct
  | product => exact hnegation

theorem whole_of_primary (h : Derives (.primary e) k ts) : Derives (.whole e) (k + 1) ts :=
  whole_of_negation (operand_of_primary (c := .product) h)

/-- What is an expression is a primary expression as an operand. -/
theorem enclose (h : Derives (.whole e) k (e.tokens wrap)) :
    ∃ k' ≤ k, Derives (.primary e) k' (ScriptShell.enclose e (e.tokens wrap)) := by
  cases hleaf : e.leafToken? with
  | some t =>
    rw [enclose_of_leafToken? hleaf]
    exact ⟨0, Nat.zero_le k, .leaf hleaf⟩
  | none =>
    rw [enclose_of_none hleaf]
    exact ⟨k, Nat.le_refl k, .parens h⟩

theorem unary (op : UnaryOp) (h : Derives (.primary e) k ts) :
    Derives (.whole (.unary op e p)) (k + 2) (op.token :: ts) := by
  cases op with
  | neg => exact whole_of_negation (.minus (operand_of_primary (c := .product) h))
  | not => exact whole_of_not (.not (operand_of_primary (c := .and) h))

theorem binary (op : BinaryOp) (hl : Derives (.primary l) j ts) (hr : Derives (.primary r) k us) :
    ∃ m ≤ max j k + 2, Derives (.whole (.binary op l r p)) m (ts ++ op.token :: us) := by
  rcases op.chain_or_comparison with ⟨c, hop⟩ | hop
  · have h : Derives (.more c l (.binary op l r p)) (k + 1) (op.token :: us) := by
      simpa using Derives.more hop (operand_of_primary hr) .noMore
    exact ⟨_, by omega, whole_of_group (.group (operand_of_primary hl) h)⟩
  · have hsum : ∀ {e k ts}, Derives (.primary e) k ts → Derives (.group .sum e) k ts :=
      fun h => group_single (operand_of_primary (c := .sum) h)
    exact ⟨_, by omega, whole_of_not (.noNot (.comparison (hsum hl) hop (hsum hr)))⟩

theorem ofCall {args : List Expr} (hf : Derives (.primary f) j ts)
    (hargs : Derives (.items args) k us) :
    Derives (.whole (.call f args p)) (max j (k + 1) + 1)
      (ts ++ .mark .parenLeft :: (us ++ [.mark .parenRight])) := by
  have h : Derives (.calls f (.call f args p)) (k + 1)
      (.mark .parenLeft :: (us ++ [.mark .parenRight])) := by
    simpa using Derives.calls hargs .noCalls
  exact whole_of_negation (.noMinus (.call hf h))

/-- One argument more is an argument, or one in front of others. -/
theorem cons_items {es : List Expr} {tss : List (List Token)} (he : Derives (.whole e) j ts)
    (hes : Derives (.items es) k ([.mark .comma].intercalate tss)) (hlength : tss = [] ↔ es = []) :
    ∃ m ≤ max j k, Derives (.items (e :: es)) m ([.mark .comma].intercalate (ts :: tss)) := by
  cases tss with
  | nil =>
    obtain rfl := hlength.1 rfl
    rw [List.intercalate_singleton]
    exact ⟨j, by omega, .lastItem he⟩
  | cons us tss =>
    rw [List.intercalate_cons_cons, List.append_assoc, List.singleton_append]
    exact ⟨_, Nat.le_refl _, .items he hes⟩

end Derives

theorem argTokens_eq_nil_iff {es : List Expr} : Expr.tokens.argTokens wrap es = [] ↔ es = [] := by
  cases es <;> simp [Expr.tokens.argTokens]

theorem derives_leaf (h : e.leafToken? = some t) :
    ∃ k ≤ 3 * e.height + 1, Derives (.whole e) k (e.tokens wrap) := by
  rw [tokens_of_leafToken? h]
  exact ⟨1, by omega, .whole_of_primary (.leaf h)⟩

mutual

/-- A printed expression follows the grammar and takes few levels of nesting. -/
theorem Expr.derives_tokens (wrap : Bool) : ∀ e : Expr,
    ∃ k ≤ 3 * e.height + 1, Derives (.whole e) k (e.tokens wrap)
  | .none => derives_leaf rfl
  | .bool true => derives_leaf rfl
  | .bool false => derives_leaf rfl
  | .int _ => derives_leaf rfl
  | .str _ => derives_leaf rfl
  | .name _ _ => derives_leaf rfl
  | .unary op e p => by
    obtain ⟨k, hk, h⟩ := e.derives_tokens wrap
    obtain ⟨k', hk', h'⟩ := h.enclose
    exact ⟨k' + 2, by simp only [Expr.height]; omega, .unary op h'⟩
  | .binary op l r p => by
    obtain ⟨j, hj, hl⟩ := l.derives_tokens wrap
    obtain ⟨k, hk, hr⟩ := r.derives_tokens wrap
    obtain ⟨j', hj', hl'⟩ := hl.enclose
    obtain ⟨k', hk', hr'⟩ := hr.enclose
    obtain ⟨m, hm, h⟩ := Derives.binary op hl' hr'
    exact ⟨m, by simp only [Expr.height]; omega, h⟩
  | .call f args p => by
    obtain ⟨j, hj, hf⟩ := f.derives_tokens wrap
    obtain ⟨k, hk, hargs⟩ := derives_argTokens wrap args
    obtain ⟨j', hj', hf'⟩ := hf.enclose
    exact ⟨_, by simp only [Expr.height]; omega, .ofCall hf' hargs⟩

/-- So do printed arguments, which take a level more if they have parentheses of their own. -/
theorem derives_argTokens (wrap : Bool) : ∀ es : List Expr,
    ∃ k ≤ 3 * Expr.height.argsHeight es + 2,
      Derives (.items es) k ([.mark .comma].intercalate (Expr.tokens.argTokens wrap es))
  | [] => ⟨0, Nat.zero_le _, .noItems⟩
  | e :: es => by
    obtain ⟨j, hj, he⟩ := e.derives_tokens wrap
    obtain ⟨k, hk, hes⟩ := derives_argTokens wrap es
    obtain ⟨j', hj', he'⟩ : ∃ j' ≤ j + 1, Derives (.whole e) j'
        (if wrap then ScriptShell.enclose e (e.tokens wrap) else e.tokens wrap) := by
      obtain ⟨i, hi, hprimary⟩ := he.enclose
      cases wrap with
      | true => exact ⟨i + 1, by omega, .whole_of_primary hprimary⟩
      | false => exact ⟨j, by omega, he⟩
    obtain ⟨m, hm, h⟩ := he'.cons_items hes argTokens_eq_nil_iff
    exact ⟨m, by simp only [Expr.height.argsHeight]; omega, h⟩

end

/-! ## Printed expressions can be written -/

/-- What is opened is closed. -/
def Balanced (ts : List Token) : Prop :=
  ∀ d, ts.foldl Token.depthAfter d = d

namespace Balanced

theorem nil : Balanced [] := fun _ => rfl

theorem append (h : Balanced ts) (h' : Balanced us) : Balanced (ts ++ us) := fun d => by
  rw [List.foldl_append, h, h']

theorem cons (ht : ∀ d, t.depthAfter d = d) (h : Balanced ts) : Balanced (t :: ts) := fun d => by
  rw [List.foldl_cons, ht, h]

theorem parens (h : Balanced ts) :
    Balanced (.mark .parenLeft :: (ts ++ [.mark .parenRight])) := fun d => by
  rw [List.foldl_cons, List.foldl_append, h]
  rfl

end Balanced

/-- What the reader of expressions takes is balanced, so every expression is. -/
theorem Derives.balanced (h : Derives (.whole e) k ts) : Balanced ts := by
  let us : List Lexeme := ts.map (⟨·, .start⟩)
  have hus : tokens us = ts := by simp [us, tokens, Function.comp_def]
  rw [← hus] at h ⊢
  have hread : Delivers TooDeep (Expr.read k (us ++ [])) (k ≤ k) [] (e.Same Pos.forget) :=
    Expr.delivers_read h (by decide)
  cases hread with
  | refused hk => exact absurd (Nat.le_refl k) hk
  | ok _ e' hread _ =>
    obtain ⟨vs, hvs, hwhole, -⟩ := Expr.frames_read (π := id) k hread
    obtain rfl : us = vs := by simpa using hvs
    intro d
    have hfold : ∀ (ls : List Lexeme) d,
        (tokens ls).foldl Token.depthAfter d = ls.foldl Lexeme.depthAfter d := by
      intro ls d
      rw [tokens, List.foldl_map]
      rfl
    rw [hfold, hwhole.depth]

theorem Expr.balanced_tokens (wrap : Bool) (e : Expr) : Balanced (e.tokens wrap) := by
  obtain ⟨k, -, h⟩ := e.derives_tokens wrap
  exact h.balanced

theorem Expr.tokens_ne_nil (wrap : Bool) (e : Expr) : e.tokens wrap ≠ [] := by
  obtain ⟨k, -, h⟩ := e.derives_tokens wrap
  obtain ⟨t, ts, hts, -⟩ := h.opens rfl
  simp [hts]

theorem isSpellable_enclose (h : ∀ t ∈ ts, t.isSpellable = true) :
    ∀ t ∈ enclose e ts, t.isSpellable = true := by
  unfold enclose
  split
  · exact h
  · simpa [or_imp, forall_and, Token.isSpellable] using h

theorem isSpellable_intercalate {tss : List (List Token)}
    (h : ∀ ts ∈ tss, ∀ t ∈ ts, t.isSpellable = true) :
    ∀ t ∈ [Token.mark .comma].intercalate tss, t.isSpellable = true := by
  induction tss with
  | nil => simp
  | cons ts tss ih =>
    obtain ⟨hts, htss⟩ := List.forall_mem_cons.1 h
    cases tss with
    | nil => simpa using hts
    | cons us tss =>
      rw [List.intercalate_cons_cons]
      simp only [List.forall_mem_append]
      exact ⟨⟨hts, by simp [Token.isSpellable]⟩, ih htss⟩

mutual

theorem Expr.isSpellable_tokens {wrap : Bool} : ∀ {e : Expr}, e.isPrintable = true →
    ∀ t ∈ e.tokens wrap, t.isSpellable = true
  | .none, _ => by simp [Expr.tokens, Token.isSpellable]
  | .bool true, _ => by simp [Expr.tokens, Token.isSpellable]
  | .bool false, _ => by simp [Expr.tokens, Token.isSpellable]
  | .int _, h => by simpa [Expr.tokens, Token.isSpellable, Expr.isPrintable] using h
  | .str _, _ => by simp [Expr.tokens, Token.isSpellable]
  | .name _ _, h => by simpa [Expr.tokens, Token.isSpellable, Expr.isPrintable] using h
  | .unary op e _, h => by
    rw [Expr.isPrintable] at h
    rw [Expr.tokens, List.forall_mem_cons]
    exact ⟨by cases op <;> rfl, isSpellable_enclose (Expr.isSpellable_tokens h)⟩
  | .binary op l r _, h => by
    rw [Expr.isPrintable, Bool.and_eq_true] at h
    rw [Expr.tokens, List.forall_mem_append, List.forall_mem_cons]
    exact ⟨isSpellable_enclose (Expr.isSpellable_tokens h.1), by cases op <;> rfl,
      isSpellable_enclose (Expr.isSpellable_tokens h.2)⟩
  | .call f args _, h => by
    rw [Expr.isPrintable, Bool.and_eq_true] at h
    rw [Expr.tokens, List.forall_mem_append, List.forall_mem_cons, List.forall_mem_append]
    exact ⟨isSpellable_enclose (Expr.isSpellable_tokens h.1), rfl,
      isSpellable_intercalate (isSpellable_argTokens h.2), by simp [Token.isSpellable]⟩

theorem isSpellable_argTokens {wrap : Bool} : ∀ {es : List Expr},
    Expr.isPrintable.argsPrintable es = true →
    ∀ ts ∈ Expr.tokens.argTokens wrap es, ∀ t ∈ ts, t.isSpellable = true
  | [], _ => by simp [Expr.tokens.argTokens]
  | e :: es, h => by
    rw [Expr.isPrintable.argsPrintable, Bool.and_eq_true] at h
    rw [Expr.tokens.argTokens, List.forall_mem_cons]
    refine ⟨?_, isSpellable_argTokens h.2⟩
    have he : ∀ t ∈ e.tokens wrap, t.isSpellable = true := Expr.isSpellable_tokens h.1
    split
    · exact isSpellable_enclose he
    · exact he

end

end ScriptShell
