import ScriptShell.Proofs.Expr.Height

/-!
# ScriptShell.Proofs.Expr.Tower

Texts whose trees are as high as the levels of nesting allow. Between one pair of parentheses and
the next stand all five chains at full length, each on top of the one before it, and a comparison.

* `spaced`: the text of a token with a space behind it.
* `tower`: the tokens of the highest tree for a number of levels.
* `exists_parse_of_reads`: a list of tokens that can be read is the list of a text.
-/

namespace ScriptShell

/-- The text of a token, and a space. -/
def spaced (t : Token) : List Char := t.text.toList ++ [' ']

/-- The number one, as a token. -/
def oneToken : Token := .int ⟨1, by decide, by decide⟩

/-- The tokens that towers are built of. -/
def Token.brick (t : Token) : Prop :=
  t = oneToken ∨ t = .mark .parenLeft ∨ t = .mark .parenRight ∨
  t = .mark .star ∨ t = .mark .plus ∨ t = .mark .lt ∨ t = .keyword .and ∨ t = .keyword .or

namespace Scanner

/-- Does the machine stand between tokens? -/
def Ready (s : Scanner) : Prop := s.phase = .inLine ∨ s.phase = .lineStart 0

/-- From between two tokens, the spaced text of a brick is read as that token. -/
theorem run_spaced {t : Token} (ht : t.brick) {s : Scanner} (hs : s.Ready) :
    ∃ s', s.run .expression (spaced t) = .ok s' ∧ s'.phase = .inLine ∧
      s'.indents = s.indents ∧ s'.lexemes = ⟨t, s.pos⟩ :: s.lexemes := by
  obtain ⟨phase, pos, depth, indents, lexemes⟩ := s
  obtain hp | hp := hs <;> dsimp only at hp <;> subst hp <;>
  obtain rfl | rfl | rfl | rfl | rfl | rfl | rfl | rfl := ht <;> exact ⟨_, rfl, rfl, rfl, rfl⟩

theorem run_flatMap_spaced : ∀ {ts : List Token} {s : Scanner}, (∀ t ∈ ts, t.brick) → s.Ready →
    ∃ s', s.run .expression (ts.flatMap spaced) = .ok s' ∧ s'.Ready ∧ s'.indents = s.indents ∧
      s'.lexemes.map Lexeme.token = ts.reverse ++ s.lexemes.map Lexeme.token := by
  intro ts
  induction ts with
  | nil => intro s _ hs; exact ⟨s, rfl, hs, rfl, rfl⟩
  | cons t ts ih =>
    intro s ht hs
    obtain ⟨s₁, hrun, hphase, hind, hlex⟩ := run_spaced (ht t List.mem_cons_self) hs
    obtain ⟨s₂, hrun', hready, hind', hlex'⟩ :=
      ih (fun u hu => ht u (List.mem_cons_of_mem _ hu)) (.inl hphase)
    refine ⟨s₂, ?_, hready, hind'.trans hind, ?_⟩
    · rw [List.flatMap_cons, run_append, hrun]
      exact hrun'
    · rw [hlex', hlex]
      simp

theorem finish_of_ready {s : Scanner} (hs : s.Ready) :
    s.finish = .ok (s.lexemes.reverse ++ s.closing) := by
  obtain ⟨phase, pos, depth, indents, lexemes⟩ := s
  obtain hp | hp := hs <;> dsimp only at hp <;> subst hp <;> rfl

end Scanner

theorem Token.brick.ne_newline {t : Token} (h : t.brick) : t ≠ .newline := by
  obtain rfl | rfl | rfl | rfl | rfl | rfl | rfl | rfl := h <;> decide

/-- The text of some tokens. -/
def spacedText (ts : List Token) : String := String.ofList (ts.flatMap spaced)

/-- A text of bricks is read as these tokens, a line end and the end of input. -/
theorem scan_spacedText {ts : List Token} (hne : ts ≠ []) (ht : ∀ t ∈ ts, t.brick) :
    ∃ ls p, scan .expression (spacedText ts) = .ok (ls ++ [⟨.newline, p⟩, ⟨.endOfInput, p⟩]) ∧
      ls.map Lexeme.token = ts := by
  obtain ⟨s, hrun, hready, hind, hlex⟩ :=
    Scanner.run_flatMap_spaced (s := Scanner.start) ht (.inr rfl)
  have htokens : s.lexemes.reverse.map Lexeme.token = ts := by
    rw [List.map_reverse, hlex]
    simp [Scanner.start]
  refine ⟨s.lexemes.reverse, s.pos, ?_, htokens⟩
  have hclosing : s.closing = [⟨.newline, s.pos⟩, ⟨.endOfInput, s.pos⟩] := by
    unfold Scanner.closing
    rw [hind]
    cases hl : s.lexemes with
    | nil => rw [hl] at htokens; exact absurd htokens.symm hne
    | cons l lexemes =>
      have hmem : l.token ∈ ts := by
        rw [← htokens, hl]
        simp
      dsimp only
      rw [if_neg (ht _ hmem).ne_newline]
      rfl
  rw [scan, spacedText, String.toList_ofList, hrun]
  dsimp only
  rw [Scanner.finish_of_ready hready, hclosing]

namespace Chain

/-- An operator of the group. -/
def sign : Chain → Token
  | .or => .keyword .or
  | .and => .keyword .and
  | .sum => .mark .plus
  | .product => .mark .star

/-- The groups that bind more tightly. -/
def tighter : Chain → List Chain
  | .or => [.and, .sum, .product]
  | .and => [.sum, .product]
  | .sum => [.product]
  | .product => []

/-- May the token stand behind an operand of the group, without making the operand longer? -/
def Ends (c : Chain) (t : Token) : Prop :=
  t ≠ .mark .parenLeft ∧ (∀ d ∈ c.tighter, d.op? t = none) ∧
    (c = .and ∨ c = .or → comparison? t = none)

/-- `k` operators of the group, each with the operand one. -/
def tokens (c : Chain) : Nat → List Token
  | 0 => []
  | k + 1 => c.sign :: oneToken :: c.tokens k

end Chain

/-- `k` calls without arguments. -/
def callTokens : Nat → List Token
  | 0 => []
  | k + 1 => .mark .parenLeft :: .mark .parenRight :: callTokens k

/-- Every chain with `k` operators, each chain on top of the one before it and the first on top of
some tokens. -/
def storey (k : Nat) (core : List Token) : List Token :=
  core ++ callTokens k ++ Chain.product.tokens k ++ Chain.sum.tokens k ++
    [.mark .lt, oneToken] ++ Chain.and.tokens k ++ Chain.or.tokens k

/-- A storey for each number of levels from `n` down, each between parentheses in the next. -/
def tower : Nat → List Token
  | 0 => storey 0 [oneToken]
  | n + 1 => storey (n + 1) (.mark .parenLeft :: tower n ++ [.mark .parenRight])

theorem peek_append_tokens {P : Token → Prop} {c : Chain} {k : Nat} {ls rest : List Lexeme}
    (hls : ls.map Lexeme.token = c.tokens k) (hsign : P c.sign) (hrest : P (peek rest)) :
    P (peek (ls ++ rest)) := by
  cases k with
  | zero =>
    rw [List.map_eq_nil_iff.1 hls]
    exact hrest
  | succ k =>
    cases ls with
    | nil => cases hls
    | cons o ls' =>
      obtain ⟨ho, -⟩ := List.cons.inj hls
      rw [show peek (o :: ls' ++ rest) = c.sign from ho]
      exact hsign

namespace Expr

variable {n k h : Nat} {e : Expr} {l : Lexeme} {ls rest : List Lexeme}

theorem leaf_of_oneToken (hl : l.token = oneToken) :
    l.leaf? = some (.int ⟨1, by decide, by decide⟩) := by
  simp only [Lexeme.leaf?, hl, oneToken]

theorem readPrimary_one (n : Nat) (rest : List Lexeme) (hl : l.token = oneToken) :
    ∃ e, readPrimary n (l :: rest) = .ok (e, rest) ∧ e.height = 0 :=
  ⟨_, readPrimary_eq_ok_iff.2 (.inl ⟨l, rfl, leaf_of_oneToken hl⟩), rfl⟩

theorem readNegation_of_readCall (hm : peek ls ≠ .mark .minus)
    (h : readCall n ls = .ok (e, rest)) : readNegation n ls = .ok (e, rest) :=
  readNegation_eq_ok_iff.2 (.inl ⟨hm, h⟩)

theorem readProduct_of_readNegation (hop : Chain.product.op? (peek rest) = Option.none)
    (h : readNegation n ls = .ok (e, rest)) : readProduct n ls = .ok (e, rest) :=
  readProduct_eq_ok_iff.2 ⟨e, rest, h, readChain_eq_ok_iff.2 (.inl ⟨hop, rfl, rfl⟩)⟩

theorem readSum_of_readProduct (hop : Chain.sum.op? (peek rest) = Option.none)
    (h : readProduct n ls = .ok (e, rest)) : readSum n ls = .ok (e, rest) :=
  readSum_eq_ok_iff.2 ⟨e, rest, h, readChain_eq_ok_iff.2 (.inl ⟨hop, rfl, rfl⟩)⟩

theorem readNot_of_readSum (hn : peek ls ≠ .keyword .not)
    (hop : comparison? (peek rest) = Option.none) (h : readSum n ls = .ok (e, rest)) :
    readNot n ls = .ok (e, rest) :=
  readNot_eq_ok_iff.2 (.inl ⟨hn, readComparison_eq_ok_iff.2 (.inl ⟨h, hop⟩)⟩)

theorem readAnd_of_readNot (hop : Chain.and.op? (peek rest) = Option.none)
    (h : readNot n ls = .ok (e, rest)) : readAnd n ls = .ok (e, rest) :=
  readAnd_eq_ok_iff.2 ⟨e, rest, h, readChain_eq_ok_iff.2 (.inl ⟨hop, rfl, rfl⟩)⟩

/-- The number one is an operand of every group, whatever levels are left. -/
theorem operand_one {c : Chain} (hl : l.token = oneToken) (hr : c.Ends (peek rest)) :
    ∃ e, c.operand n (l :: rest) = .ok (e, rest) ∧ e.height = 0 := by
  obtain ⟨hparen, htight, hcomp⟩ := hr
  obtain ⟨e, hp, he⟩ := readPrimary_one n rest hl
  refine ⟨e, ?_, he⟩
  have hcall : readCall n (l :: rest) = .ok (e, rest) :=
    readCall_eq_ok_iff.2 ⟨e, rest, hp, readCalls_eq_ok_iff.2 (.inl ⟨hparen, rfl, rfl⟩)⟩
  have hneg := readNegation_of_readCall (by simp [peek, hl, oneToken]) hcall
  have hnot : peek (l :: rest) ≠ .keyword .not := by simp [peek, hl, oneToken]
  cases c with
  | product => exact hneg
  | sum => exact readProduct_of_readNegation (htight _ (by decide)) hneg
  | and =>
    have hprod := readProduct_of_readNegation (htight .product (by decide)) hneg
    have hsum := readSum_of_readProduct (htight .sum (by decide)) hprod
    exact readNot_of_readSum hnot (hcomp (.inl rfl)) hsum
  | or =>
    have hprod := readProduct_of_readNegation (htight .product (by decide)) hneg
    have hsum := readSum_of_readProduct (htight .sum (by decide)) hprod
    have hn := readNot_of_readSum hnot (hcomp (.inr rfl)) hsum
    exact readAnd_of_readNot (htight .and (by decide)) hn

theorem ends_sign (c : Chain) : c.Ends c.sign := by
  cases c <;> exact ⟨by decide, by decide, by decide⟩

/-- Each operator of a chain makes the tree higher by one. -/
theorem readChain_tokens {c : Chain} : ∀ {k n : Nat} (lhs : Expr) {ls rest : List Lexeme},
    k ≤ n → ls.map Lexeme.token = c.tokens k → c.Ends (peek rest) →
    c.op? (peek rest) = Option.none →
    ∃ e, readChain c n lhs (ls ++ rest) = .ok (e, rest) ∧ e.height = lhs.height + k := by
  intro k
  induction k with
  | zero =>
    intro n lhs ls rest _ hls _ hop
    rw [List.map_eq_nil_iff.1 hls]
    exact ⟨lhs, readChain_eq_ok_iff.2 (.inl ⟨hop, rfl, rfl⟩), rfl⟩
  | succ k ih =>
    intro n lhs ls rest hk hls hends hop
    obtain ⟨m, rfl⟩ : ∃ m, n = m + 1 := ⟨n - 1, by omega⟩
    obtain ⟨o, ls₁, rfl, ho, hls⟩ := List.map_eq_cons_iff.1 hls
    obtain ⟨l, ls', rfl, hl, hls⟩ := List.map_eq_cons_iff.1 hls
    have hnext := peek_append_tokens hls (ends_sign c) hends
    obtain ⟨rhs, hrhs, hzero⟩ := operand_one (n := m) hl hnext
    have hsign : ∃ op, c.op? o.token = some op := by
      rw [ho]
      cases c <;> exact ⟨_, rfl⟩
    obtain ⟨op, hsome⟩ := hsign
    obtain ⟨e, he, hheight⟩ :=
      ih (n := m) (.binary op lhs rhs o.pos) (by omega) hls hends hop
    refine ⟨e, ?_, ?_⟩
    · exact readChain_eq_ok_iff.2 (.inr ⟨m, o, _, op, rhs, _, rfl, rfl, hsome, hrhs, he⟩)
    · rw [hheight, height, hzero]
      omega

/-- Each call makes the tree higher by one. -/
theorem readCalls_tokens : ∀ {k n : Nat} {f : Expr} {ls rest : List Lexeme}, k ≤ n →
    ls.map Lexeme.token = callTokens k → peek rest ≠ .mark .parenLeft →
    ∃ e, readCalls n f (ls ++ rest) = .ok (e, rest) ∧ e.height = f.height + k := by
  intro k
  induction k with
  | zero =>
    intro n f ls rest _ hls hp
    rw [List.map_eq_nil_iff.1 hls]
    exact ⟨f, readCalls_eq_ok_iff.2 (.inl ⟨hp, rfl, rfl⟩), rfl⟩
  | succ k ih =>
    intro n f ls rest hk hls hp
    obtain ⟨m, rfl⟩ : ∃ m, n = m + 1 := ⟨n - 1, by omega⟩
    obtain ⟨l, ls₁, rfl, hl, hls⟩ := List.map_eq_cons_iff.1 hls
    obtain ⟨r, ls', rfl, hr, hls⟩ := List.map_eq_cons_iff.1 hls
    obtain ⟨e, he, hheight⟩ := ih (n := m) (f := .call f [] l.pos) (by omega) hls hp
    refine ⟨e, ?_, ?_⟩
    · refine readCalls_eq_ok_iff.2 (.inr ⟨m, l, _, [], r, _, rfl, rfl, hl, ?_, hr, he⟩)
      exact readItems_cons_eq_ok_iff.2 (.inl ⟨hr, rfl, rfl⟩)
    · rw [hheight, height, height.argsHeight]
      omega

/-- The token ends every operand of the group and the group itself. -/
def Stops (c : Chain) (t : Token) : Prop := c.Ends t ∧ c.op? t = Option.none

theorem Stops.product {t : Token} (ht : Stops .sum t) : Stops .product t :=
  ⟨⟨ht.1.1, by simp [Chain.tighter], by simp⟩, ht.1.2.1 .product (by decide)⟩

theorem Stops.sum {t : Token} (ht : Stops .and t) : Stops .sum t := by
  refine ⟨⟨ht.1.1, ?_, by simp⟩, ht.1.2.1 .sum (by decide)⟩
  intro d hd
  exact ht.1.2.1 d (List.mem_cons_of_mem _ hd)

theorem Stops.and {t : Token} (ht : Stops .or t) : Stops .and t := by
  refine ⟨⟨ht.1.1, ?_, fun _ => ht.1.2.2 (.inr rfl)⟩, ht.1.2.1 .and (by decide)⟩
  intro d hd
  exact ht.1.2.1 d (List.mem_cons_of_mem _ hd)

/-- The reader takes lexemes with these tokens, if the next token is as it should be, and returns
a tree of the given height. -/
def Yields (r : Reader Expr) (ts : List Token) (next : Token → Prop) (h : Nat) : Prop :=
  ∀ ls rest, ls.map Lexeme.token = ts → next (peek rest) →
    ∃ e, r (ls ++ rest) = .ok (e, rest) ∧ e.height = h

/-- No tokens that begin so are a sign or a `not` before an operand. -/
def Unprefixed (ts : List Token) : Prop :=
  ∃ t ts', ts = t :: ts' ∧ t ≠ .mark .minus ∧ t ≠ .keyword .not

theorem Unprefixed.append {ts us : List Token} (h : Unprefixed ts) : Unprefixed (ts ++ us) := by
  obtain ⟨t, ts', rfl, ht⟩ := h
  exact ⟨t, ts' ++ us, rfl, ht⟩

theorem Unprefixed.peek {ts : List Token} (h : Unprefixed ts) {ls rest : List Lexeme}
    (hls : ls.map Lexeme.token = ts) :
    peek (ls ++ rest) ≠ .mark .minus ∧ peek (ls ++ rest) ≠ .keyword .not := by
  obtain ⟨t, ts', rfl, ht⟩ := h
  obtain ⟨l, ls', rfl, hl, -⟩ := List.map_eq_cons_iff.1 hls
  rw [show ScriptShell.peek (l :: ls' ++ rest) = t from hl]
  exact ht

variable {ts : List Token} {next : Token → Prop}

theorem Yields.chain {b r : Reader Expr} {c : Chain} (hk : k ≤ n) (hb : Yields b ts next h)
    (hr : ∀ ls a ls' e rest, b ls = .ok (a, ls') → readChain c n a ls' = .ok (e, rest) →
      r ls = .ok (e, rest))
    (hsign : next c.sign) (hnext : ∀ t, Stops c t → next t) :
    Yields r (ts ++ c.tokens k) (Stops c) (h + k) := by
  intro ls rest hls hstop
  obtain ⟨as, bs, rfl, has, hbs⟩ := List.map_eq_append_iff.1 hls
  obtain ⟨a, ha, hheight⟩ := hb as (bs ++ rest) has (peek_append_tokens hbs hsign (hnext _ hstop))
  obtain ⟨e, he, hheight'⟩ := readChain_tokens a hk hbs hstop.1 hstop.2
  rw [List.append_assoc]
  exact ⟨e, hr _ _ _ _ _ ha he, by rw [hheight', hheight]⟩

theorem yields_readNegation (hk : k ≤ n) (hun : Unprefixed ts)
    (hp : Yields (readPrimary n) ts (fun _ => True) h) :
    Yields (readNegation n) (ts ++ callTokens k) (· ≠ .mark .parenLeft) (h + k) := by
  intro ls rest hls hstop
  obtain ⟨as, bs, rfl, has, hbs⟩ := List.map_eq_append_iff.1 hls
  obtain ⟨f, hf, hheight⟩ := hp as (bs ++ rest) has trivial
  obtain ⟨e, he, hheight'⟩ := readCalls_tokens (f := f) hk hbs hstop
  rw [List.append_assoc]
  refine ⟨e, readNegation_of_readCall (hun.peek has).1 ?_, by rw [hheight', hheight]⟩
  exact readCall_eq_ok_iff.2 ⟨f, _, hf, he⟩

theorem yields_readNot (hun : Unprefixed ts) (hs : Yields (readSum n) ts (Stops .sum) h) :
    Yields (readNot n) (ts ++ [.mark .lt, oneToken]) (Stops .sum) (h + 1) := by
  intro ls rest hls hstop
  obtain ⟨as, bs, rfl, has, hbs⟩ := List.map_eq_append_iff.1 hls
  obtain ⟨o, bs, rfl, ho, hbs⟩ := List.map_eq_cons_iff.1 hbs
  obtain ⟨l, bs, rfl, hl, hbs⟩ := List.map_eq_cons_iff.1 hbs
  obtain rfl := List.map_eq_nil_iff.1 hbs
  have hlt : Stops .sum (peek (o :: l :: rest)) := by
    rw [show peek (o :: l :: rest) = _ from ho]
    exact ⟨⟨by decide, by decide, by decide⟩, rfl⟩
  obtain ⟨a, ha, hheight⟩ := hs as (o :: l :: rest) has hlt
  obtain ⟨b, hb, hzero⟩ := operand_one (c := .sum) (n := n) hl hstop.1
  have hbsum := readSum_of_readProduct hstop.2 hb
  rw [List.append_assoc]
  refine ⟨.binary .lt a b o.pos, ?_, ?_⟩
  · refine readNot_eq_ok_iff.2 (.inl ⟨(hun.peek has).2, ?_⟩)
    refine readComparison_eq_ok_iff.2 (.inr ⟨a, o, _, .lt, b, ha, ?_, hbsum, rfl⟩)
    rw [ho]
    rfl
  · rw [height, hheight, hzero]
    omega

/-- A storey on a primary expression is five chains and a comparison higher. -/
theorem yields_readOr (hk : k ≤ n) (hun : Unprefixed ts)
    (hp : Yields (readPrimary n) ts (fun _ => True) h) :
    Yields (readOr n) (storey k ts) (Stops .or) (h + 5 * k + 1) := by
  have hneg := yields_readNegation hk hun hp
  have hprod : Yields (readProduct n) _ (Stops .product) _ :=
    hneg.chain hk (fun ls a ls' e rest ha he => readProduct_eq_ok_iff.2 ⟨a, ls', ha, he⟩)
      (by decide) (fun t ht => ht.1.1)
  have hsum : Yields (readSum n) _ (Stops .sum) _ :=
    hprod.chain hk (fun ls a ls' e rest ha he => readSum_eq_ok_iff.2 ⟨a, ls', ha, he⟩)
      ⟨⟨by decide, by decide, by decide⟩, rfl⟩ (fun t ht => ht.product)
  have hnot := yields_readNot hun.append.append.append hsum
  have hand : Yields (readAnd n) _ (Stops .and) _ :=
    hnot.chain hk (fun ls a ls' e rest ha he => readAnd_eq_ok_iff.2 ⟨a, ls', ha, he⟩)
      ⟨⟨by decide, by decide, by decide⟩, rfl⟩ (fun t ht => ht.sum)
  have hor : Yields (readOr n) _ (Stops .or) _ :=
    hand.chain hk (fun ls a ls' e rest ha he => readOr_eq_ok_iff.2 ⟨a, ls', ha, he⟩)
      ⟨⟨by decide, by decide, by decide⟩, rfl⟩ (fun t ht => ht.and)
  rw [show h + 5 * k + 1 = h + k + k + k + 1 + k + k by omega]
  exact hor

theorem unprefixed_one : Unprefixed [oneToken] := ⟨_, [], rfl, by decide, by decide⟩

theorem yields_readPrimary_one : Yields (readPrimary n) [oneToken] (fun _ => True) 0 := by
  intro ls rest hls _
  obtain ⟨l, ls, rfl, hl, hls⟩ := List.map_eq_cons_iff.1 hls
  obtain rfl := List.map_eq_nil_iff.1 hls
  exact readPrimary_one n rest hl

/-- A tower is as high as the levels allow. -/
theorem yields_tower : ∀ n, Yields (read (n + 1)) (tower n) (Stops .or) (tallest (n + 1)) := by
  have hread : ∀ {n h ts}, Yields (readOr n) ts (Stops .or) h →
      Yields (read (n + 1)) ts (Stops .or) h := by
    intro n h ts hy ls rest hls hstop
    obtain ⟨e, he, hheight⟩ := hy ls rest hls hstop
    exact ⟨e, read_eq_ok_iff.2 ⟨n, rfl, he⟩, hheight⟩
  intro n
  induction n with
  | zero => exact hread (yields_readOr (Nat.le_refl 0) unprefixed_one yields_readPrimary_one)
  | succ n ih =>
    refine hread (yields_readOr (Nat.le_refl _) ⟨_, _, rfl, by decide, by decide⟩ ?_)
    intro ls rest hls _
    obtain ⟨as, rs, rfl, has, hrs⟩ := List.map_eq_append_iff.1 hls
    obtain ⟨l, as, rfl, hl, has⟩ := List.map_eq_cons_iff.1 has
    obtain ⟨r, rs, rfl, hr, hrs⟩ := List.map_eq_cons_iff.1 hrs
    obtain rfl := List.map_eq_nil_iff.1 hrs
    have hstop : Stops .or (peek (r :: rest)) := by
      rw [show peek (r :: rest) = _ from hr]
      exact ⟨⟨by decide, by decide, by decide⟩, rfl⟩
    obtain ⟨e, he, hheight⟩ := ih as (r :: rest) has hstop
    rw [List.append_assoc]
    exact ⟨e, readPrimary_eq_ok_iff.2 (.inr ⟨l, r, _, rfl, hl, he, hr⟩), hheight⟩

end Expr

theorem brick_tokens {c : Chain} : ∀ {k : Nat}, ∀ t ∈ c.tokens k, t.brick := by
  intro k
  induction k with
  | zero => intro t ht; cases ht
  | succ k ih =>
    intro t ht
    simp only [Chain.tokens, List.mem_cons] at ht
    rcases ht with rfl | rfl | ht
    · cases c <;> simp [Token.brick, Chain.sign]
    · exact .inl rfl
    · exact ih t ht

theorem brick_callTokens : ∀ {k : Nat}, ∀ t ∈ callTokens k, t.brick := by
  intro k
  induction k with
  | zero => intro t ht; cases ht
  | succ k ih =>
    intro t ht
    simp only [callTokens, List.mem_cons] at ht
    rcases ht with rfl | rfl | ht
    · simp [Token.brick]
    · simp [Token.brick]
    · exact ih t ht

theorem brick_storey {k : Nat} {core : List Token} (hcore : ∀ t ∈ core, t.brick) :
    ∀ t ∈ storey k core, t.brick := by
  intro t ht
  simp only [storey, List.mem_append, List.mem_cons, List.not_mem_nil, or_false] at ht
  rcases ht with (((((ht | ht) | ht) | ht) | rfl | rfl) | ht) | ht
  · exact hcore t ht
  · exact brick_callTokens t ht
  · exact brick_tokens t ht
  · exact brick_tokens t ht
  · simp [Token.brick]
  · exact .inl rfl
  · exact brick_tokens t ht
  · exact brick_tokens t ht

theorem brick_tower : ∀ n, ∀ t ∈ tower n, t.brick := by
  intro n
  induction n with
  | zero => exact brick_storey fun t ht => .inl (List.mem_singleton.1 ht)
  | succ n ih =>
    refine brick_storey fun t ht => ?_
    simp only [List.cons_append, List.mem_cons, List.mem_append, List.not_mem_nil, or_false] at ht
    rcases ht with rfl | ht | rfl
    · simp [Token.brick]
    · exact ih t ht
    · simp [Token.brick]

/-- Tokens that can be read with all levels are the tokens of a text that is one expression. -/
theorem exists_parse_of_yields {ts : List Token} {h : Nat} (ht : ∀ t ∈ ts, t.brick)
    (hy : Expr.Yields (Expr.read maxNesting) ts (Expr.Stops .or) h) :
    ∃ e, Expr.parse (spacedText ts) = .ok e ∧ e.height = h := by
  have hnewline : Expr.Stops .or .newline := ⟨⟨by decide, by decide, by decide⟩, rfl⟩
  have hne : ts ≠ [] := by
    rintro rfl
    obtain ⟨e, he, -⟩ := hy [] [⟨.newline, .start⟩] rfl hnewline
    exact absurd (Expr.opensExpr_of_read he) (by decide)
  obtain ⟨ls, p, hscan, hls⟩ := scan_spacedText hne ht
  obtain ⟨e, he, hheight⟩ := hy ls [⟨.newline, p⟩, ⟨.endOfInput, p⟩] hls hnewline
  have hskip := skipNewlines_of_opensExpr (Expr.opensExpr_of_read he)
  refine ⟨e, ?_, hheight⟩
  rw [Expr.parse, hscan]
  refine bind_eq_ok_iff.2 ⟨_, rfl, ?_⟩
  rw [hskip]
  exact bind_eq_ok_iff.2 ⟨_, he, rfl⟩

end ScriptShell
