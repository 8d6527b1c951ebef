import ScriptShell.Proofs.Expr.Success

/-!
# ScriptShell.Proofs.Expr.Height

How high the trees grow that are read off a text. A level of nesting is given back when a chain of
operators or of calls is complete, and the complete chain may be the first operand of a chain that
binds less tightly. So five chains pile up between one pair of parentheses and the next, each as
long as the levels that are left, and a comparison on top of them costs no level at all.

* `tallest`: the height that a number of levels allows.
* `Expr.Low`: a reader returns no tree above a height.
* `Expr.height_le_of_read`: no tree that is read with `n` levels is higher than `tallest n`.
-/

namespace ScriptShell

/-- The height of the highest tree that can be read with a number of levels. -/
def tallest : Nat → Nat
  | 0 => 0
  | n + 1 => tallest n + 5 * n + 1

theorem tallest_le {m n : Nat} (h : m ≤ n) : tallest m ≤ tallest n := by
  induction h with
  | refl => exact Nat.le_refl _
  | step _ ih => simp only [tallest]; omega

theorem two_mul_tallest (n : Nat) : 2 * tallest n + 3 * n = 5 * (n * n) := by
  induction n with
  | zero => rfl
  | succ n ih =>
    have hsq : (n + 1) * (n + 1) = n * n + 2 * n + 1 := by
      rw [Nat.add_mul, Nat.mul_add]
      omega
    rw [tallest, hsq]
    omega

theorem tallest_maxNesting : tallest maxNesting = 99700 := by
  have h := two_mul_tallest 200
  unfold maxNesting
  generalize tallest 200 = height at h ⊢
  omega

namespace Expr

/-- No tree that the reader returns is higher than `h`. -/
def Low (r : Reader Expr) (h : Nat) : Prop :=
  ∀ ls e rest, r ls = .ok (e, rest) → e.height ≤ h

theorem Low.mono {r : Reader Expr} {h h' : Nat} (hr : Low r h) (hle : h ≤ h') : Low r h' :=
  fun ls e rest he => Nat.le_trans (hr ls e rest he) hle

theorem height_of_leaf {l : Lexeme} {e : Expr} (h : l.leaf? = some e) : e.height = 0 := by
  unfold Lexeme.leaf? at h
  split at h <;> cases h <;> rfl

theorem argsHeight_le_of_readItems {item : Reader Expr} {h : Nat} (hi : Low item h) :
    ∀ {bound ls rest : List Lexeme} {as : List Expr},
      readItems item bound ls = .ok (as, rest) → height.argsHeight as ≤ h := by
  intro bound
  induction bound with
  | nil =>
    intro ls rest as hr
    cases hr
    exact Nat.zero_le h
  | cons b bound ih =>
    intro ls rest as hr
    rcases readItems_cons_eq_ok_iff.1 hr with
      ⟨-, rfl, -⟩ | ⟨-, a, ha, -, rfl⟩ | ⟨-, a, l, ls', as', ha, -, hr', rfl⟩
    · exact Nat.zero_le h
    · simpa [height.argsHeight] using hi _ _ _ ha
    · have h₁ := hi _ _ _ ha
      have h₂ := ih hr'
      simp only [height.argsHeight]
      omega

theorem low_readPrimary {n h : Nat} (hr : Low (read n) h) : Low (readPrimary n) h := by
  intro ls e rest he
  rcases readPrimary_eq_ok_iff.1 he with ⟨l, -, hl⟩ | ⟨l, r, ls', -, -, hr', -⟩
  · rw [height_of_leaf hl]; exact Nat.zero_le h
  · exact hr _ _ _ hr'

/-- Each call takes a level, so at most `n` of them stand behind a callee. -/
theorem low_readCalls {h : Nat} : ∀ {n : Nat} {f : Expr},
    (∀ m, m < n → Low (read m) h) → f.height ≤ h → Low (readCalls n f) (h + n) := by
  intro n
  induction n generalizing h with
  | zero =>
    intro f _ hf ls e rest he
    rcases readCalls_eq_ok_iff.1 he with ⟨-, rfl, -⟩ | ⟨m, _, _, _, _, _, hm, -⟩
    · exact hf
    · omega
  | succ n ih =>
    intro f hr hf ls e rest he
    rcases readCalls_eq_ok_iff.1 he with
      ⟨-, rfl, -⟩ | ⟨m, l, ls', args, r, ls'', hm, -, -, hi, -, hc⟩
    · omega
    · obtain rfl : n = m := by omega
      have hargs := argsHeight_le_of_readItems (hr n (by omega)) hi
      have hcall : (Expr.call f args l.pos).height ≤ h + 1 := by
        simp only [height]
        omega
      have hlow := ih (fun k hk => (hr k (by omega)).mono (Nat.le_succ h)) hcall
      have := hlow _ _ _ hc
      omega

/-- Each operator takes a level, so at most `n` of them stand behind a first operand. -/
theorem low_readChain {c : Chain} {h : Nat} : ∀ {n : Nat} {lhs : Expr},
    (∀ m, m < n → Low (c.operand m) h) → lhs.height ≤ h → Low (readChain c n lhs) (h + n) := by
  intro n
  induction n generalizing h with
  | zero =>
    intro lhs _ hl ls e rest he
    rcases readChain_eq_ok_iff.1 he with ⟨-, rfl, -⟩ | ⟨m, _, _, _, _, _, hm, -⟩
    · exact hl
    · omega
  | succ n ih =>
    intro lhs hr hl ls e rest he
    rcases readChain_eq_ok_iff.1 he with
      ⟨-, rfl, -⟩ | ⟨m, o, ls', op, rhs, ls'', hm, -, -, ho, hc⟩
    · omega
    · obtain rfl : n = m := by omega
      have hrhs := hr n (by omega) _ _ _ ho
      have hnode : (Expr.binary op lhs rhs o.pos).height ≤ h + 1 := by
        simp only [height]
        omega
      have hlow := ih (fun k hk => (hr k (by omega)).mono (Nat.le_succ h)) hnode
      have := hlow _ _ _ hc
      omega

/-- What the readers of operands return with `n` levels left, one chain higher at each rank. -/
structure Lows (n : Nat) : Prop where
  expr : Low (read n) (tallest n)
  negation : Low (readNegation n) (tallest n + n)
  product : Low (readProduct n) (tallest n + 2 * n)
  not : Low (readNot n) (tallest n + 3 * n + 1)
  and : Low (readAnd n) (tallest n + 4 * n + 1)

theorem low_read {n : Nat} (ih : ∀ m, m < n → Lows m) : Low (read n) (tallest n) := by
  intro ls e rest he
  obtain ⟨m, rfl, hor⟩ := read_eq_ok_iff.1 he
  obtain ⟨a, ls', ha, hc⟩ := readOr_eq_ok_iff.1 hor
  have hops : ∀ k, k < m → Low (Chain.or.operand k) (tallest m + 4 * m + 1) := by
    intro k hk
    have := tallest_le (Nat.le_of_lt hk)
    exact (ih k (by omega)).and.mono (by omega)
  have := low_readChain hops ((ih m (by omega)).and _ _ _ ha) _ _ _ hc
  simp only [tallest]
  omega

theorem low_readNegation {n : Nat} (hexpr : Low (read n) (tallest n))
    (ih : ∀ m, m < n → Lows m) : Low (readNegation n) (tallest n + n) := by
  intro ls e rest he
  rcases readNegation_eq_ok_iff.1 he with ⟨-, he⟩ | ⟨m, l, ls', a, rfl, -, -, ha, rfl⟩
  · obtain ⟨f, ls', hf, hc⟩ := readCall_eq_ok_iff.1 he
    refine low_readCalls ?_ (low_readPrimary hexpr _ _ _ hf) _ _ _ hc
    intro m hm
    exact (ih m hm).expr.mono (tallest_le (Nat.le_of_lt hm))
  · have h₁ := (ih m (by omega)).negation _ _ _ ha
    simp only [height, tallest]
    omega

theorem low_readProduct {n : Nat} (hneg : Low (readNegation n) (tallest n + n))
    (ih : ∀ m, m < n → Lows m) : Low (readProduct n) (tallest n + 2 * n) := by
  intro ls e rest he
  obtain ⟨a, ls', ha, hc⟩ := readProduct_eq_ok_iff.1 he
  have hops : ∀ k, k < n → Low (Chain.product.operand k) (tallest n + n) := by
    intro k hk
    have := tallest_le (Nat.le_of_lt hk)
    exact (ih k hk).negation.mono (by omega)
  have := low_readChain hops (hneg _ _ _ ha) _ _ _ hc
  omega

theorem low_readSum {n : Nat} (hprod : Low (readProduct n) (tallest n + 2 * n))
    (ih : ∀ m, m < n → Lows m) : Low (readSum n) (tallest n + 3 * n) := by
  intro ls e rest he
  obtain ⟨a, ls', ha, hc⟩ := readSum_eq_ok_iff.1 he
  have hops : ∀ k, k < n → Low (Chain.sum.operand k) (tallest n + 2 * n) := by
    intro k hk
    have := tallest_le (Nat.le_of_lt hk)
    exact (ih k hk).product.mono (by omega)
  have := low_readChain hops (hprod _ _ _ ha) _ _ _ hc
  omega

/-- A comparison adds a node and takes no level. -/
theorem low_readComparison {n h : Nat} (hsum : Low (readSum n) h) :
    Low (readComparison n) (h + 1) := by
  intro ls e rest he
  rcases readComparison_eq_ok_iff.1 he with ⟨ha, -⟩ | ⟨a, o, ls', op, b, ha, -, hb, rfl⟩
  · exact Nat.le_succ_of_le (hsum _ _ _ ha)
  · have h₁ := hsum _ _ _ ha
    have h₂ := hsum _ _ _ hb
    simp only [height]
    omega

theorem low_readNot {n : Nat} (hsum : Low (readSum n) (tallest n + 3 * n))
    (ih : ∀ m, m < n → Lows m) : Low (readNot n) (tallest n + 3 * n + 1) := by
  intro ls e rest he
  rcases readNot_eq_ok_iff.1 he with ⟨-, he⟩ | ⟨m, l, ls', a, rfl, -, -, ha, rfl⟩
  · exact low_readComparison hsum _ _ _ he
  · have h₁ := (ih m (by omega)).not _ _ _ ha
    simp only [height, tallest]
    omega

theorem low_readAnd {n : Nat} (hnot : Low (readNot n) (tallest n + 3 * n + 1))
    (ih : ∀ m, m < n → Lows m) : Low (readAnd n) (tallest n + 4 * n + 1) := by
  intro ls e rest he
  obtain ⟨a, ls', ha, hc⟩ := readAnd_eq_ok_iff.1 he
  have hops : ∀ k, k < n → Low (Chain.and.operand k) (tallest n + 3 * n + 1) := by
    intro k hk
    have := tallest_le (Nat.le_of_lt hk)
    exact (ih k hk).not.mono (by omega)
  have := low_readChain hops (hnot _ _ _ ha) _ _ _ hc
  omega

theorem lows (n : Nat) : Lows n := by
  induction n using Nat.strongRecOn with
  | ind n ih =>
    have hexpr := low_read ih
    have hneg := low_readNegation hexpr ih
    have hprod := low_readProduct hneg ih
    have hnot := low_readNot (low_readSum hprod ih) ih
    exact ⟨hexpr, hneg, hprod, hnot, low_readAnd hnot ih⟩

theorem height_le_of_read {n : Nat} {ls rest : List Lexeme} {e : Expr}
    (h : read n ls = .ok (e, rest)) : e.height ≤ tallest n :=
  (lows n).expr ls e rest h

end Expr
end ScriptShell
