import ScriptShell.Proofs.Expr.Frame
import ScriptShell.Proofs.Token.Moved

/-!
# ScriptShell.Proofs.Expr.Alike

Readers look at the first token of a list and at its place, and take tokens off its front. So where
two lists agree in that much, up to a renaming of places, and go on agreeing when a token is taken,
what is made of one is what is made of the other, refusals included.

* `LooksAlike`: lists agree as far as readers look.
* `Tracked`, `Tracks`: what two readers make of such lists.
* `Expr.tracks_read`: the reader of expressions.
* `Expr.ofLexemes_alike`: lists that are an expression.
-/

namespace ScriptShell

/-- The tokens that change the indentation or end a text. A reader that takes one knows what it
does to the blocks around. -/
def Token.isBorder : Token → Bool
  | .indent | .outdent | .endOfInput => true
  | _ => false

/-- Lists that are related by `L` look alike, with places renamed by `π`, and go on doing so behind
every token that is no border. -/
structure LooksAlike (π : Pos → Pos) (L : List Lexeme → List Lexeme → Prop) : Prop where
  ne_nil : ∀ {ls ls'}, L ls ls' → ls ≠ []
  peek_eq : ∀ {ls ls'}, L ls ls' → peek ls' = peek ls
  here_eq : ∀ {ls ls'}, L ls ls' → here ls' = π (here ls)
  length_le : ∀ {ls ls'}, L ls ls' → ls.length ≤ ls'.length
  tail : ∀ {ls ls'}, L ls ls' → (peek ls).isBorder = false → L ls.tail ls'.tail

/-- An outcome, and the one with its value under `f` and its places renamed. What is left is
related again. -/
inductive Tracked {α β : Type} (π : Pos → Pos) (L : List Lexeme → List Lexeme → Prop) (f : α → β) :
    Except SyntaxError (α × List Lexeme) → Except SyntaxError (β × List Lexeme) → Prop
  | ok {a : α} {rest rest' : List Lexeme} :
    L rest rest' → Tracked π L f (.ok (a, rest)) (.ok (f a, rest'))
  | error {e : SyntaxError} : Tracked π L f (.error e) (.error (e.mapPos π))

/-- The second reader makes of a list what the first one makes of a related one. -/
def Tracks {α β : Type} (π : Pos → Pos) (L : List Lexeme → List Lexeme → Prop) (f : α → β)
    (r : Reader α) (r' : Reader β) : Prop :=
  ∀ ⦃ls ls'⦄, L ls ls' → Tracked π L f (r ls) (r' ls')

/-- A reader takes at least one lexeme of what it reads. -/
def Shrinks {α : Type} (r : Reader α) : Prop :=
  ∀ ⦃ls a rest⦄, r ls = .ok (a, rest) → rest.length < ls.length

variable {π : Pos → Pos} {L : List Lexeme → List Lexeme → Prop}

section Outcomes

variable {α β γ δ : Type} {f : α → β} {g : γ → δ} {ls ls' : List Lexeme}

theorem Tracked.rel {a : α} {rest : List Lexeme} {x' : Except SyntaxError (β × List Lexeme)}
    (h : Tracked π L f (.ok (a, rest)) x') : ∃ rest', L rest rest' := by
  cases h with
  | ok hrest => exact ⟨_, hrest⟩

/-- One reader and then another. -/
theorem Tracked.bind {M : List Lexeme → List Lexeme → Prop}
    {x : Except SyntaxError (α × List Lexeme)} {x' : Except SyntaxError (β × List Lexeme)}
    {k : α × List Lexeme → Except SyntaxError (γ × List Lexeme)}
    {k' : β × List Lexeme → Except SyntaxError (δ × List Lexeme)} (hx : Tracked π L f x x')
    (hk : ∀ a rest rest', x = .ok (a, rest) → L rest rest' →
      Tracked π M g (k (a, rest)) (k' (f a, rest'))) :
    Tracked π M g (x >>= k) (x' >>= k') := by
  cases hx with
  | ok hrest => exact hk _ _ _ rfl hrest
  | error => exact .error

namespace LooksAlike

theorem refuse (hL : LooksAlike π L) (h : L ls ls') (fault : SyntaxFault) :
    Tracked π L f (refuse ls fault) (refuse ls' fault) := by
  rw [ScriptShell.refuse, ScriptShell.refuse, hL.here_eq h]
  exact .error

/-- A list without elements bounds no list that is read. -/
theorem not_length_le_nil (hL : LooksAlike π L) (h : L ls ls') :
    ¬ls.length ≤ ([] : List Lexeme).length :=
  fun hle => hL.ne_nil h (List.length_eq_zero_iff.1 (Nat.le_zero.1 hle))

/-- The token that is taken is known. -/
theorem tail_of (hL : LooksAlike π L) (h : L ls ls') {t : Token} (hp : peek ls = t)
    (ht : t.isBorder = false) : L ls.tail ls'.tail :=
  hL.tail h (hp ▸ ht)

/-- A token and then a reader. -/
theorem expect (hL : LooksAlike π L) {t : Token} (ht : t.isBorder = false) (h : L ls ls')
    {k : List Lexeme → Except SyntaxError (γ × List Lexeme)}
    {k' : List Lexeme → Except SyntaxError (δ × List Lexeme)}
    (hk : L ls.tail ls'.tail → Tracked π L g (k ls.tail) (k' ls'.tail)) :
    Tracked π L g (expect t ls >>= k) (expect t ls' >>= k') := by
  rw [ScriptShell.expect, ScriptShell.expect, hL.peek_eq h]
  split
  · rename_i hp
    exact hk (hL.tail_of h hp ht)
  · rw [ScriptShell.refuse, ScriptShell.refuse, hL.here_eq h]
    exact .error

/-- Items up to a closing parenthesis. The bounds need not be the same, as long as they are great
enough. -/
theorem readItems (hL : LooksAlike π L) {item : Reader α} {item' : Reader β}
    (hitem : Tracks π L f item item') (hshrinks : Shrinks item) :
    ∀ {bound bound' ls ls' : List Lexeme}, L ls ls' → ls.length ≤ bound.length →
      ls.length ≤ bound'.length →
      Tracked π L (List.map f) (readItems item bound ls) (readItems item' bound' ls') := by
  intro bound
  induction bound with
  | nil =>
    intro bound' ls ls' h hbound
    exact absurd hbound (hL.not_length_le_nil h)
  | cons b bound ih =>
    intro bound' ls ls' h hbound hbound'
    cases bound' with
    | nil => exact absurd hbound' (hL.not_length_le_nil h)
    | cons b' bound' =>
      rw [ScriptShell.readItems, ScriptShell.readItems, hL.peek_eq h]
      split
      · exact .ok h
      · refine (hitem h).bind fun a rest rest' ha hrest => ?_
        have hlt := hshrinks ha
        simp only [List.length_cons] at hbound hbound'
        dsimp only
        rw [hL.peek_eq hrest]
        split
        · rename_i hp
          refine (ih (hL.tail_of hrest hp rfl) ?_ ?_).bind
            fun as rest rest' _ hrest => .ok hrest
          · rw [List.length_tail]
            omega
          · rw [List.length_tail]
            omega
        · exact .ok hrest

theorem skipNewlines (hL : LooksAlike π L) :
    ∀ {ls ls' : List Lexeme}, L ls ls' →
      L (ScriptShell.skipNewlines ls) (ScriptShell.skipNewlines ls') := by
  intro ls
  induction ls with
  | nil => exact fun h => absurd rfl (hL.ne_nil h)
  | cons l ls ih =>
    intro ls' h
    have hpeek := hL.peek_eq h
    by_cases hl : l.token = .newline
    · cases ls' with
      | nil => exact nomatch hpeek.trans hl
      | cons l' ls' =>
        have hl' : l'.token = .newline := hpeek.trans hl
        have htail : L ls ls' := hL.tail_of h hl rfl
        simpa [ScriptShell.skipNewlines, hl, hl'] using ih htail
    · have hne : peek (l :: ls) ≠ .newline := hl
      rwa [skipNewlines_of_ne hne, skipNewlines_of_ne (hpeek ▸ hne)]

end LooksAlike

end Outcomes

namespace Expr

variable {n : Nat}

theorem shrinks_read (n : Nat) : Shrinks (read n) := by
  intro ls e rest h
  obtain ⟨ts, rfl, hts, -⟩ := frames_read (π := id) n h
  have hpos := List.length_pos_iff.2 hts.nonempty
  rw [List.length_append]
  omega

theorem tracks_readPrimary (hL : LooksAlike π L)
    (hread : Tracks π L (mapPos π) (read n) (read n)) :
    Tracks π L (mapPos π) (readPrimary n) (readPrimary n) := by
  intro ls ls' h
  rw [readPrimary, readPrimary, hL.peek_eq h, hL.here_eq h]
  split
  case h_7 hp =>
    refine (hread (hL.tail_of h hp rfl)).bind fun e rest rest' _ hrest => ?_
    exact hL.expect rfl hrest fun hrest => .ok hrest
  case h_8 => exact hL.refuse h _
  all_goals
    rename_i hp
    exact .ok (hL.tail_of h hp rfl)

theorem tracks_readCalls (hL : LooksAlike π L)
    (hread : ∀ m < n, Tracks π L (mapPos π) (read m) (read m)) :
    ∀ f, Tracks π L (mapPos π) (readCalls n f) (readCalls n (f.mapPos π)) := by
  induction n with
  | zero =>
    intro f ls ls' h
    rw [readCalls, readCalls, hL.peek_eq h]
    split
    · exact hL.refuse h _
    · exact .ok h
  | succ n ih =>
    intro f ls ls' h
    rw [readCalls, readCalls, hL.peek_eq h, hL.here_eq h]
    split
    · rename_i hp
      have htail := hL.tail_of h hp rfl
      have hlength := hL.length_le h
      refine (hL.readItems (hread n (by omega)) (shrinks_read n) htail ?_ ?_).bind
        fun args rest rest' _ hrest => ?_
      · rw [List.length_tail]
        omega
      · rw [List.length_tail]
        omega
      refine hL.expect rfl hrest fun hrest => ?_
      rw [← mapPos_call]
      exact ih (fun m hm => hread m (by omega)) _ hrest
    · exact .ok h

theorem isBorder_of_op? {c : Chain} {t : Token} {op : BinaryOp} (h : c.op? t = some op) :
    t.isBorder = false := by
  unfold Chain.op? at h
  split at h <;> first | rfl | cases h

theorem isBorder_of_comparison? {t : Token} {op : BinaryOp} (h : comparison? t = some op) :
    t.isBorder = false := by
  unfold comparison? at h
  split at h <;> first | rfl | cases h

theorem tracks_readChain (hL : LooksAlike π L) {c : Chain}
    (hop : ∀ m < n, Tracks π L (mapPos π) (c.operand m) (c.operand m)) :
    ∀ a, Tracks π L (mapPos π) (readChain c n a) (readChain c n (a.mapPos π)) := by
  induction n with
  | zero =>
    intro a ls ls' h
    rw [readChain, readChain, hL.peek_eq h]
    split
    · exact .ok h
    · exact hL.refuse h _
  | succ n ih =>
    intro a ls ls' h
    rw [readChain, readChain, hL.peek_eq h, hL.here_eq h]
    split
    · exact .ok h
    · rename_i op hp
      have htail := hL.tail h (isBorder_of_op? hp)
      have hrest : ∀ rhs, Tracks π L (mapPos π) (readChain c n (.binary op a rhs (here ls)))
          (readChain c n (.binary op (a.mapPos π) (rhs.mapPos π) (π (here ls)))) :=
        fun rhs => ih (fun m hm => hop m (by omega)) (.binary op a rhs (here ls))
      cases c <;> exact (hop n (by omega) htail).bind fun rhs _ _ _ h => hrest rhs h

/-- A sign before an operand, of which there may be any number. -/
theorem tracks_readNegation (hL : LooksAlike π L)
    (hcall : Tracks π L (mapPos π) (readCall n) (readCall n))
    (ih : ∀ m < n, Tracks π L (mapPos π) (readNegation m) (readNegation m)) :
    Tracks π L (mapPos π) (readNegation n) (readNegation n) := by
  intro ls ls' h
  rw [readNegation.eq_def, readNegation.eq_def, hL.peek_eq h, hL.here_eq h]
  split
  · rename_i hp
    cases n with
    | zero => exact hL.refuse h _
    | succ n =>
      exact (ih n (by omega) (hL.tail_of h hp rfl)).bind
        fun a rest rest' _ hrest => .ok hrest
  · exact hcall h

theorem tracks_readComparison (hL : LooksAlike π L)
    (hsum : Tracks π L (mapPos π) (readSum n) (readSum n)) :
    Tracks π L (mapPos π) (readComparison n) (readComparison n) := by
  intro ls ls' h
  rw [readComparison, readComparison]
  refine (hsum h).bind fun l rest rest' _ hrest => ?_
  dsimp only
  rw [hL.peek_eq hrest, hL.here_eq hrest]
  split
  · exact .ok hrest
  · rename_i op hp
    exact (hsum (hL.tail hrest (isBorder_of_comparison? hp))).bind
      fun r rest rest' _ hrest => .ok hrest

theorem tracks_readNot (hL : LooksAlike π L)
    (hcomparison : Tracks π L (mapPos π) (readComparison n) (readComparison n))
    (ih : ∀ m < n, Tracks π L (mapPos π) (readNot m) (readNot m)) :
    Tracks π L (mapPos π) (readNot n) (readNot n) := by
  intro ls ls' h
  rw [readNot.eq_def, readNot.eq_def, hL.peek_eq h, hL.here_eq h]
  split
  · rename_i hp
    cases n with
    | zero => exact hL.refuse h _
    | succ n =>
      exact (ih n (by omega) (hL.tail_of h hp rfl)).bind
        fun a rest rest' _ hrest => .ok hrest
  · exact hcomparison h

/-- A first operand and then the operators of its group. -/
theorem tracks_group (hL : LooksAlike π L) {c : Chain} {r q : Reader Expr}
    (hr : Tracks π L (mapPos π) r r)
    (hop : ∀ m < n, Tracks π L (mapPos π) (c.operand m) (c.operand m))
    (hq : ∀ ls, q ls = r ls >>= fun x => readChain c n x.1 x.2) :
    Tracks π L (mapPos π) q q := by
  intro ls ls' h
  rw [hq, hq]
  exact (hr h).bind fun a rest rest' _ hrest => tracks_readChain hL hop a hrest

/-- The readers of operands with `n` levels left. -/
structure Tracking (π : Pos → Pos) (L : List Lexeme → List Lexeme → Prop) (n : Nat) : Prop where
  expr : Tracks π L (mapPos π) (read n) (read n)
  negation : Tracks π L (mapPos π) (readNegation n) (readNegation n)
  product : Tracks π L (mapPos π) (readProduct n) (readProduct n)
  not : Tracks π L (mapPos π) (readNot n) (readNot n)
  and : Tracks π L (mapPos π) (readAnd n) (readAnd n)

theorem tracks_read_of (hL : LooksAlike π L) (ih : ∀ m < n, Tracking π L m) :
    Tracks π L (mapPos π) (read n) (read n) := by
  intro ls ls' h
  cases n with
  | zero =>
    rw [read, read]
    exact hL.refuse h _
  | succ n =>
    rw [read, read]
    exact tracks_group hL (n := n) (c := .or) (ih n (by omega)).and
      (fun m hm => (ih m (by omega)).and) (fun ls => by rw [readOr]) h

theorem tracking (hL : LooksAlike π L) (n : Nat) : Tracking π L n := by
  induction n using Nat.strongRecOn with
  | ind n ih =>
    have hexpr : Tracks π L (mapPos π) (read n) (read n) := tracks_read_of hL ih
    have hcall : Tracks π L (mapPos π) (readCall n) (readCall n) := by
      intro ls ls' h
      rw [readCall, readCall]
      exact (tracks_readPrimary hL hexpr h).bind fun f rest rest' _ hrest =>
        tracks_readCalls hL (fun m hm => (ih m hm).expr) f hrest
    have hneg : Tracks π L (mapPos π) (readNegation n) (readNegation n) :=
      tracks_readNegation hL hcall fun m hm => (ih m hm).negation
    have hprod : Tracks π L (mapPos π) (readProduct n) (readProduct n) :=
      tracks_group hL hneg (c := .product) (fun m hm => (ih m hm).negation)
        fun ls => by rw [readProduct]
    have hsum : Tracks π L (mapPos π) (readSum n) (readSum n) :=
      tracks_group hL hprod (c := .sum) (fun m hm => (ih m hm).product)
        fun ls => by rw [readSum]
    have hnot : Tracks π L (mapPos π) (readNot n) (readNot n) :=
      tracks_readNot hL (tracks_readComparison hL hsum) fun m hm => (ih m hm).not
    have hand : Tracks π L (mapPos π) (readAnd n) (readAnd n) :=
      tracks_group hL hnot (c := .and) (fun m hm => (ih m hm).not) fun ls => by rw [readAnd]
    exact ⟨hexpr, hneg, hprod, hnot, hand⟩

/-- An expression is read, or refused, the same off lists that look alike. -/
theorem tracks_read (hL : LooksAlike π L) (n : Nat) : Tracks π L (mapPos π) (read n) (read n) :=
  (tracking hL n).expr

/-- The expression that all of a list is, line ends before and behind it aside. -/
def ofLexemes (ls : List Lexeme) : Except SyntaxError Expr := do
  let (e, ls) ← read maxNesting (skipNewlines ls)
  let _ ← expect .endOfInput (skipNewlines ls)
  .ok e

theorem parse_eq_ofLexemes (text : String) : parse text = scan .expression text >>= ofLexemes :=
  rfl

theorem ofLexemes_alike (hL : LooksAlike π L) {ls ls' : List Lexeme} (h : L ls ls') :
    ofLexemes ls' = movedBy π (mapPos π) (ofLexemes ls) := by
  have htracked := tracks_read hL maxNesting (hL.skipNewlines h)
  rw [ofLexemes, ofLexemes]
  generalize read maxNesting (skipNewlines ls) = x at htracked ⊢
  generalize read maxNesting (skipNewlines ls') = x' at htracked ⊢
  cases htracked with
  | error => rfl
  | @ok e rest rest' hrest =>
    have hskip := hL.skipNewlines hrest
    show (expect .endOfInput (skipNewlines rest') >>= _) =
      movedBy π (mapPos π) (expect .endOfInput (skipNewlines rest) >>= _)
    rw [expect, expect, hL.peek_eq hskip]
    split
    · rfl
    · rw [refuse, refuse, hL.here_eq hskip]
      rfl

end Expr
end ScriptShell
