import Mathlib.Data.List.Forall2
import ScriptShell.Proofs.Eval.MapPos
import ScriptShell.Proofs.Expr.Success

/-!
# ScriptShell.Proofs.Expr.Frame

What a reader of expressions reads does not depend on what comes behind, as long as the next token
is the same, and on the places of the lexemes only as far as they are noted in the tree. What it
takes holds no line end, and as many closing parentheses as opening ones.

* `Lexeme.Rel`: lexemes that differ in their places alone.
* `Whole`: what an expression takes.
* `Frames`, `FramesAt`: a reader does the same whatever comes behind.
* `FramesItems`: so does a reader of items in parentheses.
* `Expr.frames_read`: the reader of expressions does.
-/

namespace ScriptShell

variable {π : Pos → Pos}

/-- The tokens that stand for the layout of a text. Their places are not noted. -/
def Token.isLayout : Token → Bool
  | .newline | .indent | .outdent | .endOfInput => true
  | _ => false

structure Lexeme.Rel (π : Pos → Pos) (l l' : Lexeme) : Prop where
  token : l.token = l'.token
  pos : l.token.isLayout = false → π l.pos = π l'.pos

/-- Lists of lexemes that differ in places alone. -/
abbrev SameText (π : Pos → Pos) : List Lexeme → List Lexeme → Prop :=
  List.Forall₂ (Lexeme.Rel π)

theorem SameText.refl (ls : List Lexeme) : SameText π ls ls :=
  List.forall₂_same.2 fun _ _ => ⟨rfl, fun _ => rfl⟩

theorem SameText.of_append {ts us vs : List Lexeme} (h : SameText π (ts ++ us) vs) :
    ∃ ts' us', vs = ts' ++ us' ∧ SameText π ts ts' ∧ SameText π us us' := by
  induction ts generalizing vs with
  | nil => exact ⟨[], vs, rfl, .nil, h⟩
  | cons t ts ih =>
    cases h with
    | cons ht h =>
      obtain ⟨ts', us', rfl, hts, hus⟩ := ih h
      exact ⟨_ :: ts', us', rfl, .cons ht hts, hus⟩

theorem SameText.peek_eq {ls ls' : List Lexeme} (h : SameText π ls ls') : peek ls' = peek ls := by
  cases h with
  | nil => rfl
  | cons hl _ => exact hl.token.symm

theorem SameText.peek_append {ts ts' rest rest' : List Lexeme} (h : SameText π ts ts')
    (hpeek : peek rest' = peek rest) : peek (ts' ++ rest') = peek (ts ++ rest) := by
  cases h with
  | nil => exact hpeek
  | cons hl _ => exact hl.token.symm

/-! ## Parentheses -/

/-- The number of open parentheses behind a lexeme. -/
def Lexeme.depthAfter (depth : Nat) (l : Lexeme) : Nat :=
  match l.token with
  | .mark m => Scanner.depthAfter depth m
  | _ => depth

/-- No token of the list stands for layout, and every parenthesis is closed. -/
structure Closed (ts : List Lexeme) : Prop where
  inline : ∀ t ∈ ts, t.token.isLayout = false
  depth : ∀ d, ts.foldl Lexeme.depthAfter d = d

/-- Something is there, and what is opened is closed. -/
structure Whole (ts : List Lexeme) : Prop extends Closed ts where
  nonempty : ts ≠ []

namespace Closed

variable {ts us : List Lexeme} {l r : Lexeme}

theorem nil : Closed [] where
  inline := by simp
  depth _ := rfl

theorem append (h : Closed ts) (h' : Closed us) : Closed (ts ++ us) where
  inline := by
    intro t ht
    rcases List.mem_append.1 ht with ht | ht
    · exact h.inline t ht
    · exact h'.inline t ht
  depth d := by rw [List.foldl_append, h.depth, h'.depth]

/-- A token that is no parenthesis. -/
theorem single (hinline : l.token.isLayout = false) (hleft : l.token ≠ .mark .parenLeft)
    (hright : l.token ≠ .mark .parenRight) : Closed [l] where
  inline := by simpa using hinline
  depth d := by
    rw [List.foldl_cons, List.foldl_nil, Lexeme.depthAfter]
    split
    · rename_i m hm
      cases m <;> simp_all [Scanner.depthAfter]
    · rfl

theorem cons (hinline : l.token.isLayout = false) (hleft : l.token ≠ .mark .parenLeft)
    (hright : l.token ≠ .mark .parenRight) (h : Closed ts) : Closed (l :: ts) :=
  (single hinline hleft hright).append h

theorem parens (hl : l.token = .mark .parenLeft) (h : Closed ts)
    (hr : r.token = .mark .parenRight) : Closed (l :: ts ++ [r]) where
  inline := by
    intro t ht
    simp only [List.cons_append, List.mem_cons, List.mem_append, List.not_mem_nil, or_false] at ht
    rcases ht with rfl | ht | rfl
    · rw [hl]
      rfl
    · exact h.inline t ht
    · rw [hr]
      rfl
  depth d := by
    rw [List.cons_append, List.foldl_cons, List.foldl_append, h.depth, List.foldl_cons,
      List.foldl_nil, Lexeme.depthAfter, Lexeme.depthAfter, hl, hr]
    rfl

end Closed

theorem Whole.append {ts us : List Lexeme} (h : Whole ts) (h' : Closed us) : Whole (ts ++ us) :=
  ⟨h.toClosed.append h', by simp [h.nonempty]⟩

/-! ## Frames -/

/-- What `r` reads, `r'` reads in an alike way off an alike list, whatever comes behind. What is
taken is a list of the kind `P`. -/
def Frames {α : Type} (π : Pos → Pos) (P : List Lexeme → Prop) (r r' : Reader α)
    (A : α → α → Prop) : Prop :=
  ∀ ⦃ls a rest⦄, r ls = .ok (a, rest) → ∃ ts, ls = ts ++ rest ∧ P ts ∧
    ∀ ⦃ts' rest'⦄, SameText π ts ts' → peek rest' = peek rest →
      ∃ a', r' (ts' ++ rest') = .ok (a', rest') ∧ A a a'

/-- The same of one list, off which `a` was read up to `rest`. -/
def FramesAt {α : Type} (π : Pos → Pos) (P : List Lexeme → Prop) (r' : Reader α)
    (A : α → α → Prop) (ls : List Lexeme) (a : α) (rest : List Lexeme) : Prop :=
  ∃ ts, ls = ts ++ rest ∧ P ts ∧
    ∀ ⦃ts' rest'⦄, SameText π ts ts' → peek rest' = peek rest →
      ∃ a', r' (ts' ++ rest') = .ok (a', rest') ∧ A a a'

theorem Frames.framesAt {α : Type} {P : List Lexeme → Prop} {r r' : Reader α} {A : α → α → Prop}
    {ls rest : List Lexeme} {a : α} (h : Frames π P r r' A) (hr : r ls = .ok (a, rest)) :
    FramesAt π P r' A ls a rest :=
  h hr

/-- A reader takes nothing if it stops at the next token. -/
theorem FramesAt.nil {α : Type} {r : Reader α} {A : α → α → Prop} {rest : List Lexeme} {a a' : α}
    (hr : ∀ {rest'}, peek rest' = peek rest → r rest' = .ok (a', rest')) (ha : A a a') :
    FramesAt π Closed r A rest a rest := by
  refine ⟨[], rfl, .nil, ?_⟩
  intro ts' rest' hts hpeek
  cases hts
  exact ⟨a', hr hpeek, ha⟩

/-- A reader may leave a list to another one. It decides so by the first token of the list, or by
the first one that is left. -/
theorem FramesAt.handOver {α : Type} {P : List Lexeme → Prop} {r q : Reader α}
    {A : α → α → Prop} {ls rest : List Lexeme} {a : α} (h : FramesAt π P r A ls a rest)
    (hq : ∀ {ls' a' rest'}, peek ls' = peek ls → peek rest' = peek rest →
      r ls' = .ok (a', rest') → q ls' = .ok (a', rest')) : FramesAt π P q A ls a rest := by
  obtain ⟨ts, rfl, hts, hagain⟩ := h
  refine ⟨ts, rfl, hts, ?_⟩
  intro ts' rest' hts' hpeek
  obtain ⟨a', ha', hsame⟩ := hagain hts' hpeek
  exact ⟨a', hq (hts'.peek_append hpeek) hpeek ha', hsame⟩

/-- One reader and then another. -/
theorem Frames.bind {α β : Type} {P : List Lexeme → Prop} {A : α → α → Prop} {B : β → β → Prop}
    {r r' : Reader α} {k k' : α → Reader β} {q q' : Reader β}
    (hr : Frames π P r r' A) (hk : ∀ ⦃a a'⦄, A a a' → Frames π Closed (k a) (k' a') B)
    (hq : ∀ {ls b rest}, q ls = .ok (b, rest) →
      ∃ a ls', r ls = .ok (a, ls') ∧ k a ls' = .ok (b, rest))
    (hq' : ∀ {ls a ls' b rest}, r' ls = .ok (a, ls') → k' a ls' = .ok (b, rest) →
      q' ls = .ok (b, rest))
    (hrefl : ∀ a, A a a) (hP : ∀ {ts us}, P ts → Closed us → P (ts ++ us)) :
    Frames π P q q' B := by
  intro ls b rest h
  obtain ⟨a, ls', ha, hb⟩ := hq h
  obtain ⟨ts, rfl, hts, hagain⟩ := hr ha
  obtain ⟨us, rfl, hus, -⟩ := hk (hrefl a) hb
  refine ⟨ts ++ us, (List.append_assoc ts us rest).symm, hP hts hus, ?_⟩
  intro vs rest' hvs hpeek
  obtain ⟨ts', us', rfl, hts', hus'⟩ := hvs.of_append
  obtain ⟨a', ha', hsame⟩ := hagain hts' (hus'.peek_append hpeek)
  obtain ⟨us₁, hcancel, -, hagain'⟩ := hk hsame hb
  obtain rfl := List.append_cancel_right hcancel
  obtain ⟨b', hb', hsame'⟩ := hagain' hus' hpeek
  rw [List.append_assoc]
  exact ⟨b', hq' ha' hb', hsame'⟩

/-! ## Lists in parentheses -/

/-- Off `ls`, items are read up to a closing parenthesis, whatever comes behind it. The bound need
not be the same, as long as it is great enough. -/
def FramesItems {α : Type} (π : Pos → Pos) (item' : Reader α) (A : α → α → Prop)
    (ls : List Lexeme) (as : List α) (rest : List Lexeme) : Prop :=
  ∃ ts, ls = ts ++ rest ∧ Closed ts ∧
    ∀ {ts' rest' bound' : List Lexeme}, SameText π ts ts' → peek rest' = peek rest →
      ts.length < bound'.length →
      ∃ as', readItems item' bound' (ts' ++ rest') = .ok (as', rest') ∧ List.Forall₂ A as as'

namespace FramesItems

variable {α : Type} {A : α → α → Prop} {item : Reader α} {ls rest : List Lexeme}

theorem none (hrest : peek rest = .mark .parenRight) : FramesItems π item A rest [] rest := by
  refine ⟨[], rfl, .nil, ?_⟩
  intro ts' rest' bound' hts hpeek hbound
  cases hts
  obtain ⟨b, bound', rfl⟩ := List.exists_cons_of_length_pos (Nat.zero_lt_of_lt hbound)
  exact ⟨[], readItems_cons_eq_ok_iff.2 (.inl ⟨hpeek.trans hrest, rfl, rfl⟩), .nil⟩

/-- The last item has no comma behind it. -/
theorem last {a : α} (h : FramesAt π Whole item A ls a rest) (hls : peek ls ≠ .mark .parenRight)
    (hrest : peek rest ≠ .mark .comma) : FramesItems π item A ls [a] rest := by
  obtain ⟨ts, rfl, hts, hagain⟩ := h
  refine ⟨ts, rfl, hts.toClosed, ?_⟩
  intro ts' rest' bound' hsame hpeek hbound
  obtain ⟨a', ha', haa⟩ := hagain hsame hpeek
  obtain ⟨b, bound', rfl⟩ := List.exists_cons_of_length_pos (Nat.zero_lt_of_lt hbound)
  exact ⟨[a'], readItems_cons_eq_ok_iff.2 (.inr (.inl ⟨(hsame.peek_append hpeek).trans_ne hls, a',
    ha', hpeek.trans_ne hrest, rfl⟩)), .cons haa .nil⟩

/-- An item and a comma in front of other items. -/
theorem more {a : α} {as : List α} {l : Lexeme} {ls' : List Lexeme}
    (h : FramesAt π Whole item A ls a (l :: ls')) (hls : peek ls ≠ .mark .parenRight)
    (hl : l.token = .mark .comma) (has : FramesItems π item A ls' as rest) :
    FramesItems π item A ls (a :: as) rest := by
  obtain ⟨ts, rfl, hts, hagain⟩ := h
  obtain ⟨us, rfl, hus, hagain'⟩ := has
  have hlus : Closed (l :: us) := by
    refine hus.cons ?_ ?_ ?_ <;> simp [hl, Token.isLayout]
  refine ⟨ts ++ l :: us, by simp, hts.toClosed.append hlus, ?_⟩
  intro vs rest' bound' hvs hpeek hbound
  obtain ⟨ts', us', rfl, hts', hus'⟩ := hvs.of_append
  cases hus' with
  | @cons _ l' _ us' hll hus' =>
    have hnext : peek (l' :: (us' ++ rest')) = peek (l :: (us ++ rest)) := hll.token.symm
    obtain ⟨a', ha', haa⟩ := hagain hts' hnext
    obtain ⟨b, bound', rfl⟩ := List.exists_cons_of_length_pos (Nat.zero_lt_of_lt hbound)
    have hlt : us.length < bound'.length := by
      simp only [List.length_append, List.length_cons] at hbound
      omega
    obtain ⟨as', has', hforall⟩ := hagain' hus' hpeek hlt
    refine ⟨a' :: as', ?_, .cons haa hforall⟩
    rw [List.append_assoc, List.cons_append]
    exact readItems_cons_eq_ok_iff.2 (.inr (.inr
      ⟨(hts'.peek_append hnext).trans_ne hls, a', l', _, as', ha', hll.token ▸ hl, has', rfl⟩))

end FramesItems

theorem frames_readItems {α : Type} {A : α → α → Prop} {item item' : Reader α}
    (hitem : Frames π Whole item item' A) {bound ls rest : List Lexeme} {as : List α}
    (h : readItems item bound ls = .ok (as, rest)) (hrest : peek rest = .mark .parenRight) :
    FramesItems π item' A ls as rest := by
  induction bound generalizing ls as with
  | nil =>
    rw [readItems] at h
    cases h
    exact .none hrest
  | cons b bound ih =>
    rcases readItems_cons_eq_ok_iff.1 h with
      ⟨-, rfl, rfl⟩ | ⟨hls, a, ha, hcomma, rfl⟩ | ⟨hls, a, l, ls', as', ha, hl, has, rfl⟩
    · exact .none hrest
    · exact .last (hitem ha) hls hcomma
    · exact .more (hitem ha) hls hl (ih has)

theorem map_eq_map_of_forall₂ {α β : Type} {f : α → β} {as bs : List α}
    (h : List.Forall₂ (fun a b => f a = f b) as bs) : as.map f = bs.map f := by
  induction h with
  | nil => rfl
  | cons h _ ih => rw [List.map_cons, List.map_cons, h, ih]

namespace Expr

/-- Expressions that differ in places alone. -/
def Same (π : Pos → Pos) (e e' : Expr) : Prop :=
  e.mapPos π = e'.mapPos π

theorem Same.refl (e : Expr) : Same π e e := rfl

theorem same_of_leaf {l l' : Lexeme} {e : Expr} (hl : Lexeme.Rel π l l') (h : l.leaf? = some e) :
    ∃ e', l'.leaf? = some e' ∧ Same π e e' := by
  have hpos := hl.pos
  unfold Lexeme.leaf? at h ⊢
  rw [← hl.token]
  split at h <;> cases h
  case h_3 id ht =>
    refine ⟨_, rfl, ?_⟩
    have hp := hpos (by rw [ht]; rfl)
    simp only [Same, mapPos, hp]
  all_goals exact ⟨_, rfl, rfl⟩

theorem closed_of_leaf {l : Lexeme} {e : Expr} (h : l.leaf? = some e) : Whole [l] := by
  refine ⟨.single ?_ ?_ ?_, by simp⟩ <;> unfold Lexeme.leaf? at h <;> split at h <;>
    simp_all [Token.isLayout]

theorem same_call {f f' : Expr} {args args' : List Expr} {p p' : Pos} (hf : Same π f f')
    (hargs : List.Forall₂ (Same π) args args') (hp : π p = π p') :
    Same π (.call f args p) (.call f' args' p') := by
  simp only [Same, mapPos_call, map_eq_map_of_forall₂ hargs, hp]
  rw [hf]

variable {n : Nat}

theorem frames_readPrimary (hread : Frames π Whole (read n) (read n) (Same π)) :
    Frames π Whole (readPrimary n) (readPrimary n) (Same π) := by
  intro ls e rest h
  rcases readPrimary_eq_ok_iff.1 h with ⟨l, rfl, hl⟩ | ⟨l, r, ls', rfl, hl, he, hr⟩
  · refine ⟨[l], rfl, closed_of_leaf hl, ?_⟩
    intro ts' rest' hts _
    cases hts with
    | @cons _ l' _ _ hll hts =>
      cases hts
      obtain ⟨e', he', hsame⟩ := same_of_leaf hll hl
      exact ⟨e', readPrimary_eq_ok_iff.2 (.inl ⟨l', rfl, he'⟩), hsame⟩
  · obtain ⟨ts, rfl, hts, hagain⟩ := hread he
    refine ⟨l :: ts ++ [r], by simp, ⟨.parens hl hts.toClosed hr, by simp⟩, ?_⟩
    intro vs rest' hvs hpeek
    obtain ⟨us, rs, rfl, hus, hrs⟩ := hvs.of_append
    cases hus with
    | @cons _ l' _ ts' hll hts' =>
      cases hrs with
      | @cons _ r' _ _ hrr hrs =>
        cases hrs
        have hnext : peek (r' :: rest') = peek (r :: rest) := hrr.token.symm
        obtain ⟨e', he', hsame⟩ := hagain hts' hnext
        refine ⟨e', readPrimary_eq_ok_iff.2 (.inr ⟨l', r', ts' ++ r' :: rest', by simp,
          hll.token ▸ hl, he', hrr.token ▸ hr⟩), hsame⟩

theorem frames_readCalls (hread : ∀ m < n, Frames π Whole (read m) (read m) (Same π)) :
    ∀ ⦃f f' : Expr⦄, Same π f f' → Frames π Closed (readCalls n f) (readCalls n f') (Same π) := by
  induction n with
  | zero =>
    intro f f' hf ls e rest h
    rcases readCalls_eq_ok_iff.1 h with ⟨hp, rfl, rfl⟩ | ⟨m, _, _, _, _, _, hm, -⟩
    · exact FramesAt.nil
        (fun hrest => readCalls_eq_ok_iff.2 (.inl ⟨hrest.trans_ne hp, rfl, rfl⟩)) hf
    · omega
  | succ n ih =>
    intro f f' hf ls e rest h
    rcases readCalls_eq_ok_iff.1 h with
      ⟨hp, rfl, rfl⟩ | ⟨m, l, ls', args, r, ls'', hm, rfl, hl, hargs, hr, hcalls⟩
    · exact FramesAt.nil
        (fun hrest => readCalls_eq_ok_iff.2 (.inl ⟨hrest.trans_ne hp, rfl, rfl⟩)) hf
    · obtain rfl : n = m := by omega
      obtain ⟨ts, rfl, hts, hagain⟩ := frames_readItems (hread n (by omega)) hargs hr
      obtain ⟨us, rfl, hus, -⟩ := ih (fun m hm => hread m (by omega)) (Same.refl _) hcalls
      refine ⟨l :: ts ++ [r] ++ us, by simp, (Closed.parens hl hts hr).append hus, ?_⟩
      intro vs rest' hvs hpeek
      obtain ⟨xs, us', rfl, hxs, hus'⟩ := hvs.of_append
      obtain ⟨ys, rs, rfl, hys, hrs⟩ := hxs.of_append
      cases hys with
      | @cons _ l' _ ts' hll hts' =>
        cases hrs with
        | @cons _ r' _ _ hrr hrs =>
          cases hrs
          have hnext : peek (r' :: (us' ++ rest')) = peek (r :: (us ++ rest)) := hrr.token.symm
          have hlength := hts'.length_eq
          obtain ⟨args', hargs', hforall⟩ := hagain hts' hnext
            (show ts.length < (l' :: (ts' ++ r' :: (us' ++ rest'))).length by
              simp only [List.length_cons, List.length_append]
              omega)
          have hp : π l.pos = π l'.pos := hll.pos (by rw [hl]; rfl)
          obtain ⟨us₁, hcancel, -, hagain'⟩ :=
            ih (fun m hm => hread m (by omega)) (same_call hf hforall hp) hcalls
          obtain rfl := List.append_cancel_right hcancel
          obtain ⟨e', he', hsame⟩ := hagain' hus' hpeek
          refine ⟨e', readCalls_eq_ok_iff.2 (.inr ⟨n, l', ts' ++ r' :: (us' ++ rest'), args', r',
            us' ++ rest', rfl, by simp, hll.token ▸ hl, ?_, hrr.token ▸ hr, he'⟩), hsame⟩
          simpa using hargs'

theorem same_binary {op : BinaryOp} {a a' b b' : Expr} {p p' : Pos} (ha : Same π a a')
    (hb : Same π b b') (hp : π p = π p') : Same π (.binary op a b p) (.binary op a' b' p') := by
  simp only [Same, mapPos, hp]
  rw [ha, hb]

theorem same_unary {op : UnaryOp} {a a' : Expr} {p p' : Pos} (ha : Same π a a')
    (hp : π p = π p') : Same π (.unary op a p) (.unary op a' p') := by
  simp only [Same, mapPos, hp]
  rw [ha]

theorem closed_of_op {c : Chain} {l : Lexeme} {op : BinaryOp} (h : c.op? l.token = some op) :
    Closed [l] := by
  refine .single ?_ ?_ ?_ <;> cases c <;> unfold Chain.op? at h <;> split at h <;>
    simp_all [Token.isLayout]

theorem closed_of_comparison {l : Lexeme} {op : BinaryOp} (h : comparison? l.token = some op) :
    Closed [l] := by
  refine .single ?_ ?_ ?_ <;> unfold comparison? at h <;> split at h <;>
    simp_all [Token.isLayout]

theorem frames_readChain {c : Chain}
    (hop : ∀ m < n, Frames π Whole (c.operand m) (c.operand m) (Same π)) :
    ∀ ⦃a a' : Expr⦄, Same π a a' → Frames π Closed (readChain c n a) (readChain c n a')
      (Same π) := by
  induction n with
  | zero =>
    intro a a' ha ls e rest h
    rcases readChain_eq_ok_iff.1 h with ⟨hp, rfl, rfl⟩ | ⟨m, _, _, _, _, _, hm, -⟩
    · exact FramesAt.nil (fun hrest => readChain_eq_ok_iff.2 (.inl ⟨hrest ▸ hp, rfl, rfl⟩)) ha
    · omega
  | succ n ih =>
    intro a a' ha ls e rest h
    rcases readChain_eq_ok_iff.1 h with
      ⟨hp, rfl, rfl⟩ | ⟨m, o, ls', op, rhs, ls'', hm, rfl, ho, hrhs, hchain⟩
    · exact FramesAt.nil (fun hrest => readChain_eq_ok_iff.2 (.inl ⟨hrest ▸ hp, rfl, rfl⟩)) ha
    · obtain rfl : n = m := by omega
      have ih' := @ih fun m hm => hop m (by omega)
      obtain ⟨ts, rfl, hts, hagain⟩ := hop n (by omega) hrhs
      obtain ⟨us, rfl, hus, -⟩ := ih' (Same.refl _) hchain
      refine ⟨[o] ++ ts ++ us, by simp, ((closed_of_op ho).append hts.toClosed).append hus, ?_⟩
      intro vs rest' hvs hpeek
      obtain ⟨xs, us', rfl, hxs, hus'⟩ := hvs.of_append
      obtain ⟨os, ts', rfl, hos, hts'⟩ := hxs.of_append
      cases hos with
      | @cons _ o' _ _ hoo hos =>
        cases hos
        obtain ⟨rhs', hrhs', hsame⟩ := hagain hts' (hus'.peek_append hpeek)
        have hp : π o.pos = π o'.pos := hoo.pos ((closed_of_op ho).inline o (by simp))
        obtain ⟨us₁, hcancel, -, hagain'⟩ := ih' (same_binary ha hsame hp) hchain
        obtain rfl := List.append_cancel_right hcancel
        obtain ⟨e', he', hsame'⟩ := hagain' hus' hpeek
        refine ⟨e', readChain_eq_ok_iff.2 (.inr ⟨n, o', ts' ++ (us' ++ rest'), op, rhs',
          us' ++ rest', rfl, by simp, hoo.token ▸ ho, hrhs', he'⟩), hsame'⟩

/-- A sign in front of what another reader reads. -/
theorem frames_prefix {t : Token} {op : UnaryOp} {r q : Reader Expr}
    (ht : t.isLayout = false) (hleft : t ≠ .mark .parenLeft) (hright : t ≠ .mark .parenRight)
    (hr : Frames π Whole r r (Same π)) {l : Lexeme} {ls rest : List Lexeme} {a : Expr}
    (hl : l.token = t) (h : r ls = .ok (a, rest))
    (hq : ∀ {l : Lexeme} {ls a rest}, l.token = t → r ls = .ok (a, rest) →
      q (l :: ls) = .ok (.unary op a l.pos, rest)) :
    FramesAt π Whole q (Same π) (l :: ls) (.unary op a l.pos) rest := by
  obtain ⟨ts, rfl, hts, hagain⟩ := hr h
  subst hl
  refine ⟨l :: ts, rfl, ⟨hts.cons ht hleft hright, by simp⟩, ?_⟩
  intro vs rest' hvs hpeek
  cases hvs with
  | @cons _ l' _ ts' hll hts' =>
    obtain ⟨a', ha', hsame⟩ := hagain hts' hpeek
    exact ⟨_, hq hll.token.symm ha', same_unary hsame (hll.pos ht)⟩

theorem frames_readNegation (hcall : Frames π Whole (readCall n) (readCall n) (Same π))
    (ih : ∀ m < n, Frames π Whole (readNegation m) (readNegation m) (Same π)) :
    Frames π Whole (readNegation n) (readNegation n) (Same π) := by
  intro ls e rest h
  rcases readNegation_eq_ok_iff.1 h with ⟨hp, he⟩ | ⟨m, l, ls', a, rfl, rfl, hl, ha, rfl⟩
  · exact (hcall.framesAt he).handOver fun hls _ he' =>
      readNegation_eq_ok_iff.2 (.inl ⟨hls.trans_ne hp, he'⟩)
  · exact frames_prefix rfl (by simp) (by simp) (ih m (by omega)) hl ha fun hl' ha' =>
      readNegation_eq_ok_iff.2 (.inr ⟨m, _, _, _, rfl, rfl, hl', ha', rfl⟩)

theorem frames_readComparison (hsum : Frames π Whole (readSum n) (readSum n) (Same π)) :
    Frames π Whole (readComparison n) (readComparison n) (Same π) := by
  intro ls e rest h
  rcases readComparison_eq_ok_iff.1 h with ⟨ha, hp⟩ | ⟨a, o, ls', op, b, ha, ho, hb, rfl⟩
  · exact (hsum.framesAt ha).handOver fun _ hrest he' =>
      readComparison_eq_ok_iff.2 (.inl ⟨he', hrest ▸ hp⟩)
  · obtain ⟨ts, rfl, hts, hagain⟩ := hsum ha
    obtain ⟨us, rfl, hus, hagain'⟩ := hsum hb
    refine ⟨ts ++ ([o] ++ us), by simp,
      hts.append ((closed_of_comparison ho).append hus.toClosed), ?_⟩
    intro vs rest' hvs hpeek
    obtain ⟨ts', xs, rfl, hts', hxs⟩ := hvs.of_append
    cases hxs with
    | @cons _ o' _ us' hoo hus' =>
      have hnext : peek (o' :: (us' ++ rest')) = peek (o :: (us ++ rest)) := hoo.token.symm
      obtain ⟨a', ha', hsame⟩ := hagain hts' hnext
      obtain ⟨b', hb', hsame'⟩ := hagain' hus' hpeek
      have hp : π o.pos = π o'.pos := hoo.pos ((closed_of_comparison ho).inline o (by simp))
      rw [List.append_assoc, List.cons_append]
      exact ⟨_, readComparison_eq_ok_iff.2
        (.inr ⟨a', o', _, op, b', ha', hoo.token ▸ ho, hb', rfl⟩),
        same_binary hsame hsame' hp⟩

theorem frames_readNot (hcomparison : Frames π Whole (readComparison n) (readComparison n) (Same π))
    (ih : ∀ m < n, Frames π Whole (readNot m) (readNot m) (Same π)) :
    Frames π Whole (readNot n) (readNot n) (Same π) := by
  intro ls e rest h
  rcases readNot_eq_ok_iff.1 h with ⟨hp, he⟩ | ⟨m, l, ls', a, rfl, rfl, hl, ha, rfl⟩
  · exact (hcomparison.framesAt he).handOver fun hls _ he' =>
      readNot_eq_ok_iff.2 (.inl ⟨hls.trans_ne hp, he'⟩)
  · exact frames_prefix rfl (by simp) (by simp) (ih m (by omega)) hl ha fun hl' ha' =>
      readNot_eq_ok_iff.2 (.inr ⟨m, _, _, _, rfl, rfl, hl', ha', rfl⟩)

/-- A first operand and then the operators of its group. -/
theorem frames_group {c : Chain} {r q : Reader Expr} (hr : Frames π Whole r r (Same π))
    (hop : ∀ m < n, Frames π Whole (c.operand m) (c.operand m) (Same π))
    (hq : ∀ {ls e rest}, q ls = .ok (e, rest) ↔
      ∃ a ls', r ls = .ok (a, ls') ∧ readChain c n a ls' = .ok (e, rest)) :
    Frames π Whole q q (Same π) :=
  hr.bind (frames_readChain hop) hq.1 (fun ha he => hq.2 ⟨_, _, ha, he⟩) Same.refl Whole.append

/-- The readers of operands with `n` levels left. -/
structure Framed (π : Pos → Pos) (n : Nat) : Prop where
  expr : Frames π Whole (read n) (read n) (Same π)
  negation : Frames π Whole (readNegation n) (readNegation n) (Same π)
  product : Frames π Whole (readProduct n) (readProduct n) (Same π)
  not : Frames π Whole (readNot n) (readNot n) (Same π)
  and : Frames π Whole (readAnd n) (readAnd n) (Same π)

theorem frames_read_of (ih : ∀ m < n, Framed π m) : Frames π Whole (read n) (read n) (Same π) := by
  intro ls e rest h
  obtain ⟨m, rfl, hor⟩ := read_eq_ok_iff.1 h
  have hgroup : Frames π Whole (readOr m) (readOr m) (Same π) :=
    frames_group (ih m (by omega)).and (c := .or) (fun k hk => (ih k (by omega)).and)
      readOr_eq_ok_iff
  exact (hgroup.framesAt hor).handOver fun _ _ he' => read_eq_ok_iff.2 ⟨m, rfl, he'⟩

theorem framed (n : Nat) : Framed π n := by
  induction n using Nat.strongRecOn with
  | ind n ih =>
    have hexpr : Frames π Whole (read n) (read n) (Same π) := frames_read_of ih
    have hcall : Frames π Whole (readCall n) (readCall n) (Same π) :=
      (frames_readPrimary hexpr).bind (frames_readCalls fun m hm => (ih m hm).expr)
        readCall_eq_ok_iff.1 (fun ha he => readCall_eq_ok_iff.2 ⟨_, _, ha, he⟩) Same.refl
        Whole.append
    have hneg : Frames π Whole (readNegation n) (readNegation n) (Same π) :=
      frames_readNegation hcall fun m hm => (ih m hm).negation
    have hprod : Frames π Whole (readProduct n) (readProduct n) (Same π) :=
      frames_group hneg (c := .product) (fun m hm => (ih m hm).negation) readProduct_eq_ok_iff
    have hsum : Frames π Whole (readSum n) (readSum n) (Same π) :=
      frames_group hprod (c := .sum) (fun m hm => (ih m hm).product) readSum_eq_ok_iff
    have hnot : Frames π Whole (readNot n) (readNot n) (Same π) :=
      frames_readNot (frames_readComparison hsum) fun m hm => (ih m hm).not
    have hand : Frames π Whole (readAnd n) (readAnd n) (Same π) :=
      frames_group hnot (c := .and) (fun m hm => (ih m hm).not) readAnd_eq_ok_iff
    exact ⟨hexpr, hneg, hprod, hnot, hand⟩

/-- The reader of expressions takes a whole expression, and reads it whatever comes behind. -/
theorem frames_read (n : Nat) : Frames π Whole (read n) (read n) (Same π) :=
  (framed n).expr

end Expr
end ScriptShell
