import ScriptShell.Classify
import ScriptShell.Proofs.Expr.Success

/-!
# ScriptShell.Proofs.Program.Success

When the readers of statements succeed: one statement for each reader, in the manner of
`ScriptShell.Proofs.Expr.Success`.

* `readSimple_eq_ok_iff`: the statements that hold no other.
* `readStmtWith_eq_ok_iff`: all statements, given the reader of blocks.
* `readBlock_eq_ok_iff`: blocks.
* `parseProgram_eq_ok_iff`, `parseExpr_eq_ok_iff`: texts of a given name.
-/

namespace ScriptShell

variable {n : Nat} {inFunction : Bool} {ls rest : List Lexeme} {s : Stmt}

theorem readName_eq_ok_iff {id : String} :
    readName ls = .ok (id, rest) ↔ ∃ l, ls = l :: rest ∧ l.token = .name id := by
  unfold readName
  constructor
  · intro h
    split at h
    · rename_i hp
      obtain ⟨l, ls', rfl, hl⟩ := (peek_eq_iff (by simp)).1 hp
      cases h
      exact ⟨l, rfl, hl⟩
    · exact absurd h refuse_ne_ok
  · rintro ⟨l, rfl, hl⟩
    simp only [peek, hl, List.tail_cons]

/-- Behind a comma stands a string, or a name with the string that it takes over; without one, or
before the closing parenthesis, the list ends. -/
theorem readImports_cons_eq_ok_iff {p : Pos} {b : Lexeme} {bound : List Lexeme}
    {is : List Import} :
    readImports p (b :: bound) ls = .ok (is, rest) ↔
      (peek ls ≠ .mark .comma ∧ is = [] ∧ rest = ls) ∨
      (∃ c, ls = c :: rest ∧ c.token = .mark .comma ∧ peek rest = .mark .parenRight ∧ is = []) ∨
      (∃ c l ls' t is', ls = c :: l :: ls' ∧ c.token = .mark .comma ∧ l.token = .str t ∧
        readImports p bound ls' = .ok (is', rest) ∧ is = ⟨t, t⟩ :: is') ∨
      (∃ c l a r ls' id t is', ls = c :: l :: a :: r :: ls' ∧ c.token = .mark .comma ∧
        l.token = .name id ∧ a.token = .mark .assign ∧ r.token = .str t ∧
        readImports p bound ls' = .ok (is', rest) ∧ is = ⟨id, t⟩ :: is') := by
  rw [readImports]
  constructor
  · intro h
    split at h
    · rename_i hc
      obtain ⟨c, ls₁, rfl, hc⟩ := (peek_eq_iff (by simp)).1 hc
      rw [List.tail_cons] at h
      split at h
      · rename_i hp
        cases h
        exact .inr (.inl ⟨c, rfl, hc, hp, rfl⟩)
      · rename_i t hp
        obtain ⟨l, ls', rfl, hl⟩ := (peek_eq_iff (by simp)).1 hp
        obtain ⟨⟨is', ls₂⟩, hi, he⟩ := bind_eq_ok_iff.1 h
        cases he
        exact .inr (.inr (.inl ⟨c, l, ls', t, is', rfl, hc, hl, hi, rfl⟩))
      · rename_i id hp
        obtain ⟨l, ls', rfl, hl⟩ := (peek_eq_iff (by simp)).1 hp
        obtain ⟨ls₂, hx, he⟩ := bind_eq_ok_iff.1 h
        obtain ⟨a, rfl, ha⟩ := (expect_eq_ok_iff (by simp)).1 hx
        split at he
        · rename_i t hp'
          obtain ⟨r, ls₃, rfl, hr⟩ := (peek_eq_iff (by simp)).1 hp'
          obtain ⟨⟨is', ls₄⟩, hi, he⟩ := bind_eq_ok_iff.1 he
          cases he
          exact .inr (.inr (.inr ⟨c, l, a, r, ls₃, id, t, is', rfl, hc, hl, ha, hr, hi, rfl⟩))
        · cases he
      · exact absurd h refuse_ne_ok
    · rename_i hc
      cases h
      exact .inl ⟨hc, rfl, rfl⟩
  · rintro (⟨hc, rfl, rfl⟩ | ⟨c, rfl, hc, hp, rfl⟩ | ⟨c, l, ls', t, is', rfl, hc, hl, hi, rfl⟩ |
      ⟨c, l, a, r, ls', id, t, is', rfl, hc, hl, ha, hr, hi, rfl⟩)
    · rw [if_neg hc]
    · rw [if_pos (show peek (c :: rest) = _ from hc)]
      simp only [List.tail_cons, hp]
    · rw [if_pos (show peek (c :: l :: ls') = _ from hc)]
      simp only [List.tail_cons, peek, hl]
      exact bind_eq_ok_iff.2 ⟨_, hi, rfl⟩
    · rw [if_pos (show peek (c :: l :: a :: r :: ls') = _ from hc)]
      simp only [List.tail_cons, peek, hl]
      refine bind_eq_ok_iff.2 ⟨_, (expect_eq_ok_iff (by simp)).2 ⟨a, rfl, ha⟩, ?_⟩
      simp only [hr]
      exact bind_eq_ok_iff.2 ⟨_, hi, rfl⟩

theorem readLoad_eq_ok_iff :
    readLoad inFunction ls = .ok (s, rest) ↔ inFunction = false ∧
      ∃ o l m r ls' module is, ls = o :: l :: m :: ls' ∧ l.token = .mark .parenLeft ∧
        m.token = .str module ∧ readImports o.pos (m :: ls') ls' = .ok (is, r :: rest) ∧
        r.token = .mark .parenRight ∧ is.isEmpty = false ∧ s = .load module is o.pos := by
  unfold readLoad
  dsimp only
  constructor
  · intro h
    split at h
    · cases h
    · rename_i hf
      refine ⟨by simpa using hf, ?_⟩
      obtain ⟨ls₁, hx, h⟩ := bind_eq_ok_iff.1 h
      obtain ⟨l, htl, hl⟩ := (expect_eq_ok_iff (by simp)).1 hx
      cases ls with
      | nil => cases htl
      | cons o ls =>
        rw [List.tail_cons] at htl
        subst htl
        split at h
        · rename_i module hm
          obtain ⟨m, ls', rfl, hm⟩ := (peek_eq_iff (by simp)).1 hm
          obtain ⟨⟨is, ls₂⟩, hi, h⟩ := bind_eq_ok_iff.1 h
          dsimp only at h
          obtain ⟨ls₃, hx', he⟩ := bind_eq_ok_iff.1 h
          obtain ⟨r, rfl, hr⟩ := (expect_eq_ok_iff (by simp)).1 hx'
          split at he
          · cases he
          · rename_i hne
            cases he
            exact ⟨o, l, m, r, ls', module, is, rfl, hl, hm, hi, hr, by simpa using hne, rfl⟩
        · cases h
  · rintro ⟨rfl, o, l, m, r, ls', module, is, rfl, hl, hm, hi, hr, hne, rfl⟩
    rw [if_neg (by simp)]
    refine bind_eq_ok_iff.2 ⟨_, (expect_eq_ok_iff (by simp)).2 ⟨l, rfl, hl⟩, ?_⟩
    simp only [peek, hm, List.tail_cons]
    refine bind_eq_ok_iff.2 ⟨_, hi, ?_⟩
    refine bind_eq_ok_iff.2 ⟨_, (expect_eq_ok_iff (by simp)).2 ⟨r, rfl, hr⟩, ?_⟩
    simp [hne, here]

theorem readReturn_eq_ok_iff :
    readReturn n inFunction ls = .ok (s, rest) ↔ inFunction = true ∧ ∃ o ls', ls = o :: ls' ∧
      ((peek ls' = .newline ∧ rest = ls' ∧ s = .return_ none o.pos) ∨
       (peek ls' ≠ .newline ∧ ∃ e, Expr.read n ls' = .ok (e, rest) ∧
         s = .return_ (some e) o.pos)) := by
  unfold readReturn
  dsimp only
  constructor
  · intro h
    split at h
    · rename_i hf
      refine ⟨hf, ?_⟩
      cases ls with
      | nil =>
        rw [if_neg (show ¬peek (List.tail []) = Token.newline from nofun)] at h
        obtain ⟨⟨e, ls₁⟩, he, -⟩ := bind_eq_ok_iff.1 h
        exact absurd (Expr.opensExpr_of_read he) (by decide)
      | cons o ls' =>
        refine ⟨o, ls', rfl, ?_⟩
        rw [List.tail_cons] at h
        split at h
        · rename_i hn
          cases h
          exact .inl ⟨hn, rfl, rfl⟩
        · rename_i hn
          obtain ⟨⟨e, ls₁⟩, he, hs⟩ := bind_eq_ok_iff.1 h
          cases hs
          exact .inr ⟨hn, e, he, rfl⟩
    · cases h
  · rintro ⟨hf, o, ls', rfl, ⟨hn, rfl, rfl⟩ | ⟨hn, e, he, rfl⟩⟩
    · rw [if_pos hf, List.tail_cons, if_pos hn]
      rfl
    · rw [if_pos hf, List.tail_cons, if_neg hn]
      exact bind_eq_ok_iff.2 ⟨_, he, rfl⟩

theorem readAssignment_eq_ok_iff :
    readAssignment n ls = .ok (s, rest) ↔
      (∃ e, Expr.read n ls = .ok (e, rest) ∧ peek rest ≠ .mark .assign ∧ s = .expr e (here ls)) ∨
      (∃ id p a ls' e, Expr.read n ls = .ok (.name id p, a :: ls') ∧ a.token = .mark .assign ∧
        Expr.read n ls' = .ok (e, rest) ∧ s = .assign id e (here ls)) := by
  unfold readAssignment
  dsimp only
  constructor
  · intro h
    obtain ⟨⟨e, ls₁⟩, he, h⟩ := bind_eq_ok_iff.1 h
    dsimp only at h
    split at h
    · rename_i ha
      obtain ⟨a, ls', rfl, ha⟩ := (peek_eq_iff (by simp)).1 ha
      split at h
      · rename_i id p
        obtain ⟨⟨v, ls₂⟩, hv, hs⟩ := bind_eq_ok_iff.1 h
        cases hs
        exact .inr ⟨id, p, a, ls', v, he, ha, hv, rfl⟩
      · cases h
    · rename_i ha
      cases h
      exact .inl ⟨e, he, ha, rfl⟩
  · rintro (⟨e, he, ha, rfl⟩ | ⟨id, p, a, ls', e, hn, ha, he, rfl⟩)
    · refine bind_eq_ok_iff.2 ⟨_, he, ?_⟩
      dsimp only
      rw [if_neg ha]
    · refine bind_eq_ok_iff.2 ⟨_, hn, ?_⟩
      dsimp only
      rw [if_pos (show peek (a :: ls') = _ from ha)]
      exact bind_eq_ok_iff.2 ⟨_, he, rfl⟩

/-- Which statement is read is decided by the first token. -/
theorem readSimple_eq_ok_iff :
    readSimple n inFunction ls = .ok (s, rest) ↔
      (∃ o, ls = o :: rest ∧ o.token = .keyword .pass ∧ s = .pass) ∨
      (peek ls = .keyword .return_ ∧ readReturn n inFunction ls = .ok (s, rest)) ∨
      (peek ls = .keyword .load ∧ readLoad inFunction ls = .ok (s, rest)) ∨
      (peek ls ≠ .keyword .pass ∧ peek ls ≠ .keyword .return_ ∧ peek ls ≠ .keyword .load ∧
        readAssignment n ls = .ok (s, rest)) := by
  unfold readSimple
  constructor
  · intro h
    split at h
    · rename_i hp
      obtain ⟨o, ls', rfl, ho⟩ := (peek_eq_iff (by simp)).1 hp
      cases h
      exact .inl ⟨o, rfl, ho, rfl⟩
    · rename_i hp
      exact .inr (.inl ⟨hp, h⟩)
    · rename_i hp
      exact .inr (.inr (.inl ⟨hp, h⟩))
    · rename_i h₁ h₂ h₃
      exact .inr (.inr (.inr ⟨h₁, h₂, h₃, h⟩))
  · rintro (⟨o, rfl, ho, rfl⟩ | ⟨hp, h⟩ | ⟨hp, h⟩ | ⟨h₁, h₂, h₃, h⟩)
    · simp only [peek, ho, List.tail_cons]
    · simp only [hp, h]
    · simp only [hp, h]
    · split
      · exact absurd ‹_› h₁
      · exact absurd ‹_› h₂
      · exact absurd ‹_› h₃
      · exact h

theorem readLine_eq_ok_iff :
    readLine n inFunction ls = .ok (s, rest) ↔
      ∃ l, readSimple n inFunction ls = .ok (s, l :: rest) ∧ l.token = .newline := by
  unfold readLine
  constructor
  · intro h
    obtain ⟨⟨s', ls₁⟩, hs, h⟩ := bind_eq_ok_iff.1 h
    dsimp only at h
    obtain ⟨ls₂, hx, he⟩ := bind_eq_ok_iff.1 h
    obtain ⟨l, rfl, hl⟩ := (expect_eq_ok_iff (by simp)).1 hx
    cases he
    exact ⟨l, hs, hl⟩
  · rintro ⟨l, hs, hl⟩
    refine bind_eq_ok_iff.2 ⟨_, hs, bind_eq_ok_iff.2 ⟨rest, ?_, rfl⟩⟩
    exact (expect_eq_ok_iff (by simp)).2 ⟨l, rfl, hl⟩

section Blocks

variable {block : Reader (List Stmt)} {body : List Stmt} {cond : Expr}

theorem readArm_eq_ok_iff :
    readArm n block ls = .ok ((cond, body), rest) ↔
      ∃ c ls', Expr.read n ls = .ok (cond, c :: ls') ∧ c.token = .mark .colon ∧
        block ls' = .ok (body, rest) := by
  unfold readArm
  constructor
  · intro h
    obtain ⟨⟨e, ls₁⟩, he, h⟩ := bind_eq_ok_iff.1 h
    dsimp only at h
    obtain ⟨ls₂, hx, hr⟩ := bind_eq_ok_iff.1 h
    obtain ⟨c, rfl, hc⟩ := (expect_eq_ok_iff (by simp)).1 hx
    obtain ⟨⟨b, ls₃⟩, hb, hs⟩ := bind_eq_ok_iff.1 hr
    cases hs
    exact ⟨c, ls₂, he, hc, hb⟩
  · rintro ⟨c, ls', he, hc, hb⟩
    refine bind_eq_ok_iff.2 ⟨_, he, ?_⟩
    refine bind_eq_ok_iff.2 ⟨_, (expect_eq_ok_iff (by simp)).2 ⟨c, rfl, hc⟩, ?_⟩
    exact bind_eq_ok_iff.2 ⟨_, hb, rfl⟩

theorem readDefine_eq_ok_iff :
    readDefine block ls = .ok (s, rest) ↔
      ∃ o i l ls₁ r c ls₂ name params body, ls = o :: i :: l :: ls₁ ∧ i.token = .name name ∧
        l.token = .mark .parenLeft ∧ readItems readName ls₁ ls₁ = .ok (params, r :: c :: ls₂) ∧
        r.token = .mark .parenRight ∧ c.token = .mark .colon ∧ block ls₂ = .ok (body, rest) ∧
        s = .define name params body o.pos := by
  unfold readDefine
  dsimp only
  constructor
  · intro h
    obtain ⟨⟨name, ls₀⟩, hn, h⟩ := bind_eq_ok_iff.1 h
    obtain ⟨i, htl, hi⟩ := readName_eq_ok_iff.1 hn
    cases ls with
    | nil => cases htl
    | cons o ls =>
      rw [List.tail_cons] at htl
      subst htl
      dsimp only at h
      obtain ⟨ls₁, hx₁, h₁⟩ := bind_eq_ok_iff.1 h
      obtain ⟨l, rfl, hl⟩ := (expect_eq_ok_iff (by simp)).1 hx₁
      obtain ⟨⟨params, ls₃⟩, hps, h₂⟩ := bind_eq_ok_iff.1 h₁
      dsimp only at h₂
      obtain ⟨ls₄, hx₂, h₃⟩ := bind_eq_ok_iff.1 h₂
      obtain ⟨r, rfl, hr⟩ := (expect_eq_ok_iff (by simp)).1 hx₂
      obtain ⟨ls₂, hx₃, h₄⟩ := bind_eq_ok_iff.1 h₃
      obtain ⟨c, rfl, hc⟩ := (expect_eq_ok_iff (by simp)).1 hx₃
      obtain ⟨⟨body, ls₅⟩, hb, hs⟩ := bind_eq_ok_iff.1 h₄
      cases hs
      exact ⟨o, i, l, ls₁, r, c, ls₂, name, params, body, rfl, hi, hl, hps, hr, hc, hb, rfl⟩
  · rintro ⟨o, i, l, ls₁, r, c, ls₂, name, params, body, rfl, hi, hl, hps, hr, hc, hb, rfl⟩
    refine bind_eq_ok_iff.2 ⟨_, readName_eq_ok_iff.2 ⟨i, rfl, hi⟩, ?_⟩
    refine bind_eq_ok_iff.2 ⟨_, (expect_eq_ok_iff (by simp)).2 ⟨l, rfl, hl⟩, ?_⟩
    refine bind_eq_ok_iff.2 ⟨_, hps, ?_⟩
    refine bind_eq_ok_iff.2 ⟨_, (expect_eq_ok_iff (by simp)).2 ⟨r, rfl, hr⟩, ?_⟩
    refine bind_eq_ok_iff.2 ⟨_, (expect_eq_ok_iff (by simp)).2 ⟨c, rfl, hc⟩, ?_⟩
    exact bind_eq_ok_iff.2 ⟨_, hb, rfl⟩

theorem readIf_cons_eq_ok_iff {b : Lexeme} {bound : List Lexeme} :
    readIf n block (b :: bound) ls = .ok (s, rest) ↔
      ∃ cond thenPart ls', readArm n block ls.tail = .ok ((cond, thenPart), ls') ∧
        ((peek ls' = .keyword .elif ∧ ∃ s', readIf n block bound ls' = .ok (s', rest) ∧
            s = .if_ cond thenPart [s'] (here ls)) ∨
         (∃ o c ls'' elsePart, ls' = o :: c :: ls'' ∧ o.token = .keyword .else_ ∧
            c.token = .mark .colon ∧ block ls'' = .ok (elsePart, rest) ∧
            s = .if_ cond thenPart elsePart (here ls)) ∨
         (peek ls' ≠ .keyword .elif ∧ peek ls' ≠ .keyword .else_ ∧ rest = ls' ∧
            s = .if_ cond thenPart [] (here ls))) := by
  rw [readIf]
  dsimp only
  constructor
  · intro h
    obtain ⟨⟨⟨cond, thenPart⟩, ls'⟩, ha, h⟩ := bind_eq_ok_iff.1 h
    refine ⟨cond, thenPart, ls', ha, ?_⟩
    dsimp only at h
    split at h
    · rename_i hp
      obtain ⟨⟨s', ls₁⟩, hs, he⟩ := bind_eq_ok_iff.1 h
      cases he
      exact .inl ⟨hp, s', hs, rfl⟩
    · rename_i hp
      obtain ⟨o, ls₁, rfl, ho⟩ := (peek_eq_iff (by simp)).1 hp
      obtain ⟨ls₂, hx, h₁⟩ := bind_eq_ok_iff.1 h
      obtain ⟨c, hc, hct⟩ := (expect_eq_ok_iff (by simp)).1 hx
      obtain ⟨⟨elsePart, ls₃⟩, hb, he⟩ := bind_eq_ok_iff.1 h₁
      cases he
      exact .inr (.inl ⟨o, c, ls₂, elsePart, by rw [← hc]; rfl, ho, hct, hb, rfl⟩)
    · rename_i h₁ h₂
      cases h
      exact .inr (.inr ⟨h₁, h₂, rfl, rfl⟩)
  · rintro ⟨cond, thenPart, ls', ha, ⟨hp, s', hs, rfl⟩ | ⟨o, c, ls'', elsePart, rfl, ho, hc, hb,
      rfl⟩ | ⟨h₁, h₂, rfl, rfl⟩⟩
    · refine bind_eq_ok_iff.2 ⟨_, ha, ?_⟩
      simp only [hp]
      exact bind_eq_ok_iff.2 ⟨_, hs, rfl⟩
    · refine bind_eq_ok_iff.2 ⟨_, ha, ?_⟩
      simp only [peek, ho, List.tail_cons]
      refine bind_eq_ok_iff.2 ⟨_, (expect_eq_ok_iff (by simp)).2 ⟨c, rfl, hc⟩, ?_⟩
      exact bind_eq_ok_iff.2 ⟨_, hb, rfl⟩
    · refine bind_eq_ok_iff.2 ⟨_, ha, ?_⟩
      dsimp only
      split
      · exact absurd ‹_› h₁
      · exact absurd ‹_› h₂
      · rfl

theorem readWhile_eq_ok_iff :
    readWhile n block ls = .ok (s, rest) ↔
      ∃ cond body, readArm n block ls.tail = .ok ((cond, body), rest) ∧
        s = .while_ cond body (here ls) := by
  unfold readWhile
  dsimp only
  constructor
  · intro h
    obtain ⟨⟨⟨cond, body⟩, ls'⟩, ha, hs⟩ := bind_eq_ok_iff.1 h
    cases hs
    exact ⟨cond, body, ha, rfl⟩
  · rintro ⟨cond, body, ha, rfl⟩
    exact bind_eq_ok_iff.2 ⟨_, ha, rfl⟩

end Blocks

theorem readStmtWith_eq_ok_iff {block : Bool → Reader (List Stmt)} :
    readStmtWith n block inFunction ls = .ok (s, rest) ↔
      (peek ls = .keyword .def_ ∧ readDefine (block true) ls = .ok (s, rest)) ∨
      (peek ls = .keyword .if_ ∧ readIf n (block inFunction) ls ls = .ok (s, rest)) ∨
      (peek ls = .keyword .while_ ∧ readWhile n (block inFunction) ls = .ok (s, rest)) ∨
      (peek ls ≠ .keyword .def_ ∧ peek ls ≠ .keyword .if_ ∧ peek ls ≠ .keyword .while_ ∧
        readLine n inFunction ls = .ok (s, rest)) := by
  unfold readStmtWith
  constructor
  · intro h
    split at h
    · rename_i hp
      exact .inl ⟨hp, h⟩
    · rename_i hp
      exact .inr (.inl ⟨hp, h⟩)
    · rename_i hp
      exact .inr (.inr (.inl ⟨hp, h⟩))
    · rename_i h₁ h₂ h₃
      exact .inr (.inr (.inr ⟨h₁, h₂, h₃, h⟩))
  · rintro (⟨hp, h⟩ | ⟨hp, h⟩ | ⟨hp, h⟩ | ⟨h₁, h₂, h₃, h⟩)
    · simp only [hp, h]
    · simp only [hp, h]
    · simp only [hp, h]
    · split
      · exact absurd ‹_› h₁
      · exact absurd ‹_› h₂
      · exact absurd ‹_› h₃
      · exact h

theorem readIndented_cons_eq_ok_iff {stmt : Reader Stmt} {b : Lexeme} {bound : List Lexeme}
    {ss : List Stmt} :
    readIndented stmt (b :: bound) ls = .ok (ss, rest) ↔
      (∃ o, ls = o :: rest ∧ o.token = .outdent ∧ ss = []) ∨
      (peek ls = .endOfInput ∧ ss = [] ∧ rest = ls) ∨
      (peek ls ≠ .outdent ∧ peek ls ≠ .endOfInput ∧ ∃ s ls' ss', stmt ls = .ok (s, ls') ∧
        readIndented stmt bound ls' = .ok (ss', rest) ∧ ss = s :: ss') := by
  rw [readIndented]
  constructor
  · intro h
    split at h
    · rename_i hp
      obtain ⟨o, ls', rfl, ho⟩ := (peek_eq_iff (by simp)).1 hp
      cases h
      exact .inl ⟨o, rfl, ho, rfl⟩
    · rename_i hp
      cases h
      exact .inr (.inl ⟨hp, rfl, rfl⟩)
    · rename_i h₁ h₂
      obtain ⟨⟨s, ls'⟩, hs, hr⟩ := bind_eq_ok_iff.1 h
      obtain ⟨⟨ss', ls₂⟩, hss, he⟩ := bind_eq_ok_iff.1 hr
      cases he
      exact .inr (.inr ⟨h₁, h₂, s, ls', ss', hs, hss, rfl⟩)
  · rintro (⟨o, rfl, ho, rfl⟩ | ⟨hp, rfl, rfl⟩ | ⟨h₁, h₂, s, ls', ss', hs, hss, rfl⟩)
    · simp only [peek, ho, List.tail_cons]
    · simp only [hp]
    · split
      · exact absurd ‹_› h₁
      · exact absurd ‹_› h₂
      · exact bind_eq_ok_iff.2 ⟨_, hs, bind_eq_ok_iff.2 ⟨_, hss, rfl⟩⟩

/-- A block is an indented list of statements, or the rest of a line. -/
theorem readBlock_eq_ok_iff {ss : List Stmt} :
    readBlock n inFunction ls = .ok (ss, rest) ↔ ∃ m, n = m + 1 ∧
      ((∃ a b ls', ls = a :: b :: ls' ∧ a.token = .newline ∧ b.token = .indent ∧
          readIndented (Stmt.read m inFunction) ls ls' = .ok (ss, rest)) ∨
       (peek ls ≠ .newline ∧ ∃ s, readLine m inFunction ls = .ok (s, rest) ∧ ss = [s])) := by
  cases n with
  | zero => rw [readBlock]; simp [refuse_ne_ok]
  | succ m =>
    rw [readBlock]
    constructor
    · intro h
      refine ⟨m, rfl, ?_⟩
      split at h
      · rename_i hn
        obtain ⟨a, ls₁, rfl, ha⟩ := (peek_eq_iff (by simp)).1 hn
        rw [List.tail_cons] at h
        split at h
        · rename_i hi
          obtain ⟨b, ls', rfl, hb⟩ := (peek_eq_iff (by simp)).1 hi
          exact .inl ⟨a, b, ls', rfl, ha, hb, h⟩
        · exact absurd h refuse_ne_ok
      · rename_i hn
        obtain ⟨⟨s, ls₁⟩, hs, he⟩ := bind_eq_ok_iff.1 h
        cases he
        exact .inr ⟨hn, s, hs, rfl⟩
    · rintro ⟨m', hm, ⟨a, b, ls', rfl, ha, hb, h⟩ | ⟨hn, s, hs, rfl⟩⟩
      · cases hm
        rw [if_pos (show peek (a :: b :: ls') = _ from ha), List.tail_cons,
          if_pos (show peek (b :: ls') = _ from hb)]
        exact h
      · cases hm
        rw [if_neg hn]
        exact bind_eq_ok_iff.2 ⟨_, hs, rfl⟩

theorem readStmts_cons_eq_ok_iff {b : Lexeme} {bound : List Lexeme} {ss : List Stmt} :
    readStmts (b :: bound) ls = .ok ss ↔
      (peek (skipNewlines ls) = .endOfInput ∧ ss = []) ∨
      (peek (skipNewlines ls) ≠ .endOfInput ∧ ∃ s ls' ss',
        Stmt.read maxNesting false (skipNewlines ls) = .ok (s, ls') ∧
        readStmts bound ls' = .ok ss' ∧ ss = s :: ss') := by
  rw [readStmts]
  dsimp only
  constructor
  · intro h
    split at h
    · rename_i hp
      cases h
      exact .inl ⟨hp, rfl⟩
    · rename_i hp
      obtain ⟨⟨s, ls'⟩, hs, hr⟩ := bind_eq_ok_iff.1 h
      obtain ⟨ss', hss, he⟩ := bind_eq_ok_iff.1 hr
      cases he
      exact .inr ⟨hp, s, ls', ss', hs, hss, rfl⟩
  · rintro (⟨hp, rfl⟩ | ⟨hp, s, ls', ss', hs, hss, rfl⟩)
    · rw [if_pos hp]
    · rw [if_neg hp]
      exact bind_eq_ok_iff.2 ⟨_, hs, bind_eq_ok_iff.2 ⟨_, hss, rfl⟩⟩

/-- The name of a text matters to failures alone. -/
theorem mapError_eq_ok_iff {α : Type} {x : Except SyntaxError α} {file : String} {a : α} :
    x.mapError (SyntaxError.inFile file) = .ok a ↔ x = .ok a := by
  cases x with
  | error e => exact iff_of_false (fun h => by cases h) fun h => by cases h
  | ok b =>
    have hb : (Except.ok b).mapError (SyntaxError.inFile file) = .ok b := rfl
    rw [hb, Except.ok.injEq, Except.ok.injEq]

theorem parseProgram_eq_ok_iff {file text : String} {p : Program} :
    parseProgram file text = .ok p ↔ Program.parse text = .ok p :=
  mapError_eq_ok_iff

theorem parseExpr_eq_ok_iff {file text : String} {e : Expr} :
    parseExpr file text = .ok e ↔ Expr.parse text = .ok e :=
  mapError_eq_ok_iff

end ScriptShell
