import ScriptShell.Proofs.Expr.Alike

/-!
# ScriptShell.Proofs.Expr.Moved

Readers look at the places of lexemes only to note them. If every place is moved, the same is read
or refused, with its places moved.

* `Terminated`: the end of input is the last lexeme and no other.
* `looksAlike_moved`: a list looks like itself with every place moved.
* `Expr.parse_moved`: expressions whose lexemes are moved.
-/

namespace ScriptShell

variable {π : Pos → Pos}

/-- The end of input is the last lexeme, and no other. -/
inductive Terminated : List Lexeme → Prop
  | last {l : Lexeme} : l.token = .endOfInput → Terminated [l]
  | cons {l : Lexeme} {ls : List Lexeme} :
    l.token ≠ .endOfInput → Terminated ls → Terminated (l :: ls)

theorem terminated_append {ts ls : List Lexeme} (hts : ∀ t ∈ ts, t.token ≠ .endOfInput)
    (h : Terminated ls) : Terminated (ts ++ ls) := by
  induction ts with
  | nil => exact h
  | cons t ts ih =>
    exact .cons (hts t List.mem_cons_self) (ih fun t ht => hts t (List.mem_cons_of_mem _ ht))

theorem terminated_append_singleton_iff {ts : List Lexeme} {l : Lexeme} :
    Terminated (ts ++ [l]) ↔ (∀ t ∈ ts, t.token ≠ .endOfInput) ∧ l.token = .endOfInput := by
  refine ⟨fun h => ?_, fun h => terminated_append h.1 (.last h.2)⟩
  induction ts with
  | nil =>
    cases h with
    | last hl => exact ⟨by simp, hl⟩
    | cons _ h => cases h
  | cons t ts ih =>
    cases h' : ts ++ [l] with
    | nil => simp at h'
    | cons u us =>
      rw [List.cons_append, h'] at h
      cases h with
      | cons ht h => exact ⟨List.forall_mem_cons.2 ⟨ht, (ih (h' ▸ h)).1⟩, (ih (h' ▸ h)).2⟩

theorem Scanner.terminated_closing (s : Scanner) : Terminated s.closing := by
  unfold closing
  refine terminated_append ?_ (.last rfl)
  intro t ht
  rcases List.mem_append.1 ht with ht | ht
  · split at ht
    · cases ht
    · split at ht
      · cases ht
      · rw [List.mem_singleton.1 ht]
        exact nofun
  · rw [List.eq_of_mem_replicate ht]
    exact nofun

theorem terminated_of_scan {mode : ScanMode} {text : String} {ls : List Lexeme}
    (h : scan mode text = .ok ls) : Terminated ls := by
  unfold scan at h
  cases hrun : Scanner.start.run mode text.toList with
  | error e =>
    rw [hrun] at h
    cases h
  | ok s =>
    rw [hrun] at h
    obtain ⟨-, u, hu, rfl⟩ := Scanner.finish_eq_ok_iff.1 h
    have hsound := (Scanner.Sound.start.run hrun).settle hu
    exact terminated_append (fun t ht => hsound.inner t (List.mem_reverse.1 ht))
      u.terminated_closing

/-- Lexemes with their places moved. -/
def movedLexemes (π : Pos → Pos) (ls : List Lexeme) : List Lexeme :=
  ls.map (Lexeme.mapPos π)

theorem tail_moved (ls : List Lexeme) : (movedLexemes π ls).tail = movedLexemes π ls.tail :=
  List.map_tail.symm

@[simp] theorem peek_moved (ls : List Lexeme) : peek (movedLexemes π ls) = peek ls := by
  cases ls <;> rfl

namespace Terminated

variable {ls : List Lexeme}

theorem exists_concat (h : Terminated ls) : ∃ us l, ls = us ++ [l] := by
  rcases List.eq_nil_or_concat ls with rfl | ⟨us, l, rfl⟩
  · cases h
  · exact ⟨us, l, List.concat_eq_append⟩

theorem eq_singleton (h : Terminated ls) (hp : peek ls = .endOfInput) : ∃ l, ls = [l] := by
  cases h with
  | last _ => exact ⟨_, rfl⟩
  | cons hne _ => exact absurd hp hne

theorem here_moved (h : Terminated ls) : here (movedLexemes π ls) = π (here ls) := by
  cases h <;> rfl

theorem tail (h : Terminated ls) (hp : peek ls ≠ .endOfInput) : Terminated ls.tail := by
  cases h with
  | last hl => exact absurd hl hp
  | cons _ h => exact h

theorem skipNewlines (h : Terminated ls) : Terminated (ScriptShell.skipNewlines ls) := by
  induction h with
  | @last l hl =>
    have hp : peek [l] ≠ .newline := by simp [peek, hl]
    rw [skipNewlines_of_ne hp]
    exact .last hl
  | @cons l ls hne h ih =>
    by_cases hl : l.token = .newline
    · simpa [ScriptShell.skipNewlines, hl] using ih
    · have hp : peek (l :: ls) ≠ .newline := hl
      rw [skipNewlines_of_ne hp]
      exact .cons hne h

end Terminated

/-- The second list is the first one with every place moved. -/
def IsMoved (π : Pos → Pos) (ls ls' : List Lexeme) : Prop :=
  Terminated ls ∧ ls' = movedLexemes π ls

theorem IsMoved.tail {ls ls' : List Lexeme} (h : IsMoved π ls ls')
    (hp : peek ls ≠ .endOfInput) : IsMoved π ls.tail ls'.tail := by
  obtain ⟨hls, rfl⟩ := h
  exact ⟨hls.tail hp, tail_moved ls⟩

/-- A list looks like itself with every place moved. -/
theorem looksAlike_moved (π : Pos → Pos) : LooksAlike π (IsMoved π) where
  ne_nil := by
    rintro ls ls' ⟨hls, -⟩ rfl
    cases hls
  peek_eq := by
    rintro ls ls' ⟨-, rfl⟩
    exact peek_moved ls
  here_eq := by
    rintro ls ls' ⟨hls, rfl⟩
    exact hls.here_moved
  length_le := by
    rintro ls ls' ⟨-, rfl⟩
    exact Nat.le_of_eq (List.length_map _).symm
  tail := by
    intro ls ls' h hp
    refine h.tail fun hend => ?_
    rw [hend] at hp
    cases hp

namespace Expr

/-- A text whose lexemes are those of another, moved, is read as the other, or refused as it is. -/
theorem parse_moved {text text' : String}
    (hscan : scan .expression text' = movedBy π (movedLexemes π) (scan .expression text)) :
    parse text' = movedBy π (mapPos π) (parse text) := by
  rw [parse_eq_ofLexemes, parse_eq_ofLexemes, hscan]
  cases hls : scan .expression text with
  | error e => rfl
  | ok ls => exact ofLexemes_alike (looksAlike_moved π) ⟨terminated_of_scan hls, rfl⟩

end Expr
end ScriptShell
