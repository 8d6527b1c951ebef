import ScriptShell.Proofs.Expr.Moved
import ScriptShell.Proofs.Program.Alike

/-!
# ScriptShell.Proofs.Program.Moved

If every place of a list of lexemes is moved, the same statements are read, or the same is refused,
with its places moved.

* `looksAlikeBlocks_moved`: a list looks like itself with every place moved, blocks included.
* `readStmts_moved`: lists of statements.
* `Program.parse_moved`: programs whose lexemes are moved.
-/

namespace ScriptShell

variable {π : Pos → Pos}

theorem looksAlikeBlocks_moved (π : Pos → Pos) :
    LooksAlikeBlocks π (fun _ => IsMoved π) endBlock where
  alike _ := looksAlike_moved π
  enter h hp := h.tail (by simp [hp])
  leave h hp := h.tail (by simp [hp])
  ended h _ := .ok h

theorem readStmts_moved {ls : List Lexeme} (h : Terminated ls) :
    readStmts (movedLexemes π ls) (movedLexemes π ls) =
      movedBy π (List.map (Stmt.mapPos π)) (readStmts ls ls) := by
  have hlength : ls.length ≤ (movedLexemes π ls).length := Nat.le_of_eq (List.length_map _).symm
  have htracked := tracks_readStmts (looksAlikeBlocks_moved π) ⟨h, rfl⟩ (Nat.le_refl _) hlength
  rwa [readStmtsOr_plain] at htracked

/-- A text whose lexemes are those of another, moved, is read as the other, or refused as it is. -/
theorem Program.parse_moved {text text' : String}
    (hscan : scan .program text' = movedBy π (movedLexemes π) (scan .program text)) :
    Program.parse text' = movedBy π (List.map (Stmt.mapPos π)) (Program.parse text) := by
  rw [Program.parse, Program.parse, hscan]
  cases hls : scan .program text with
  | error e => rfl
  | ok ls => exact readStmts_moved (terminated_of_scan hls)

end ScriptShell
