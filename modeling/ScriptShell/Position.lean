/-!
# ScriptShell.Position

Places in a source text. Lines and columns count from one, a column is a code point, and a newline
belongs to the line that it ends.

* `Pos`: line and column. `Pos.advance` is the place behind a character.
* `Location`: a place in a named text, shown as `FILE:LINE:COLUMN`.
-/

namespace ScriptShell

/-- A line and a column, both counted from one. They do not wrap around: what is said of places
holds of counters of 32 bits in texts of less than `2 ^ 32` lines and columns. -/
structure Pos where
  line : Nat
  col : Nat
  deriving DecidableEq, Repr

namespace Pos

/-- The place of a text's first character. -/
def start : Pos := ⟨1, 1⟩

/-- The place behind a character that stands at `p`. -/
def advance (p : Pos) (c : Char) : Pos :=
  if c = '\n' then ⟨p.line + 1, 1⟩ else ⟨p.line, p.col + 1⟩

/-- The place behind a run of characters that starts at `p`. -/
def advanceBy (p : Pos) (cs : List Char) : Pos :=
  cs.foldl advance p

theorem advanceBy_append (p : Pos) (cs ds : List Char) :
    p.advanceBy (cs ++ ds) = (p.advanceBy cs).advanceBy ds := by
  simp [advanceBy]

end Pos

/-- A place in a named text. -/
structure Location where
  file : String
  pos : Pos
  deriving DecidableEq, Repr

/-- The form `FILE:LINE:COLUMN`. -/
def Location.text (l : Location) : String :=
  l.file ++ ":" ++ toString l.pos.line ++ ":" ++ toString l.pos.col

end ScriptShell
