/-!
# ScriptShell.Text.Blank

Blank characters: the Unicode property `White_Space`, which also holds of the line and paragraph
separators, the next-line control and the spaces of typography. A line that holds nothing else is
as good as empty to the reader of a session.

* `isBlank`: the property.
* `isBlankLine`: every character is blank.
* `firstInk?`: the first character that is not blank.
-/

namespace ScriptShell
namespace Text

/-- Does the character have the property `White_Space`? -/
def isBlank (c : Char) : Bool :=
  let n := c.toNat
  (9 ≤ n && n ≤ 13) || n == 0x20 || n == 0x85 || n == 0xA0 || n == 0x1680 ||
    (0x2000 ≤ n && n ≤ 0x200A) || n == 0x2028 || n == 0x2029 || n == 0x202F || n == 0x205F ||
    n == 0x3000

/-- Does the line hold blanks only? -/
def isBlankLine (line : String) : Bool :=
  line.toList.all isBlank

/-- The first character of the line that is not blank. -/
def firstInk? (line : String) : Option Char :=
  line.toList.find? (fun c => !isBlank c)

theorem firstInk?_eq_none_iff {line : String} : firstInk? line = none ↔ isBlankLine line := by
  simp [firstInk?, isBlankLine]

end Text
end ScriptShell
