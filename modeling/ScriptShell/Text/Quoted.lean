import ScriptShell.Text.Printable

/-!
# ScriptShell.Text.Quoted

The display form of a text: the text between double quotes, with everything that cannot be shown
as itself escaped. The quote and the backslash are escaped by a backslash, the tab, the return,
the newline and the null character have letters of their own, and every other character that is
not showable is written `\u` with its code point in braces, in lower case hexadecimal without
leading zeros.

* `escape`: the display form of one character.
* `quoted`: the display form of a text.
-/

namespace ScriptShell
namespace Text

/-- The double quote. -/
def quoteMark : Char := '\x22'

/-- The backslash. -/
def backslash : Char := '\x5c'

/-- A code point in hexadecimal between braces, after `\u`. -/
def codePointEscape (c : Char) : List Char :=
  [backslash, 'u', '\x7b'] ++ Nat.toDigits 16 c.toNat ++ ['\x7d']

/-- The display form of one character. -/
def escape (c : Char) : List Char :=
  if c = quoteMark || c = backslash then [backslash, c]
  else if c = '\t' then [backslash, 't']
  else if c = '\r' then [backslash, 'r']
  else if c = '\n' then [backslash, 'n']
  else if c = '\x00' then [backslash, '0']
  else if isShowable c then [c]
  else codePointEscape c

/-- The display form of a text. -/
def quoted (s : String) : String :=
  String.ofList (quoteMark :: s.toList.flatMap escape ++ [quoteMark])

end Text
end ScriptShell
