import ScriptShell.Token

/-!
# ScriptShell.SyntaxError

Why a text is not accepted, and where.

* `SyntaxFault`: the causes, of the characters (`unexpectedChar` up to `unevenOutdent`) and of the
  order of tokens (the rest).
* `SyntaxFault.message`: the words in which a cause is reported.
* `SyntaxError`: a cause at a place.
-/

namespace ScriptShell

/-- The causes for which a text is not accepted. -/
inductive SyntaxFault where
  | unexpectedChar (c : Char)
  /-- A backslash that is not the last character of its line. -/
  | strayBackslash
  | unterminatedString
  | invalidEscape
  /-- Digits with letters among them, or a value out of range. -/
  | invalidInteger (literal : String)
  /-- A line is indented less than its block and not like any enclosing one. -/
  | unevenOutdent
  | expected (wanted got : Token)
  | wantIdentifier (got : Token)
  | wantPrimary (got : Token)
  | wantLoadOperand (got : Token)
  | wantBlock (got : Token)
  | returnOutsideFunction
  | loadInsideFunction
  | loadModuleNotString
  | loadOperandNotString
  | loadImportsNothing
  | targetNotName
  | expressionTooDeep
  | blockTooDeep
  deriving DecidableEq

/-- A token met, and what was wanted in its place. -/
def gotInstead (got : Token) (wanted : String) : String :=
  "got " ++ got.text ++ ", " ++ wanted

/-- The words in which a cause is reported. -/
def SyntaxFault.message : SyntaxFault → String
  | .unexpectedChar c => "unexpected character - " ++ String.singleton c
  | .strayBackslash => "unexpected character after line continuation"
  | .unterminatedString => "unterminated string literal"
  | .invalidEscape => "invalid escape sequence"
  | .invalidInteger literal => "invalid integer literal - " ++ literal
  | .unevenOutdent => "unindent does not match any outer indentation level"
  | .expected wanted got => gotInstead got ("expected " ++ wanted.text)
  | .wantIdentifier got => gotInstead got "want identifier"
  | .wantPrimary got => gotInstead got "want primary expression"
  | .wantLoadOperand got => gotInstead got "want load operand"
  | .wantBlock got => gotInstead got "expected an indented block"
  | .returnOutsideFunction => "return statement not within a function"
  | .loadInsideFunction => "load statement within a function"
  | .loadModuleNotString => "first operand of load statement must be a string literal"
  | .loadOperandNotString => "load operand must be a string literal"
  | .loadImportsNothing => "load statement must import at least 1 symbol"
  | .targetNotName => "can only assign to a name"
  | .expressionTooDeep => "expression nested too deeply"
  | .blockTooDeep => "block nested too deeply"

/-- A cause and the place it is reported at. -/
structure SyntaxError where
  pos : Pos
  fault : SyntaxFault
  deriving DecidableEq

end ScriptShell
