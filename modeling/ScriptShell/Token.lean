import ScriptShell.Integer
import ScriptShell.Position
import ScriptShell.Text.Quoted

/-!
# ScriptShell.Token

The tokens of a program text: literals, names, keywords, marks (punctuation), and the layout tokens
that stand for line ends and for changes of indentation.

* `Token`: a token. `Token.text` names it in messages.
* `Lexeme`: a token and the place where it starts.
* `Keyword.ofWord?`: the keyword that a word is.
* `Mark.single?`, `Mark.lone?`, `Mark.pair?`: how marks are spelled.
-/

namespace ScriptShell

/-- Words with a meaning of their own. -/
inductive Keyword where
  | def_ | return_ | if_ | elif | else_ | while_ | pass | load
  | and | or | not
  | none | true | false
  deriving DecidableEq, Repr

namespace Keyword

/-- All keywords. -/
def all : List Keyword :=
  [.def_, .return_, .if_, .elif, .else_, .while_, .pass, .load, .and, .or, .not, .none, .true,
   .false]

/-- The spelling of a keyword. -/
def text : Keyword → String
  | .def_ => "def"
  | .return_ => "return"
  | .if_ => "if"
  | .elif => "elif"
  | .else_ => "else"
  | .while_ => "while"
  | .pass => "pass"
  | .load => "load"
  | .and => "and"
  | .or => "or"
  | .not => "not"
  | .none => "None"
  | .true => "True"
  | .false => "False"

/-- The keyword that is spelled like the word. -/
def ofWord? (word : String) : Option Keyword :=
  all.find? (fun k => k.text == word)

end Keyword

/-- Punctuation. -/
inductive Mark where
  | parenLeft | parenRight | comma | colon | assign
  | eq | notEq | lt | ltEq | gt | gtEq
  | plus | minus | star | slashSlash | percent
  deriving DecidableEq, Repr

namespace Mark

/-- The spelling of a mark. -/
def text : Mark → String
  | .parenLeft => "("
  | .parenRight => ")"
  | .comma => ","
  | .colon => ":"
  | .assign => "="
  | .eq => "=="
  | .notEq => "!="
  | .lt => "<"
  | .ltEq => "<="
  | .gt => ">"
  | .gtEq => ">="
  | .plus => "+"
  | .minus => "-"
  | .star => "*"
  | .slashSlash => "//"
  | .percent => "%"

/-- The mark that a character is whatever follows it. -/
def single? (c : Char) : Option Mark :=
  if c = '(' then some .parenLeft
  else if c = ')' then some .parenRight
  else if c = ',' then some .comma
  else if c = ':' then some .colon
  else if c = '+' then some .plus
  else if c = '-' then some .minus
  else if c = '*' then some .star
  else if c = '%' then some .percent
  else none

/-- Can the character be the first of a mark of two characters? -/
def opensPair (c : Char) : Bool :=
  c = '=' || c = '!' || c = '<' || c = '>' || c = '/'

/-- The mark of two characters. -/
def pair? (c d : Char) : Option Mark :=
  if d = '=' then
    if c = '=' then some .eq
    else if c = '!' then some .notEq
    else if c = '<' then some .ltEq
    else if c = '>' then some .gtEq
    else none
  else if c = '/' && d = '/' then some .slashSlash
  else none

/-- The mark that the first character of a pair is without a second one. -/
def lone? (c : Char) : Option Mark :=
  if c = '=' then some .assign
  else if c = '<' then some .lt
  else if c = '>' then some .gt
  else none

end Mark

/-- A token of a program text. -/
inductive Token where
  | int (value : Integer)
  | str (value : String)
  | name (id : String)
  | keyword (k : Keyword)
  | mark (m : Mark)
  /-- The end of a line outside parentheses. -/
  | newline
  /-- The next line is indented deeper. -/
  | indent
  /-- The next line leaves an indented block. -/
  | outdent
  | endOfInput
  deriving DecidableEq

/-- How a token is named in messages. -/
def Token.text : Token → String
  | .int i => i.text
  | .str s => Text.quoted s
  | .name s => s
  | .keyword k => k.text
  | .mark m => m.text
  | .newline => "newline"
  | .indent => "indent"
  | .outdent => "outdent"
  | .endOfInput => "end of input"

/-- A token and the place where it starts. -/
structure Lexeme where
  token : Token
  pos : Pos
  deriving DecidableEq

end ScriptShell
