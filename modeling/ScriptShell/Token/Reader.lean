import ScriptShell.SyntaxError

/-!
# ScriptShell.Token.Reader

Reading syntax off a list of lexemes. A reader takes what it reads from the front of the list and
returns the rest; lists end with `endOfInput`, which no reader takes.

* `Reader`: a reader of values of some type.
* `peek`, `here`: the first token and its place.
* `expect`: read one given token.
* `readItems`: items separated by commas, up to a closing parenthesis.
-/

namespace ScriptShell

/-- Reads a value from the front of a list of lexemes and returns it with the rest. -/
abbrev Reader (α : Type) := List Lexeme → Except SyntaxError (α × List Lexeme)

/-- The first token. -/
def peek : List Lexeme → Token
  | [] => .endOfInput
  | l :: _ => l.token

/-- The place of the first token. -/
def here : List Lexeme → Pos
  | [] => .start
  | l :: _ => l.pos

/-- Refuse at the first token. -/
def refuse {α : Type} (ls : List Lexeme) (fault : SyntaxFault) : Except SyntaxError α :=
  .error ⟨here ls, fault⟩

/-- Read one given token. -/
def expect (t : Token) (ls : List Lexeme) : Except SyntaxError (List Lexeme) :=
  if peek ls = t then .ok ls.tail else refuse ls (.expected t (peek ls))

/-- What is left behind any number of line ends. -/
def skipNewlines (ls : List Lexeme) : List Lexeme :=
  ls.dropWhile (fun l => decide (l.token = .newline))

/-- Read a name. -/
def readName : Reader String := fun ls =>
  match peek ls with
  | .name id => .ok (id, ls.tail)
  | t => refuse ls (.wantIdentifier t)

/-- Read items separated by commas up to a closing parenthesis, which is left to the caller; a
comma may stand before it. The second argument bounds the number of items: any list at least as
long as the one that is read will do. -/
def readItems {α : Type} (item : Reader α) : List Lexeme → Reader (List α)
  | [], ls => .ok ([], ls)
  | _ :: bound, ls =>
    if peek ls = .mark .parenRight then .ok ([], ls)
    else do
      let (a, ls) ← item ls
      if peek ls = .mark .comma then
        let (as, ls) ← readItems item bound ls.tail
        .ok (a :: as, ls)
      else .ok ([a], ls)

end ScriptShell
