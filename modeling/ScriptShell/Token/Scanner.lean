import ScriptShell.SyntaxError
import ScriptShell.Text.Numeric

/-!
# ScriptShell.Token.Scanner

From characters to lexemes. The scanner is a machine that reads one character at a time: what it
has read of the current token is its phase, and a token is written when the character behind it
comes. So the lexemes of a text are one fold over its characters, and reading two texts one after
the other is reading their concatenation.

Outside parentheses a line end is a token, and in a program the indentation of each line that is
not blank and not a comment is compared with the enclosing blocks. A backslash before a line end
joins two lines.

* `Scanner.step`: the machine reads a character.
* `Scanner.finish`: the input ends.
* `scan`: the lexemes of a text, closed by a line end (if there is any), the outdents of the open
  blocks, and `endOfInput`.
-/

namespace ScriptShell

/-- What a text is read as. -/
inductive ScanMode where
  /-- A list of statements, in which indentation matters. -/
  | program
  /-- One expression, in which indentation is ignored. -/
  | expression
  deriving DecidableEq, Repr

/-- What the machine is in the middle of. Characters read are kept newest first, and `start` is
where the token began. -/
inductive Phase where
  /-- In the indentation of a line, `width` columns deep. -/
  | lineStart (width : Nat)
  /-- Between the tokens of a line. -/
  | inLine
  /-- In a comment, which has its line to itself if `whole`. -/
  | comment (whole : Bool)
  /-- Behind a backslash. -/
  | continued (start : Pos)
  | word (start : Pos) (read : List Char)
  | number (start : Pos) (read : List Char)
  | string (start : Pos) (quote : Char) (read : List Char)
  /-- In a string, behind a backslash. -/
  | escape (start : Pos) (quote : Char) (read : List Char)
  /-- Behind a character that may be the first of a mark of two. -/
  | pair (start : Pos) (first : Char)
  deriving DecidableEq

/-- The state of the machine. -/
structure Scanner where
  phase : Phase
  /-- The place of the next character. -/
  pos : Pos
  /-- The number of open parentheses. -/
  depth : Nat
  /-- The indentation of each open block, innermost first. -/
  indents : List Nat
  /-- The lexemes written, newest first. -/
  lexemes : List Lexeme
  deriving DecidableEq

/-- The character that a letter behind a backslash stands for. -/
def escapeValue? (c : Char) : Option Char :=
  if c = 'n' then some '\n'
  else if c = 't' then some '\t'
  else if c = Text.backslash || c = Text.quoteMark || c = '\x27' then some c
  else none

/-- Can the character be part of a name? -/
def isNameChar (c : Char) : Bool :=
  Text.isAlphanumeric c || c = '_'

/-- Can the character begin a name? -/
def isNameStart (c : Char) : Bool :=
  Text.isAlphabetic c || c = '_'

/-- Does the character belong to a literal that began with a digit? -/
def isNumberChar (c : Char) : Bool :=
  c.isAlphanum || c = '_'

/-- The token that a word is. -/
def wordToken (word : String) : Token :=
  match Keyword.ofWord? word with
  | some k => .keyword k
  | none => .name word

namespace Scanner

/-- The machine before the first character. -/
def start : Scanner := ⟨.lineStart 0, .start, 0, [], []⟩

/-- Write a token that began at `p`. -/
def emit (s : Scanner) (p : Pos) (t : Token) : Scanner :=
  { s with lexemes := ⟨t, p⟩ :: s.lexemes }

/-- Move behind a character, into a phase. -/
def move (s : Scanner) (c : Char) (phase : Phase) : Scanner :=
  { s with pos := s.pos.advance c, phase := phase }

/-- The indentation of the innermost open block. -/
def indent (s : Scanner) : Nat :=
  s.indents.headD 0

/-- Compare the indentation of a line with the open blocks, opening one or closing some. -/
def layout (s : Scanner) (width : Nat) : Except SyntaxError Scanner :=
  if s.indent < width then
    .ok { s.emit s.pos .indent with indents := width :: s.indents }
  else
    let kept := s.indents.dropWhile (fun w => decide (width < w))
    let closed := List.replicate (s.indents.length - kept.length) ⟨.outdent, s.pos⟩
    if kept.headD 0 = width then
      .ok { s with indents := kept, lexemes := closed ++ s.lexemes }
    else .error ⟨s.pos, .unevenOutdent⟩

/-- The number of open parentheses behind a mark. A closing one without an opening one counts as
nothing. -/
def depthAfter (depth : Nat) : Mark → Nat
  | .parenLeft => depth + 1
  | .parenRight => depth - 1
  | _ => depth

/-- Read a character that stands between the tokens of a line. -/
def readInLine (s : Scanner) (c : Char) : Except SyntaxError Scanner :=
  if c = '\n' then
    if s.depth = 0 then .ok ((s.emit s.pos .newline).move c (.lineStart 0))
    else .ok (s.move c .inLine)
  else if c = ' ' || c = '\t' || c = '\r' then .ok (s.move c .inLine)
  else if c = '#' then .ok (s.move c (.comment false))
  else if c = Text.backslash then .ok (s.move c (.continued s.pos))
  else if c = Text.quoteMark || c = '\x27' then .ok (s.move c (.string s.pos c []))
  else if c.isDigit then .ok (s.move c (.number s.pos [c]))
  else if isNameStart c then .ok (s.move c (.word s.pos [c]))
  else if Mark.opensPair c then .ok (s.move c (.pair s.pos c))
  else match Mark.single? c with
    | some m => .ok { (s.emit s.pos (.mark m)).move c .inLine with depth := depthAfter s.depth m }
    | none => .error ⟨s.pos, .unexpectedChar c⟩

/-- Write the word, number or mark that ends before the next character. -/
def settle (s : Scanner) : Except SyntaxError Scanner :=
  match s.phase with
  | .word p read =>
    .ok { s.emit p (wordToken (String.ofList read.reverse)) with phase := .inLine }
  | .number p read =>
    match Integer.ofDigits? read.reverse with
    | some i => .ok { s.emit p (.int i) with phase := .inLine }
    | none => .error ⟨p, .invalidInteger (String.ofList read.reverse)⟩
  | .pair p first =>
    match Mark.lone? first with
    | some m => .ok { s.emit p (.mark m) with phase := .inLine }
    | none => .error ⟨p, .unexpectedChar first⟩
  | _ => .ok s

/-- Write the pending token and read the character behind it. -/
def settleAndRead (s : Scanner) (c : Char) : Except SyntaxError Scanner :=
  match s.settle with
  | .ok s' => s'.readInLine c
  | .error e => .error e

/-- Read a character that stands in the indentation of a line or ends it. -/
def readLineStart (mode : ScanMode) (s : Scanner) (width : Nat) (c : Char) :
    Except SyntaxError Scanner :=
  if c = ' ' then .ok (s.move c (.lineStart (width + 1)))
  else if c = '\t' then .ok (s.move c (.lineStart (width + (8 - width % 8))))
  else if c = '\n' || c = '\r' then .ok (s.move c (.lineStart 0))
  else if c = '#' then .ok (s.move c (.comment true))
  else match mode with
    | .expression => s.readInLine c
    | .program =>
      match s.layout width with
      | .ok s' => s'.readInLine c
      | .error e => .error e

/-- Read a character. -/
def step (mode : ScanMode) (s : Scanner) (c : Char) : Except SyntaxError Scanner :=
  match s.phase with
  | .lineStart width => s.readLineStart mode width c
  | .inLine => s.readInLine c
  | .comment whole =>
    if c = '\n' then
      if whole then .ok (s.move c (.lineStart 0)) else s.readInLine c
    else .ok (s.move c s.phase)
  | .continued p =>
    if c = '\n' then .ok (s.move c .inLine) else .error ⟨p, .strayBackslash⟩
  | .word p read =>
    if isNameChar c then .ok (s.move c (.word p (c :: read))) else s.settleAndRead c
  | .number p read =>
    if isNumberChar c then .ok (s.move c (.number p (c :: read))) else s.settleAndRead c
  | .pair p first =>
    match Mark.pair? first c with
    | some m => .ok ((s.emit p (.mark m)).move c .inLine)
    | none => s.settleAndRead c
  | .string p quote read =>
    if c = '\n' then .error ⟨p, .unterminatedString⟩
    else if c = quote then
      .ok ((s.emit p (.str (String.ofList read.reverse))).move c .inLine)
    else if c = Text.backslash then .ok (s.move c (.escape p quote read))
    else .ok (s.move c (.string p quote (c :: read)))
  | .escape p quote read =>
    match escapeValue? c with
    | some d => .ok (s.move c (.string p quote (d :: read)))
    | none => .error ⟨p, .invalidEscape⟩

/-- Read the characters of a text one after the other. -/
def run (mode : ScanMode) (s : Scanner) (cs : List Char) : Except SyntaxError Scanner :=
  cs.foldlM (step mode) s

/-- The lexemes that close a text: a line end unless one has just been written or there is nothing
to end, an outdent for each open block, and the end of input. -/
def closing (s : Scanner) : List Lexeme :=
  let lineEnd :=
    match s.lexemes with
    | [] => []
    | l :: _ => if l.token = .newline then [] else [⟨.newline, s.pos⟩]
  lineEnd ++ List.replicate s.indents.length ⟨.outdent, s.pos⟩ ++ [⟨.endOfInput, s.pos⟩]

/-- The lexemes of the text that ends here. -/
def finish (s : Scanner) : Except SyntaxError (List Lexeme) :=
  match s.phase with
  | .continued p => .error ⟨p, .strayBackslash⟩
  | .string p _ _ => .error ⟨p, .unterminatedString⟩
  | .escape p _ _ => .error ⟨p, .invalidEscape⟩
  | _ =>
    match s.settle with
    | .ok s' => .ok (s'.lexemes.reverse ++ s'.closing)
    | .error e => .error e

/-- Reading two texts one after the other is reading their concatenation. -/
theorem run_append (mode : ScanMode) (s : Scanner) (cs ds : List Char) :
    s.run mode (cs ++ ds) = (s.run mode cs).bind (fun s' => s'.run mode ds) := by
  simp [run, bind]

end Scanner

/-- The lexemes of a text. -/
def scan (mode : ScanMode) (text : String) : Except SyntaxError (List Lexeme) :=
  match Scanner.start.run mode text.toList with
  | .ok s => s.finish
  | .error e => .error e

end ScriptShell
