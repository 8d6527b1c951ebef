import ScriptShell.Error
import ScriptShell.Program.Parser

/-!
# ScriptShell.Classify

When typed lines are a complete unit. A line is complete by itself if it is an expression, or one
assignment or load statement; any other line begins a block, which a blank line ends. A block is an
expression if it can be read as one, and a list of statements otherwise.

* `parseExpr`, `parseProgram`: read a text of a given name.
* `InputUnit`: something to evaluate for its value, or to execute.
* `classifyLine`, `classifyBlock`: the unit that a line or a block is.
* `PendingBlock`: the lines of a block so far.
-/

namespace ScriptShell

/-- The expression that a text of the given name is. -/
def parseExpr (file text : String) : Except Error Expr :=
  (Expr.parse text).mapError (SyntaxError.inFile file)

/-- The program that a text of the given name is. -/
def parseProgram (file text : String) : Except Error Program :=
  (Program.parse text).mapError (SyntaxError.inFile file)

/-- A complete unit of input. -/
inductive InputUnit where
  /-- Evaluated for its value. -/
  | expr (e : Expr)
  /-- Executed for what it binds. -/
  | stmts (p : Program)

/-- Is the program one assignment or one load statement? -/
def isSingleBinding (p : Program) : Bool :=
  match p.map Stmt.kind with
  | [.assign] | [.load] => true
  | _ => false

/-- The unit that a line typed at the primary prompt is by itself, if it is one. -/
def classifyLine (line : String) : Option InputUnit :=
  match Expr.parse line with
  | .ok e => some (.expr e)
  | .error _ =>
    match Program.parse line with
    | .ok p => if isSingleBinding p then some (.stmts p) else none
    | .error _ => none

/-- The unit that a finished block is. What is neither an expression nor a program is refused for
the reason it is not a program. -/
def classifyBlock (file text : String) : Except Error InputUnit :=
  match Expr.parse text with
  | .ok e => .ok (.expr e)
  | .error _ => (parseProgram file text).map .stmts

/-- The lines of a block while it is being typed. -/
structure PendingBlock where
  lines : Array String

namespace PendingBlock

/-- The block that begins with a line. -/
def start (first : String) : PendingBlock := ⟨#[first]⟩

/-- Add a line. -/
def push (b : PendingBlock) (line : String) : PendingBlock := ⟨b.lines.push line⟩

/-- The number of lines. -/
def size (b : PendingBlock) : Nat := b.lines.size

/-- Is there no line? -/
def isEmpty (b : PendingBlock) : Bool := b.lines.isEmpty

/-- The text of the block, in which every line is ended. -/
def text (b : PendingBlock) : String :=
  String.join (b.lines.toList.map (fun line => line ++ "\n"))

end PendingBlock
end ScriptShell
