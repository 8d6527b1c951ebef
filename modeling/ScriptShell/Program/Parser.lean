import ScriptShell.Expr.Parser
import ScriptShell.Program

/-!
# ScriptShell.Program.Parser

Reading statements. A block is one simple statement on the line of its header, or an indented list
of statements below it; it takes one level of nesting. `return` is for function bodies only, `load`
for everything else.

* `Stmt.read`: read a statement.
* `readBlock`: read the block of a compound statement.
* `Program.parse`: a text that is a list of statements.
-/

namespace ScriptShell

/-- Read the names behind the module of a load statement at `p`: strings, or `name = string` pairs,
each behind a comma. The first list bounds the number of names. -/
def readImports (p : Pos) : List Lexeme → Reader (List Import)
  | [], ls => .ok ([], ls)
  | _ :: bound, ls =>
    if peek ls = .mark .comma then
      match peek ls.tail with
      | .mark .parenRight => .ok ([], ls.tail)
      | .str s => do
        let (is, ls) ← readImports p bound ls.tail.tail
        .ok (⟨s, s⟩ :: is, ls)
      | .name id => do
        let ls ← expect (.mark .assign) ls.tail.tail
        match peek ls with
        | .str s =>
          let (is, ls) ← readImports p bound ls.tail
          .ok (⟨id, s⟩ :: is, ls)
        | _ => .error ⟨p, .loadOperandNotString⟩
      | t => refuse ls.tail (.wantLoadOperand t)
    else .ok ([], ls)

/-- Read a load statement. -/
def readLoad (inFunction : Bool) : Reader Stmt := fun ls => do
  let p := here ls
  if inFunction then .error ⟨p, .loadInsideFunction⟩
  else
    let ls ← expect (.mark .parenLeft) ls.tail
    match peek ls with
    | .str module =>
      let (imports, ls) ← readImports p ls ls.tail
      let ls ← expect (.mark .parenRight) ls
      if imports.isEmpty then .error ⟨p, .loadImportsNothing⟩
      else .ok (.load module imports p, ls)
    | _ => .error ⟨p, .loadModuleNotString⟩

/-- Read a return statement. -/
def readReturn (n : Nat) (inFunction : Bool) : Reader Stmt := fun ls =>
  let p := here ls
  if inFunction then
    if peek ls.tail = .newline then .ok (.return_ none p, ls.tail)
    else do
      let (e, ls) ← Expr.read n ls.tail
      .ok (.return_ (some e) p, ls)
  else .error ⟨p, .returnOutsideFunction⟩

/-- Read an expression statement or an assignment. -/
def readAssignment (n : Nat) : Reader Stmt := fun ls => do
  let p := here ls
  let (e, ls) ← Expr.read n ls
  if peek ls = .mark .assign then
    match e with
    | .name id _ =>
      let (value, ls) ← Expr.read n ls.tail
      .ok (.assign id value p, ls)
    | _ => .error ⟨p, .targetNotName⟩
  else .ok (.expr e p, ls)

/-- Read a statement that holds no other, without the end of its line. -/
def readSimple (n : Nat) (inFunction : Bool) : Reader Stmt := fun ls =>
  match peek ls with
  | .keyword .pass => .ok (.pass, ls.tail)
  | .keyword .return_ => readReturn n inFunction ls
  | .keyword .load => readLoad inFunction ls
  | _ => readAssignment n ls

/-- Read a simple statement and the end of its line. -/
def readLine (n : Nat) (inFunction : Bool) : Reader Stmt := fun ls => do
  let (s, ls) ← readSimple n inFunction ls
  let ls ← expect .newline ls
  .ok (s, ls)

/-- Read a function definition whose body the given reader reads. -/
def readDefine (body : Reader (List Stmt)) : Reader Stmt := fun ls => do
  let p := here ls
  let (name, ls) ← readName ls.tail
  let ls ← expect (.mark .parenLeft) ls
  let (params, ls) ← readItems readName ls ls
  let ls ← expect (.mark .parenRight) ls
  let ls ← expect (.mark .colon) ls
  let (body, ls) ← body ls
  .ok (.define name params body p, ls)

/-- Read a condition, a colon, and a block that the given reader reads. -/
def readArm (n : Nat) (block : Reader (List Stmt)) : Reader (Expr × List Stmt) := fun ls => do
  let (cond, ls) ← Expr.read n ls
  let ls ← expect (.mark .colon) ls
  let (body, ls) ← block ls
  .ok ((cond, body), ls)

/-- Read an `if` or `elif` with all that belongs to it; the given reader reads its blocks. The
first list bounds the number of `elif`s. -/
def readIf (n : Nat) (block : Reader (List Stmt)) : List Lexeme → Reader Stmt
  | [], ls => refuse ls (.wantBlock (peek ls))
  | _ :: bound, ls => do
    let p := here ls
    let ((cond, thenPart), ls) ← readArm n block ls.tail
    match peek ls with
    | .keyword .elif =>
      let (s, ls) ← readIf n block bound ls
      .ok (.if_ cond thenPart [s] p, ls)
    | .keyword .else_ =>
      let ls ← expect (.mark .colon) ls.tail
      let (elsePart, ls) ← block ls
      .ok (.if_ cond thenPart elsePart p, ls)
    | _ => .ok (.if_ cond thenPart [] p, ls)

/-- Read a while statement whose block the given reader reads. -/
def readWhile (n : Nat) (block : Reader (List Stmt)) : Reader Stmt := fun ls => do
  let p := here ls
  let ((cond, body), ls) ← readArm n block ls.tail
  .ok (.while_ cond body p, ls)

/-- Read a statement; the given reader reads the blocks in it, of which those of a function
definition are inside a function. -/
def readStmtWith (n : Nat) (block : Bool → Reader (List Stmt)) (inFunction : Bool) :
    Reader Stmt := fun ls =>
  match peek ls with
  | .keyword .def_ => readDefine (block true) ls
  | .keyword .if_ => readIf n (block inFunction) ls ls
  | .keyword .while_ => readWhile n (block inFunction) ls
  | _ => readLine n inFunction ls

/-- Read the statements of an indented block and the outdent behind it. The first list bounds
their number. -/
def readIndented (stmt : Reader Stmt) : List Lexeme → Reader (List Stmt)
  | [], ls => .ok ([], ls)
  | _ :: bound, ls =>
    match peek ls with
    | .outdent => .ok ([], ls.tail)
    | .endOfInput => .ok ([], ls)
    | _ => do
      let (s, ls) ← stmt ls
      let (ss, ls) ← readIndented stmt bound ls
      .ok (s :: ss, ls)

/-- Read the block of a compound statement, which takes one level. -/
def readBlock : Nat → Bool → Reader (List Stmt)
  | 0, _, ls => refuse ls .blockTooDeep
  | n + 1, inFunction, ls =>
    if peek ls = .newline then
      if peek ls.tail = .indent then
        readIndented (readStmtWith n (readBlock n) inFunction) ls ls.tail.tail
      else refuse ls.tail (.wantBlock (peek ls.tail))
    else do
      let (s, ls) ← readLine n inFunction ls
      .ok ([s], ls)

/-- Read a statement. -/
def Stmt.read (n : Nat) (inFunction : Bool) : Reader Stmt :=
  readStmtWith n (readBlock n) inFunction

/-- Read statements up to the end of input. Line ends between them mean nothing. The first list
bounds their number. -/
def readStmts : List Lexeme → List Lexeme → Except SyntaxError (List Stmt)
  | [], _ => .ok []
  | _ :: bound, ls =>
    let ls := skipNewlines ls
    if peek ls = .endOfInput then .ok []
    else do
      let (s, ls) ← Stmt.read maxNesting false ls
      let ss ← readStmts bound ls
      .ok (s :: ss)

/-- The program that a text is. -/
def Program.parse (text : String) : Except SyntaxError Program := do
  let ls ← scan .program text
  readStmts ls ls

end ScriptShell
