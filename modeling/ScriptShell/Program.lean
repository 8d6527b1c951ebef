import ScriptShell.Expr

/-!
# ScriptShell.Program

Statements and programs.

* `Stmt`: a statement. An `elif` is an `if` that is the whole `else` part of the one before it.
* `Program`: a list of statements.
* `StmtKind`: what the reader of a session has to know of a statement.
-/

namespace ScriptShell

/-- One name taken over by a load statement: under which name, and what it is called in the
module. -/
structure Import where
  target : String
  exported : String
  deriving DecidableEq, Repr

/-- A statement. -/
inductive Stmt where
  | expr (e : Expr) (pos : Pos)
  | assign (name : String) (value : Expr) (pos : Pos)
  | load (module : String) (imports : List Import) (pos : Pos)
  | define (name : String) (params : List String) (body : List Stmt) (pos : Pos)
  | return_ (value : Option Expr) (pos : Pos)
  | if_ (cond : Expr) (thenPart elsePart : List Stmt) (pos : Pos)
  | while_ (cond : Expr) (body : List Stmt) (pos : Pos)
  | pass

instance : Inhabited Stmt := ⟨.pass⟩

/-- A list of statements. -/
abbrev Program := List Stmt

/-- The kinds of statement that a session tells apart. -/
inductive StmtKind where
  | assign | load | other
  deriving DecidableEq, Repr

/-- The kind of a statement. -/
def Stmt.kind : Stmt → StmtKind
  | .assign .. => .assign
  | .load .. => .load
  | _ => .other

end ScriptShell
