import ScriptShell.Integer
import ScriptShell.Position

/-!
# ScriptShell.Expr

Expressions. A node keeps the place of the token that made it: a name its own, an operator node
that of the operator, a call that of the opening parenthesis. Parentheses leave no node.

* `Expr`: an expression.
* `Expr.height`: the greatest number of operator and call nodes on a path to a leaf.
-/

namespace ScriptShell

/-- Operators of one operand. -/
inductive UnaryOp where
  | neg | not
  deriving DecidableEq, Repr

/-- Operators of two operands. -/
inductive BinaryOp where
  | add | sub | mul | floorDiv | mod
  | eq | notEq | lt | ltEq | gt | gtEq
  | and | or
  deriving DecidableEq, Repr

/-- The spelling of an operator. -/
def BinaryOp.text : BinaryOp → String
  | .add => "+"
  | .sub => "-"
  | .mul => "*"
  | .floorDiv => "//"
  | .mod => "%"
  | .eq => "=="
  | .notEq => "!="
  | .lt => "<"
  | .ltEq => "<="
  | .gt => ">"
  | .gtEq => ">="
  | .and => "and"
  | .or => "or"

/-- An expression. -/
inductive Expr where
  | none
  | bool (value : Bool)
  | int (value : Integer)
  | str (value : String)
  | name (id : String) (pos : Pos)
  | unary (op : UnaryOp) (operand : Expr) (pos : Pos)
  | binary (op : BinaryOp) (lhs rhs : Expr) (pos : Pos)
  | call (callee : Expr) (args : List Expr) (pos : Pos)

instance : Inhabited Expr := ⟨.none⟩

/-- The greatest number of operator and call nodes on a path from the root to a leaf. -/
def Expr.height : Expr → Nat
  | .none | .bool _ | .int _ | .str _ | .name _ _ => 0
  | .unary _ e _ => e.height + 1
  | .binary _ l r _ => max l.height r.height + 1
  | .call f args _ => max f.height (argsHeight args) + 1
where
  /-- The height of the highest argument. -/
  argsHeight : List Expr → Nat
    | [] => 0
    | e :: es => max e.height (argsHeight es)

end ScriptShell
