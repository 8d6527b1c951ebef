import ScriptShell.Expr
import ScriptShell.Token.Reader
import ScriptShell.Token.Scanner

/-!
# ScriptShell.Expr.Parser

Reading expressions. The operators bind in this order, the loosest first: `or`, `and`, `not`, the
comparisons (of which only one may stand in a row), `+` and `-`, `*` and `//` and `%`, the minus
sign, calls. Operators of one line associate to the left.

Every reader carries the number `n` of levels of nesting that are left: an expression, an operator
and a call each take one, and where none is left the text is refused. `n` is what the recursion runs
on. The levels that a row of operators or calls takes are left again for what stands behind the row,
and a comparison takes none, so that trees can grow higher than the first allowance.

* `Expr.read`: read an expression.
* `Expr.parse`: a text that is exactly one expression.
-/

namespace ScriptShell

/-- Levels of nesting that a text may use. -/
def maxNesting : Nat := 200

/-- The operators that associate to the left, grouped by how tightly they bind. -/
inductive Chain where
  | or | and | sum | product
  deriving DecidableEq, Repr

/-- The operator of a group that a token is. -/
def Chain.op? : Chain → Token → Option BinaryOp
  | .or, .keyword .or => some .or
  | .and, .keyword .and => some .and
  | .sum, .mark .plus => some .add
  | .sum, .mark .minus => some .sub
  | .product, .mark .star => some .mul
  | .product, .mark .slashSlash => some .floorDiv
  | .product, .mark .percent => some .mod
  | _, _ => none

/-- The comparison that a token is. -/
def comparison? : Token → Option BinaryOp
  | .mark .eq => some .eq
  | .mark .notEq => some .notEq
  | .mark .lt => some .lt
  | .mark .ltEq => some .ltEq
  | .mark .gt => some .gt
  | .mark .gtEq => some .gtEq
  | _ => none

namespace Expr

mutual

/-- Read an expression, which takes one level. -/
def read (n : Nat) : Reader Expr := fun ls =>
  match n with
  | 0 => refuse ls .expressionTooDeep
  | n + 1 => readOr n ls
termination_by n * 16

/-- Read a literal, a name, or an expression in parentheses. -/
def readPrimary (n : Nat) : Reader Expr := fun ls =>
  match peek ls with
  | .int i => .ok (.int i, ls.tail)
  | .str s => .ok (.str s, ls.tail)
  | .name id => .ok (.name id (here ls), ls.tail)
  | .keyword .none => .ok (.none, ls.tail)
  | .keyword .true => .ok (.bool true, ls.tail)
  | .keyword .false => .ok (.bool false, ls.tail)
  | .mark .parenLeft => do
    let (e, ls) ← read n ls.tail
    let ls ← expect (.mark .parenRight) ls
    .ok (e, ls)
  | t => refuse ls (.wantPrimary t)
termination_by n * 16 + 1

/-- Read a primary expression and the calls behind it. -/
def readCall (n : Nat) : Reader Expr := fun ls => do
  let (f, ls) ← readPrimary n ls
  readCalls n f ls
termination_by n * 16 + 2

/-- Read the calls behind a callee; each takes one level. -/
def readCalls (n : Nat) (f : Expr) : Reader Expr := fun ls =>
  if peek ls = .mark .parenLeft then
    match n with
    | 0 => refuse ls .expressionTooDeep
    | n + 1 => do
      let (args, rest) ← readItems (fun ls => read n ls) ls ls.tail
      let rest ← expect (.mark .parenRight) rest
      readCalls n (.call f args (here ls)) rest
  else .ok (f, ls)
termination_by n * 16

/-- Read a call with any number of minus signs before it; each takes one level. -/
def readNegation (n : Nat) : Reader Expr := fun ls =>
  if peek ls = .mark .minus then
    match n with
    | 0 => refuse ls .expressionTooDeep
    | n + 1 => do
      let (e, rest) ← readNegation n ls.tail
      .ok (.unary .neg e (here ls), rest)
  else readCall n ls
termination_by n * 16 + 3

/-- Read factors. -/
def readProduct (n : Nat) : Reader Expr := fun ls => do
  let (e, ls) ← readNegation n ls
  readChain .product n e ls
termination_by n * 16 + 4

/-- Read terms. -/
def readSum (n : Nat) : Reader Expr := fun ls => do
  let (e, ls) ← readProduct n ls
  readChain .sum n e ls
termination_by n * 16 + 5

/-- Read one comparison at most. It takes no level. -/
def readComparison (n : Nat) : Reader Expr := fun ls => do
  let (l, rest) ← readSum n ls
  match comparison? (peek rest) with
  | Option.none => .ok (l, rest)
  | some op =>
    let (r, rest') ← readSum n rest.tail
    .ok (.binary op l r (here rest), rest')
termination_by n * 16 + 6

/-- Read a comparison with any number of `not`s before it; each takes one level. -/
def readNot (n : Nat) : Reader Expr := fun ls =>
  if peek ls = .keyword .not then
    match n with
    | 0 => refuse ls .expressionTooDeep
    | n + 1 => do
      let (e, rest) ← readNot n ls.tail
      .ok (.unary .not e (here ls), rest)
  else readComparison n ls
termination_by n * 16 + 7

/-- Read operands of `and`. -/
def readAnd (n : Nat) : Reader Expr := fun ls => do
  let (e, ls) ← readNot n ls
  readChain .and n e ls
termination_by n * 16 + 8

/-- Read operands of `or`. -/
def readOr (n : Nat) : Reader Expr := fun ls => do
  let (e, ls) ← readAnd n ls
  readChain .or n e ls
termination_by n * 16 + 9

/-- Read the operators of a group behind a first operand, with their operands; each takes one
level. -/
def readChain (c : Chain) (n : Nat) (lhs : Expr) : Reader Expr := fun ls =>
  match c.op? (peek ls) with
  | Option.none => .ok (lhs, ls)
  | some op =>
    match n with
    | 0 => refuse ls .expressionTooDeep
    | n + 1 => do
      let (rhs, rest) ←
        match c with
        | .or => readAnd n ls.tail
        | .and => readNot n ls.tail
        | .sum => readProduct n ls.tail
        | .product => readNegation n ls.tail
      readChain c n (.binary op lhs rhs (here ls)) rest
termination_by n * 16

end

/-- The expression that a text is, line ends before and behind it aside. -/
def parse (text : String) : Except SyntaxError Expr := do
  let ls ← scan .expression text
  let (e, ls) ← read maxNesting (skipNewlines ls)
  let _ ← expect .endOfInput (skipNewlines ls)
  .ok e

end Expr
end ScriptShell
