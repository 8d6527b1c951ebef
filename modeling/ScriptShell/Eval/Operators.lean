import ScriptShell.EvalFault
import ScriptShell.Value

/-!
# ScriptShell.Eval.Operators

What the operators and the builtin functions make of values. Arithmetic is for integers, `+` also
joins strings, comparisons order integers and strings, and equality is for values of all types.

* `BinaryOp.apply`, `UnaryOp.apply`: an operator and its operands. The operators `and` and `or`
  decide by their first operand alone whether there is a second one; they are not applied here.
* `Builtin.apply`: a builtin function and its arguments.
-/

namespace ScriptShell

/-- The result of an operation on integers, as a value. -/
def ofArithmetic : Except ArithmeticFault Integer → Except EvalFault Value
  | .ok i => .ok (.int i)
  | .error f => .error (.arithmetic f)

/-- How two values are ordered: integers by size, strings by their code points. -/
def Value.compare? : Value → Value → Option Ordering
  | .int a, .int b => some (compare a.val b.val)
  | .str a, .str b => some (compare a b)
  | _, _ => Option.none

/-- Does a comparison hold of values in the given order? -/
def BinaryOp.holds : BinaryOp → Ordering → Bool
  | .lt, o => o.isLT
  | .ltEq, o => o.isLE
  | .gt, o => o.isGT
  | _, o => o.isGE

/-- An operation on integers and nothing else. -/
def onIntegers (op : BinaryOp) (f : Integer → Integer → Except ArithmeticFault Integer)
    (l r : Value) : Except EvalFault Value :=
  match l, r with
  | .int a, .int b => ofArithmetic (f a b)
  | _, _ => .error (.notOperable op l.typeName r.typeName)

/-- Apply an operator to the values of its operands. -/
def BinaryOp.apply (op : BinaryOp) (l r : Value) : Except EvalFault Value :=
  match op with
  | .eq => .ok (.bool (l.same r))
  | .notEq => .ok (.bool (!l.same r))
  | .lt | .ltEq | .gt | .gtEq =>
    match l.compare? r with
    | some o => .ok (.bool (op.holds o))
    | none => .error (.notComparable op l.typeName r.typeName)
  | .add =>
    match l, r with
    | .str a, .str b => .ok (.str (a ++ b))
    | _, _ => onIntegers op Integer.add l r
  | .sub => onIntegers op Integer.sub l r
  | .mul => onIntegers op Integer.mul l r
  | .floorDiv => onIntegers op Integer.floorDiv l r
  | .mod => onIntegers op Integer.mod l r
  | .and | .or => .error (.notOperable op l.typeName r.typeName)

/-- Apply an operator to the value of its operand. -/
def UnaryOp.apply : UnaryOp → Value → Except EvalFault Value
  | .not, v => .ok (.bool (!v.truth))
  | .neg, .int i => ofArithmetic i.neg
  | .neg, v => .error (.notNegatable v.typeName)

/-- Call a builtin function. -/
def Builtin.apply : Builtin → List Value → Except EvalFault Value
  | .fail, vs => .error (.failed (" ".intercalate (vs.map Value.text)))
  | .len, [.str s] => .ok (.int (Integer.ofLength s.length))
  | .len, [v] => .error (.noLength v.typeName)
  | .str, [v] => .ok (.str v.text)
  | b, vs => .error (.wrongBuiltinArity b.name vs.length)

end ScriptShell
