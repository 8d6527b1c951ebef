import ScriptShell.Error
import ScriptShell.Expr

/-!
# ScriptShell.EvalFault

Why an evaluation fails, as far as the program itself is the cause. Types are given by name.

* `EvalFault`: the causes.
* `EvalFault.message`: the words in which a cause is reported.
* `EvalFault.toError`: a cause that arises outside every call.
-/

namespace ScriptShell

/-- The causes for which an evaluation fails. -/
inductive EvalFault where
  | undefined (name : String)
  | arithmetic (fault : ArithmeticFault)
  /-- A minus sign before what is not an integer. -/
  | notNegatable (type : String)
  | notComparable (op : BinaryOp) (left right : String)
  | notOperable (op : BinaryOp) (left right : String)
  | wrongArity (function : String) (wanted given : Nat)
  | wrongBuiltinArity (function : String) (given : Nat)
  | callsTooDeep
  | notCallable (type : String)
  | noLength (type : String)
  /-- The program fails by its own will. -/
  | failed (text : String)
  | frozen (name : String)
  | notExported (exported module : String)
  | notFound (exported module : String)
  /-- There is nothing to load modules with. -/
  | cannotLoad (module : String)

/-- The words in which a cause is reported. -/
def EvalFault.message : EvalFault → String
  | .undefined name => "undefined: " ++ name
  | .arithmetic fault => fault.message
  | .notNegatable type => "unknown unary op: -" ++ type
  | .notComparable op left right =>
    op.text ++ " not supported between " ++ left ++ " and " ++ right
  | .notOperable op left right =>
    "unknown binary op: " ++ left ++ " " ++ op.text ++ " " ++ right
  | .wrongArity function wanted given =>
    "function " ++ function ++ " accepts " ++ toString wanted ++ " arguments (" ++
      toString given ++ " given)"
  | .wrongBuiltinArity function given =>
    function ++ ": got " ++ toString given ++ " arguments, want 1"
  | .callsTooDeep => "call stack exceeds maximum depth"
  | .notCallable type => "invalid call of non-function (" ++ type ++ ")"
  | .noLength type => "len: value of type " ++ type ++ " has no len"
  | .failed text => "fail: " ++ text
  | .frozen name => "cannot assign to " ++ name ++ " - globals are frozen"
  | .notExported exported module => "load: " ++ exported ++ " is not exported by " ++ module
  | .notFound exported module =>
    "load: name " ++ exported ++ " not found in module " ++ module
  | .cannotLoad module => "load not implemented by this application - " ++ module

/-- The failure that a cause makes outside every call. -/
def EvalFault.toError (f : EvalFault) : Error :=
  .eval f.message none

end ScriptShell
