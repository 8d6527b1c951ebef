import ScriptShell.Program
import ScriptShell.Table
import ScriptShell.Text.Quoted

/-!
# ScriptShell.Value

The values of the language. A function is told from every other by the number it was given when its
definition was executed; two executions of one definition make two functions.

* `Value`: a value. `Value.typeName`, `Value.truth` say how operators take it.
* `Value.repr`, `Value.text`: the display form, and the form without quotes around a string.
* `Value.same`: equality as the language sees it.
* `Builtin`: the functions that need no definition.
-/

namespace ScriptShell

/-- What a function definition says. -/
structure Definition where
  name : String
  params : List String
  body : List Stmt
  pos : Pos

/-- A function: its number, its definition, and the file the definition stands in. -/
structure Function where
  id : Nat
  definition : Definition
  file : String

/-- The functions that need no definition. -/
inductive Builtin where
  /-- Fail with a text. -/
  | fail
  /-- The number of characters of a string. -/
  | len
  /-- A value as a string. -/
  | str
  deriving DecidableEq, Repr

namespace Builtin

/-- All of them. -/
def all : List Builtin := [.fail, .len, .str]

/-- The name under which a program finds it. -/
def name : Builtin → String
  | .fail => "fail"
  | .len => "len"
  | .str => "str"

/-- The one of the given name. -/
def ofName? (name : String) : Option Builtin :=
  all.find? (fun b => b.name == name)

end Builtin

/-- A value. -/
inductive Value where
  | none
  | bool (b : Bool)
  | int (i : Integer)
  | str (s : String)
  | function (f : Function)
  | builtin (b : Builtin)

instance : Inhabited Value := ⟨.none⟩

namespace Value

/-- The name of a value's type. -/
def typeName : Value → String
  | .none => "NoneType"
  | .bool _ => "bool"
  | .int _ => "int"
  | .str _ => "string"
  | .function _ => "function"
  | .builtin _ => "builtin_function_or_method"

/-- Does the value count as true where a condition is asked for? -/
def truth : Value → Bool
  | .none => false
  | .bool b => b
  | .int i => i.val != 0
  | .str s => s != ""
  | .function _ | .builtin _ => true

/-- The display form. -/
def repr : Value → String
  | .none => "None"
  | .bool true => "True"
  | .bool false => "False"
  | .int i => i.text
  | .str s => Text.quoted s
  | .function f => "<function " ++ f.definition.name ++ ">"
  | .builtin b => "<built-in function " ++ b.name ++ ">"

/-- The display form, but a string as it is. -/
def text : Value → String
  | .str s => s
  | v => v.repr

/-- Is the value the one that a session does not print? -/
def isNone : Value → Bool
  | .none => true
  | _ => false

/-- Are the values equal? Values of different types are not, and functions are equal only to
themselves. -/
def same : Value → Value → Bool
  | .none, .none => true
  | .bool a, .bool b => a == b
  | .int a, .int b => a == b
  | .str a, .str b => a == b
  | .function f, .function g => f.id == g.id
  | .builtin a, .builtin b => a == b
  | _, _ => false

end Value
end ScriptShell
