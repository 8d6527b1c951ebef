import ScriptShell.EvalFault
import ScriptShell.Table

/-!
# ScriptShell.Globals

The names that a module or a session binds. Once frozen they are bound for good.

* `Globals`: the bindings, and whether they are frozen.
* `Globals.set`: bind a name, which fails if frozen.
-/

namespace ScriptShell

/-- Bindings that can be frozen. -/
structure Globals (α : Type) where
  bindings : Table α
  frozen : Bool

namespace Globals

variable {α : Type}

/-- No bindings, not frozen. -/
def empty : Globals α := ⟨.empty, false⟩

instance : Inhabited (Globals α) := ⟨empty⟩

/-- The bindings of a list, not frozen. -/
def ofList (es : List (String × α)) : Globals α := ⟨.ofList es, false⟩

/-- The value bound to a name. -/
def get? (g : Globals α) (name : String) : Option α :=
  g.bindings.get? name

/-- Is the name bound? -/
def contains (g : Globals α) (name : String) : Bool :=
  g.bindings.contains name

/-- Bind a name, replacing what it was bound to. -/
def set (g : Globals α) (name : String) (v : α) : Except EvalFault (Globals α) :=
  if g.frozen then .error (.frozen name)
  else .ok { g with bindings := g.bindings.insert name v }

/-- Make the bindings final. -/
def freeze (g : Globals α) : Globals α := { g with frozen := true }

/-- The bindings in the order of the names. -/
def toList (g : Globals α) : List (String × α) :=
  g.bindings.entries

/-- The number of bindings. -/
def size (g : Globals α) : Nat := g.bindings.size

/-- Is nothing bound? -/
def isEmpty (g : Globals α) : Bool := g.toList.isEmpty

end Globals
end ScriptShell
