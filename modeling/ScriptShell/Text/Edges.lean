/-!
# ScriptShell.Text.Edges

Sets of code points given by their edges: the code points, in increasing order, at which
membership changes. The first edge is the least member, the second the least non-member above it,
and so on, so a code point is a member exactly when an odd number of edges are at most it.

* `insideEdges`: membership, read off the edges from the left.
-/

namespace ScriptShell
namespace Text

/-- Membership of the code point `c` in the set with the given edges. -/
def insideEdges : List Nat → Nat → Bool
  | [], _ => false
  | e :: es, c => if c < e then false else !insideEdges es c

end Text
end ScriptShell
