import Reassembly.Value.Written

/-!
# Values as text for people

Every value can be displayed. Objects of some kinds are displayed as a text of their own, all others
by their fields.

* `Store.display`: the text of any value.
* `Store.ownText?`: the text, of an object that is displayed as a text of its own.
-/
namespace Reassembly

/-- Objects of these kinds are displayed as a text of their own. -/
def Kind.hasOwnText : Kind → Bool
  | .text | .reasoning | .usage | .details | .role | .finish | .message | .update
  | .response => true
  | _ => false

namespace Store

def display (s : Store) (v : Value) : String := (s.expand v).written

def ownText? (s : Store) (v : Value) : Option String :=
  if (s.kind? v).any Kind.hasOwnText then some (s.display v) else none

end Store

end Reassembly
