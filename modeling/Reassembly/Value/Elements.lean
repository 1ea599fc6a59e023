import Reassembly.Value.Schema

/-!
# Going through values

A list or a tuple yields its items, a map its keys, a text its characters or its bytes, and an
object the pairs of its fields' names and values. What yields pairs can be read as a map.

* `Store.elements?`: what a value yields.
* `Store.mapping`: a value as a map.
* `elements_list`: a list yields its items.
-/
namespace Reassembly

/-- The key as a value. -/
def Key.toValue : Key → Value
  | .text s => .text s
  | .number n => .int n

namespace Store

/-- What going through a value yields, if one can go through it. -/
def elements? (s : Store) (v : Value) : Option (List Value) :=
  match s.head v with
  | .list items => some items
  | .tuple items => some items
  | .map entries => some (entries.map (·.1.toValue))
  | .text t => some (t.toList.map fun c => .text (String.singleton c))
  | .encoded t => some (t.toUTF8.data.toList.map fun b => .int b.toNat)
  | .object .accumulator _ => none
  | .object kind fields =>
    some ((kind.fields.zip fields).map fun (f, v) => .tuple [.text f.name, v])
  | _ => none

def elements (s : Store) (v : Value) : List Value := (s.elements? v).getD []

/-- It is known how many elements there are without going through them. -/
def isSized (s : Store) (v : Value) : Bool :=
  match s.head v with
  | .list _ | .tuple _ | .map _ | .text _ | .encoded _ => true
  | _ => false

/-- A key and a value, if the value yields these two. -/
def pair? (s : Store) (v : Value) : Option (Key × Value) :=
  match s.elements v with
  | [.text k, v] => some (.text k, v)
  | [.int n, v] => some (.number n, v)
  | _ => none

/-- The entries of a map, or the pairs that another value yields. -/
def mapping (s : Store) (v : Value) : Entries Value :=
  match s.entries? v with
  | some entries => entries
  | none => Entries.ofList ((s.elements v).filterMap s.pair?)

theorem elements_list (s : Store) (items : List Value) : s.elements (.list items) = items := rfl

theorem mapping_map (s : Store) (entries : Entries Value) : s.mapping (.map entries) = entries :=
  rfl

end Store

end Reassembly
