import Reassembly.Value.Store
import Reassembly.Value.Schema

/-!
# Content items

What the library looks at in a content item: the text of a text or reasoning item, whether it
carries annotations, its properties, and the counters of a usage item. All other items are opaque
and are passed on untouched.

* `Store.textItem?`, `Store.usageItem?`: these readings.
* `concatText`: the text of a list of items, that of its text items.
* `concatText_append`: it distributes over concatenation.
-/
namespace Reassembly

/-- A text or reasoning item. -/
structure TextItem where
  annotations : Value
  raw : Value
  properties : Value
  text : String
deriving DecidableEq, Repr

/-- The item as a value. -/
def TextItem.toValue (k : Kind) (i : TextItem) : Value :=
  .object k [i.annotations, i.raw, i.properties, .text i.text]

namespace Store

/-- The item as one of the given kind of text. -/
def textItem? (s : Store) (k : Kind) (v : Value) : Option TextItem :=
  match s.head v with
  | .object l [annotations, raw, properties, .text t] =>
    if l = k then some ⟨annotations, raw, properties, t⟩ else none
  | _ => none

/-- The counters of a usage item: a value that may be null. -/
def usageItem? (s : Store) (v : Value) : Option Value :=
  match s.head v with
  | .object .usage [_, _, _, details] => some details
  | _ => none

def isUsage (s : Store) (v : Value) : Bool := (s.usageItem? v).isSome

/-- Annotations, at least one. -/
def hasAnnotations (s : Store) (annotations : Value) : Bool := !(s.items annotations).isEmpty

theorem textItem?_toValue (s : Store) (k : Kind) (i : TextItem) :
    s.textItem? k (i.toValue k) = some i := by
  simp [textItem?, TextItem.toValue, head]

end Store

/-- The texts of the text items, one after the other; mirrors `concat_text`. -/
def concatText (s : Store) (items : List Value) : String :=
  String.join (items.filterMap fun v => (s.textItem? .text v).map (·.text))

/-- The texts that are not empty, on lines of their own. -/
def joinLines (texts : List String) : String :=
  "\n".intercalate (texts.filter (· ≠ ""))

theorem concatText_append (s : Store) (xs ys : List Value) :
    concatText s (xs ++ ys) = concatText s xs ++ concatText s ys := by
  simp [concatText]

end Reassembly
