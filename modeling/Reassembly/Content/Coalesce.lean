import Reassembly.Content.Basic
import Reassembly.Validation.Check
import Reassembly.Value.Copy

/-!
# Coalescing

Adjacent text items become one, and so do adjacent reasoning items, each kind on its own. Annotated
items never merge, since annotations count characters of their text. A merged item has the joined
text and a full copy of the first item's properties, and nothing else of its parts.

There is one pass for each kind. It walks over the places of the list. Where two neighbours merge it
empties the run that begins there: the merged item goes into the first place and holes stay in the
others; a hole is null. The holes go when both passes are done. Properties that an item may not have
stop the pass at their run, which then has its holes already.

* `emptyRun`, `mergeFrom`, `mergePass`: one pass.
* `coalesce`: both passes.
* `coalesce_of_short`: a list of fewer than two items stays as it is.
* `Store.coalesceList`: coalesces a list of a store in place.
-/
namespace Reassembly

/-- The item may merge with others of the kind; mirrors `_is_coalescable`. -/
def mergeable (s : Store) (k : Kind) (v : Value) : Bool :=
  match s.textItem? k v with
  | some item => !s.hasAnnotations item.annotations
  | none => false

/-- The text of an item of the kind. -/
def itemText (s : Store) (k : Kind) (v : Value) : String :=
  ((s.textItem? k v).map (·.text)).getD ""

/-- The properties of an item of the kind. -/
def itemProperties (s : Store) (k : Kind) (v : Value) : Value :=
  ((s.textItem? k v).map (·.properties)).getD .null

/-- The one item that stands for a run. It is written out, and its properties are those of the first
item: whoever puts it into a store makes a copy. -/
def mergedItem (s : Store) (k : Kind) (first : Value) (others : List Value) : Value :=
  TextItem.toValue k
    { annotations := .null
      raw := .null
      properties := itemProperties s k first
      text := String.join (itemText s k first :: others.map (itemText s k)) }

/-- What is wrong with the item that would stand for a run. -/
def runProblems (s : Store) (k : Kind) (first : Value) : List Problem :=
  match checkField s propertiesField (itemProperties s k first) with
  | .ok _ => []
  | .error problems => problems

/-- A run that has been emptied: the places with its holes, the items that were taken out, and the
place where it ends. -/
structure Emptied where
  places : List Value
  others : List Value
  stop : Nat

/-- Takes out the items that merge from place `i` on; mirrors the inner loop of `_coalesce_kind`. -/
def emptyRun (s : Store) (k : Kind) (places others : List Value) (i : Nat) : Emptied :=
  if h : i < places.length then
    if mergeable s k places[i] then
      emptyRun s k (places.set i .null) (others ++ [places[i]]) (i + 1)
    else ⟨places, others, i⟩
  else ⟨places, others, i⟩
termination_by places.length - i
decreasing_by
  rw [List.length_set]
  omega

theorem length_emptyRun (s : Store) (k : Kind) (places others : List Value) (i : Nat) :
    (emptyRun s k places others i).places.length = places.length := by
  fun_induction emptyRun s k places others i with
  | case1 places others i h _ ih => rw [ih, List.length_set]
  | case2 => rfl
  | case3 => rfl

theorem le_stop_emptyRun (s : Store) (k : Kind) (places others : List Value) (i : Nat) :
    i ≤ (emptyRun s k places others i).stop := by
  fun_induction emptyRun s k places others i with
  | case1 places others i _ _ ih => omega
  | case2 => exact Nat.le_refl _
  | case3 => exact Nat.le_refl _

/-- Merges the runs from place `start` on; mirrors the outer loop of `_coalesce_kind`. -/
def mergeFrom (s : Store) (k : Kind) (places : List Value) (start : Nat) : Attempt (List Value) :=
  if h : start + 1 < places.length then
    if !mergeable s k places[start] then mergeFrom s k places (start + 1)
    -- an item that does not merge begins no run, so its place is passed over
    else if !mergeable s k places[start + 1] then mergeFrom s k places (start + 2)
    else
      let first := places[start]
      let run := emptyRun s k places [] (start + 1)
      match runProblems s k first with
      | [] => mergeFrom s k (run.places.set start (mergedItem s k first run.others)) run.stop
      | problems => ⟨run.places, problems⟩
  else .done places
termination_by places.length - start
decreasing_by
  · omega
  · omega
  · rw [List.length_set, length_emptyRun]
    have := le_stop_emptyRun s k places [] (start + 1)
    omega

/-- One pass over a list with holes. -/
def mergePass (s : Store) (k : Kind) (places : List Value) : Attempt (List Value) :=
  mergeFrom s k places 0

/-- The list without its holes. -/
def withoutHoles (places : List Value) : List Value := places.filter (· ≠ .null)

/-- Merges the runs of text items and those of reasoning items; mirrors `coalesce_contents`. -/
def coalesce (s : Store) (items : List Value) : Attempt (List Value) :=
  if items.length < 2 then .done items
  else
    ((mergePass s .text items).andThen (mergePass s .reasoning)).andThen fun places =>
      .done (withoutHoles places)

theorem coalesce_of_short (s : Store) {items : List Value} (h : items.length < 2) :
    coalesce s items = .done items := if_pos h

/-! ## In a store -/

namespace Store

/-- Puts an item into the store. An item that is there stays the same; a merged item is new, and so
is everything in it. -/
def settle (s : Store) : Value → Store × Value
  | .shared ref => (s, .shared ref)
  | v =>
    let (s, v) := s.copy v
    s.intern v

def settleAll (s : Store) : List Value → Store × List Value
  | [] => (s, [])
  | v :: vs =>
    let (s, v) := s.settle v
    let (s, vs) := s.settleAll vs
    (s, v :: vs)

theorem extends_settle (s : Store) (v : Value) : s.Extends (s.settle v).1 := by
  cases v <;>
    first
    | exact Extends.refl s
    | exact (s.extends_copy _).trans (extends_intern _ _)

theorem extends_settleAll (s : Store) (vs : List Value) : s.Extends (s.settleAll vs).1 := by
  induction vs generalizing s with
  | nil => exact Extends.refl s
  | cons v vs ih => exact (s.extends_settle v).trans (ih _)

/-- Coalesces a list of the store in place, as far as there are no problems. What is no list stays
as it is. -/
def coalesceList (s : Store) (list : Value) : Attempt Store :=
  match s.head list with
  | .list items =>
    (coalesce s items).map fun items =>
      let (s, items) := s.settleAll items
      s.write list (.list items)
  | _ => .done s

end Store

end Reassembly
