import Reassembly.Value.Member
import Reassembly.Validation.Check
import Reassembly.Failure

/-!
# Paths into a store

A path leads from a value through the fields of objects, the places of lists and the keys of maps.
Where it leads nowhere there is null.

* `Store.follow`, `Store.assign`: reading and writing at the last step of a path.
* `assign_frozen`: labels do not change.
* `extendList_of_not_list`: only lists grow.
* `cell_assignElement_of_ne`: writing into a list or map changes its cell only.
-/
namespace Reassembly

/-- The position that a number names in a list of the given length; negative numbers count from the
end. -/
def position? (length : Nat) (n : Int) : Option Nat :=
  if 0 ≤ n then (if n.toNat < length then some n.toNat else none)
  else if n.natAbs ≤ length then some (length - n.natAbs) else none

namespace Store

/-- What lies one step behind a value. -/
def follow (s : Store) (v : Value) (step : Key) : Value :=
  match s.head v, step with
  | .list items, .number n => ((position? items.length n).bind (items[·]?)).getD .null
  | .tuple items, .number n => ((position? items.length n).bind (items[·]?)).getD .null
  | .map entries, key => (Entries.get? key entries).getD .null
  | _, .text name => s.member v name
  | _, _ => .null

def followAll (s : Store) (v : Value) (path : List Key) : Value := path.foldl s.follow v

/-- Writes a value into a place of a list or to a key of a map. -/
def assignElement (s : Store) (target : Value) (step : Key) (v : Value) : Store :=
  match s.head target, step with
  | .list items, .number n =>
    match position? items.length n with
    | some i => s.write target (.list (items.set i v))
    | none => s
  | .map entries, key => s.write target (.map (Entries.put key v entries))
  | _, _ => s

/-- Notes a value on an accumulator, under a name that is not the name of a field. -/
def noteOn (s : Store) (target : Value) (fields : List Value) (name : String) (v : Value) : Store :=
  let notes := ((fields[notesPlace]?).bind s.entries?).getD []
  let (s, v) := s.intern v
  s.write target
    (.object .accumulator (fields.take notesPlace ++ [.map (notes.put (.text name) v)]))

/-- What an assignment to a name that is not the name of a field comes to. Accumulators take a note
of it, other objects refuse it, unless the name is marked as internal: then it goes unseen. -/
def assignUndeclared (s : Store) (target : Value) (kind : Kind) (fields : List Value)
    (name : String) (v : Value) : Except Failure Store :=
  if kind = .accumulator then .ok (s.noteOn target fields name v)
  else if name.startsWith "_" then .ok s
  else if kind.isFrozen then .error (.invalid [⟨[name], .frozen⟩])
  else if kind.checksAssignment then .error (.invalid [⟨[name], .noSuchField⟩])
  else .error (.noField kind.className name)

/-- Writes a value to a field of an object, checked if the kind checks assignments. -/
def assignField (s : Store) (target : Value) (kind : Kind) (fields : List Value) (name : String)
    (v : Value) : Except Failure Store :=
  match kind.place? name with
  | none => s.assignUndeclared target kind fields name v
  | some i =>
    if kind.isFrozen then .error (.invalid [⟨[name], .frozen⟩])
    else
      match kind.fields[i]? with
      | none => .ok s
      | some f =>
        match if kind.checksAssignment then checkField s f v else .ok v with
        | .error ps => .error (.invalid ps)
        | .ok v =>
          let (s, v) := s.intern v
          .ok (s.write target (.object kind (fields.set i v)))

/-- Writes a value one step behind another one. -/
def assign (s : Store) (target : Value) (step : Key) (v : Value) : Except Failure Store :=
  match s.head target, step with
  | .object kind fields, .text name => s.assignField target kind fields name v
  | _, step =>
    let (s, v) := s.intern v
    .ok (s.assignElement target step v)

/-- Puts values at the end of a list. What is no list stays as it is. -/
def extendList (s : Store) (list : Value) (values : List Value) : Store :=
  match s.head list with
  | .list items =>
    let (s, values) := s.internAll values
    s.write list (.list (items ++ values))
  | _ => s

theorem assign_frozen (s : Store) {target : Value} {kind : Kind} {fields : List Value}
    {name : String} (v : Value) {i : Nat} (hk : kind.isFrozen = true)
    (ht : s.head target = .object kind fields) (hi : kind.place? name = some i) :
    s.assign target (.text name) v = .error (.invalid [⟨[name], .frozen⟩]) := by
  simp [assign, ht, assignField, hk, hi]

theorem extendList_of_not_list (s : Store) {list : Value} (values : List Value)
    (h : ∀ items, s.head list ≠ .list items) : s.extendList list values = s := by
  unfold extendList
  split
  · rename_i items e
    exact absurd e (h items)
  · rfl

theorem cell_assignElement_of_ne (s : Store) {target : Value} (step : Key) (v : Value) {ref : Nat}
    (h : target ≠ .shared ref) : (s.assignElement target step v).cell ref = s.cell ref := by
  unfold assignElement
  split
  · split
    · exact s.cell_write_of_ne h
    · rfl
  · exact s.cell_write_of_ne h
  · rfl

end Store

end Reassembly
