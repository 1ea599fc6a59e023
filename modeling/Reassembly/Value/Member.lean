import Reassembly.Value.Written

/-!
# What an object is asked for by name

An object knows its fields, labels also know the labels of their kind that have names, timestamps
the parts of date and time, and whatever holds content items its text. Somebody may also have noted
values of their own on an accumulator.

* `Kind.place?`: where a field stands.
* `Store.member`: the value of a name, null if the object does not know it.
* `member_of_place`: a field is found at its place.
-/
namespace Reassembly

/-- Where the field of a name stands. The response in an accumulator is not meant for others, which
its name shows. -/
def Kind.place? (k : Kind) (name : String) : Option Nat :=
  match k with
  | .accumulator => ["coalesce", "update_count", "_response"].idxOf? name
  | k => k.position? name

/-- Where the notes on an accumulator stand. -/
def notesPlace : Nat := 3

namespace Store

/-- The value that somebody has noted on an object under a name. -/
def note? (s : Store) (fields : List Value) (name : String) : Option Value :=
  (fields[notesPlace]?).bind fun notes => (s.entries? notes).bind (Entries.get? (.text name))

/-- What an object knows by a name that is not the name of a field. -/
def derived? (s : Store) (v : Value) (kind : Kind) (fields : List Value) (name : String) :
    Option Value :=
  if kind = .accumulator then s.note? fields name
  else if name = "text" then ((s.expand v).textOf?).map .text
  else wellKnown? kind name

def member (s : Store) (v : Value) (name : String) : Value :=
  match s.head v with
  | .time t => ((t.part? name).map fun n => .int n).getD .null
  | .object kind fields =>
    (match kind.place? name with
      | some i => fields[i]?
      | none => s.derived? v kind fields name).getD .null
  | _ => .null

theorem member_of_place (s : Store) {v : Value} {kind : Kind} {fields : List Value}
    {name : String} {i : Nat} (hv : s.head v = .object kind fields)
    (hi : kind.place? name = some i) : s.member v name = (fields[i]?).getD .null := by
  simp [member, hv, hi]

end Store

end Reassembly
