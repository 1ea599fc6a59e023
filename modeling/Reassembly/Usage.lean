import Reassembly.Value.Number
import Reassembly.Value.Member

/-!
# Token counters

Each of three counters is known or null; further counters are kept by name, in the order in which
they came up. Adding sums what is known on either side. A counter is a whole number, unless somebody
assigned something else: then it is summed as far as values of its kind have a sum.

* `Store.knownSum`, `Store.addCounts`, `Usage.add`: the sum.
* `knownSum_int`, `knownSum_null_int`, `knownSum_int_null`: the sum of whole numbers, known or not.
* `Store.addUsage`: the sum in place, on an object of a store.
* `usage_toValue`: a value made from counters reads as these counters.
-/
namespace Reassembly

/-- Counters. The named ones are a map, or null if there are none. -/
structure Usage where
  input : Value
  output : Value
  total : Value
  counts : Value
deriving DecidableEq, Repr

namespace Store

/-- The value, or zero if it counts as no. -/
def orZero (s : Store) (v : Value) : Value := if s.isTrue v then v else .int 0

/-- The sum of the known numbers, null if neither is known; mirrors `_nullable_sum`. -/
def knownSum (s : Store) (a b : Value) : Value :=
  if a = .null ∧ b = .null then .null else s.plus (s.orZero a) (s.orZero b)

/-- A count that has grown by another one. A list of the store takes the new items in and stays the
same list; see `growLists`. -/
def grown (s : Store) (old new : Value) : Value :=
  match old, s.head old with
  | .shared ref, .list _ => .shared ref
  | _, _ => s.plus old new

/-- Adds one count; a count that is not there yet goes to the end. -/
def addCount (s : Store) (es : Entries Value) (f : Key × Value) : Entries Value :=
  es.put f.1 (((es.get? f.1).map (s.grown · f.2)).getD f.2)

/-- Adds the counts of `fs` one by one. -/
def addCounts (s : Store) (es fs : Entries Value) : Entries Value := fs.foldl s.addCount es

/-- The sum of two maps of counts, either of which may be missing. -/
def addNamed (s : Store) (a b : Value) : Value :=
  if b = .null then a
  else if a = .null then .map (s.mapping b)
  else
    match s.entries? a, s.entries? b with
    | some es, some fs => .map (s.addCounts es fs)
    | _, _ => a

theorem knownSum_int (s : Store) (m n : Int) :
    s.knownSum (.int m) (.int n) = .int (m + n) := by
  by_cases hm : m = 0 <;> by_cases hn : n = 0 <;>
    simp [knownSum, orZero, isTrue, head, plus, Value.plus_int, hm, hn]

theorem knownSum_null_int (s : Store) (n : Int) : s.knownSum .null (.int n) = .int n := by
  by_cases hn : n = 0 <;> simp [knownSum, orZero, isTrue, head, plus, Value.plus_int, hn]

theorem knownSum_int_null (s : Store) (m : Int) : s.knownSum (.int m) .null = .int m := by
  by_cases hm : m = 0 <;> simp [knownSum, orZero, isTrue, head, plus, Value.plus_int, hm]

theorem knownSum_null_null (s : Store) : s.knownSum .null .null = .null := rfl

end Store

namespace Usage

/-- Nothing is known. -/
def unknown : Usage := ⟨.null, .null, .null, .null⟩

def add (s : Store) (a b : Usage) : Usage where
  input := s.knownSum a.input b.input
  output := s.knownSum a.output b.output
  total := s.knownSum a.total b.total
  counts := s.addNamed a.counts b.counts

def toValue (u : Usage) : Value := .object .details [u.input, u.output, u.total, u.counts]

/-- The known counters as `name = number`, separated by commas. -/
def text (s : Store) (u : Usage) : String := (s.expand u.toValue).written

end Usage

/-! ## Counters in a store -/

namespace Store

/-- The counters that a value holds. An accumulator holds what has been noted on it. -/
def usage (s : Store) (v : Value) : Usage :=
  match s.head v with
  | .object .details [input, output, total, counts] => { input, output, total, counts }
  | .object .accumulator _ =>
    { input := s.member v "input_token_count"
      output := s.member v "output_token_count"
      total := s.member v "total_token_count"
      counts := s.member v "additional_counts" }
  | _ => .unknown

/-- Writes counters into an object. A map of named counts that is there is changed in place;
otherwise a new one is made. -/
def setUsage (s : Store) (target : Value) (u : Usage) : Store :=
  let old := (s.usage target).counts
  let inPlace := (s.entries? old).isSome
  let (s, fields) :=
    s.internAll [u.input, u.output, u.total, if inPlace then old else u.counts]
  let s := s.write target (.object .details fields)
  match inPlace, u.counts with
  | true, .map es =>
    let (s, es) := s.internEntries es
    s.write old (.map es)
  | _, _ => s

/-- Lets one count of a map take in the items for it, if it is a list of the store. -/
def growList (s : Store) (counts : Entries Value) (e : Key × Value) : Store :=
  match counts.get? e.1 with
  | some old =>
    match s.head old with
    | .list items => s.write old (.list (items ++ s.elements e.2))
    | _ => s
  | none => s

/-- Lets the counts that are lists take in the items for them. Numbers do not change in place. -/
def growLists (s : Store) (a b : Value) : Store :=
  match s.entries? a, s.entries? b with
  | some es, some fs => fs.foldl (fun s f => s.growList es f) s
  | _, _ => s

/-- Adds the counters of `other` to those of `target`; mirrors `UsageDetails.add`. -/
def addUsage (s : Store) (target other : Value) : Store :=
  let a := s.usage target
  let b := s.usage other
  (s.growLists a.counts b.counts).setUsage target (a.add s b)

theorem usage_toValue (s : Store) (u : Usage) : s.usage u.toValue = u := rfl

end Store

end Reassembly
