import Reassembly.Response.Fold

/-!
# Accumulators

An accumulator holds a response in progress and counts the updates that went into it. Finalizing
hands the response over and leaves the accumulator as it was when it was new. If the response cannot
be coalesced, the accumulator keeps it, coalesced as far as that went.

* `Accumulator.feed`, `Accumulator.finished`, `Accumulator.renewed`: the steps.
* `accumulator_toValue`: a value made from an accumulator reads as that accumulator.
* `Store.feed`, `Store.finalize`: the steps on an accumulator of a store.
* `Store.outline`: a value whose accumulators have settings that are not looked up yet.
* `cell_finalize_of_ne`: finalizing writes to the accumulator and adds cells, no more.
-/
namespace Reassembly

/-- An accumulator. Any value may say whether to coalesce. The attributes are what somebody else has
noted on it. -/
structure Accumulator where
  coalesce : Value
  updates : Int
  response : Response
  attributes : Value := .null
deriving DecidableEq, Repr

namespace Accumulator

def new (coalesce : Value) : Accumulator := { coalesce, updates := 0, response := .empty }

def feed (s : Store) (a : Accumulator) (u : Update) : Accumulator :=
  { a with updates := a.updates + 1, response := a.response.feed s u }

/-- The response to hand over. -/
def finished (s : Store) (a : Accumulator) : Attempt Response :=
  a.response.coalesced s (s.isTrue a.coalesce)

/-- What finalizing leaves. -/
def renewed (a : Accumulator) : Accumulator := { a with updates := 0, response := .empty }

/-- What is reported when the response is handed over. -/
def finishedLog (a : Accumulator) : LogLine := .finalized a.response.messages.length a.updates

def toValue (a : Accumulator) : Value :=
  .object .accumulator [a.coalesce, .int a.updates, a.response.toValue, a.attributes]

end Accumulator

namespace Store

def accumulator (s : Store) (v : Value) : Accumulator :=
  match s.head v with
  | .object .accumulator [coalesce, updates, response, attributes] =>
    { coalesce, updates := updates.int?.getD 0, response := s.response response, attributes }
  | _ => .new .null

theorem accumulator_toValue (s : Store) (a : Accumulator) : s.accumulator a.toValue = a := by
  obtain ⟨c, n, r, m⟩ := a
  simp only [accumulator, Accumulator.toValue, head, response_toValue]
  rfl

/-- Lets the counts that are lists take in what the usage items of a list bring for them, where
`total` is the sum so far. -/
def growItemLists (s : Store) (total : Value) : List Value → Store
  | [] => s
  | item :: items =>
    match s.usageItem? item with
    | none | some .null => s.growItemLists total items
    | some details =>
      (s.growLists (s.usage total).counts (s.usage details).counts).growItemLists
        (addItem s total item) items

/-- Feeds an update to an accumulator; mirrors `ResponseAccumulator.feed`. -/
def feed (s : Store) (accumulator update : Value) : Store :=
  let a := s.accumulator accumulator
  let u := s.update update
  (s.growItemLists a.response.usage u.contents).write accumulator (a.feed s u).toValue

/-- Takes the response out of an accumulator, if it can be finished; mirrors
`ResponseAccumulator.finalize`. -/
def finalize (s : Store) (accumulator : Value) : Store × Checked Value :=
  let a := s.accumulator accumulator
  let attempt := a.finished s
  let (s, response) := s.settleResponse attempt.result
  if attempt.isDone then
    let (s, response) := s.intern response.toValue
    (s.write accumulator a.renewed.toValue, .ok response)
  else (s.write accumulator { a with response }.toValue, .error attempt.problems)

/-- Numbers do not change in place. -/
theorem growList_of_number (s : Store) (counts : Entries Value) (e : Key × Value) {v : Value}
    {n : Int} (hv : counts.get? e.1 = some v) (hn : s.head v = .int n) :
    s.growList counts e = s := by
  simp [growList, hv, hn]

/-- Follows references up to `depth` deep, but not those to the settings of accumulators. -/
def outlineTo (s : Store) : Nat → Value → Value
  | 0, v => v.bind fun _ => .null
  | depth + 1, v =>
    v.bind fun ref =>
      match s.cell ref with
      | .object .accumulator (coalesce :: updates :: others) =>
        .object .accumulator (coalesce :: updates :: others.map (s.outlineTo depth))
      | v => s.outlineTo depth v

/-- The value as it is at this moment, but for the settings of accumulators: where these are
references, it is left to the reader when to follow them. -/
def outline (s : Store) (v : Value) : Value := s.outlineTo s.size v

theorem cell_finalize_of_ne (s : Store) {accumulator : Value} {ref : Nat}
    (h : accumulator ≠ .shared ref) (hr : ref < s.size) :
    (s.finalize accumulator).1.cell ref = s.cell ref := by
  have settled := s.extends_settleResponse ((s.accumulator accumulator).finished s).result
  simp only [finalize]
  split
  · rw [cell_write_of_ne _ h]
    exact (settled.trans (extends_intern _ _)).cell hr
  · rw [cell_write_of_ne _ h]
    exact settled.cell hr

end Store

end Reassembly
