import Reassembly.Value.Basic

/-!
# The store of shared values

A store is a list of cells. A cell holds one list, map, object or timestamp whose parts are plain
data or references to other cells, so that a change to a cell is seen by everyone who refers to it.
The first cells hold the labels that have names, one of them the role of all messages that are not
given one.

* `intern`: puts a value into the store, a cell for each part of it that can be shared.
* `head`: the outermost layer of a value, looked up if the value is shared.
* `expand`: the whole value with all references followed, as it is at this moment.
* `cell_write_of_ne`, `extends_intern`: writing changes one cell, interning none.
-/
namespace Reassembly

structure Store where
  cells : List Value
deriving Inhabited

/-- A role or finish reason with a name of its own. -/
structure WellKnownLabel where
  kind : Kind
  name : String
  text : String

def wellKnownLabels : List WellKnownLabel :=
  [⟨.role, "SYSTEM", "system"⟩, ⟨.role, "ASSISTANT", "assistant"⟩, ⟨.role, "USER", "user"⟩,
    ⟨.role, "TOOL", "tool"⟩, ⟨.finish, "STOP", "stop"⟩, ⟨.finish, "LENGTH", "length"⟩,
    ⟨.finish, "TOOL_CALLS", "tool_calls"⟩, ⟨.finish, "CONTENT_FILTER", "content_filter"⟩]

namespace Store

/-- The store that holds the labels with names of their own and nothing else. -/
def empty : Store := ⟨wellKnownLabels.map fun l => .object l.kind [.text l.text]⟩

/-- The label of the given name. -/
def wellKnown? (k : Kind) (name : String) : Option Value :=
  (wellKnownLabels.findIdx? fun l => l.kind == k && l.name == name).map .shared

/-- The role that every message without a role of its own refers to. -/
def userRole : Value := .shared 2

def size (s : Store) : Nat := s.cells.length

def cell (s : Store) (ref : Nat) : Value := (s.cells[ref]?).getD .null

/-- The outermost layer of a value. -/
def head (s : Store) : Value → Value
  | .shared ref => s.cell ref
  | v => v

/-- Adds a cell. -/
def push (s : Store) (v : Value) : Store × Value := (⟨s.cells ++ [v]⟩, .shared s.size)

/-- Replaces the cell that `target` refers to. -/
def write (s : Store) (target content : Value) : Store :=
  match target with
  | .shared ref => ⟨s.cells.set ref content⟩
  | _ => s

/-! ## Interning -/

mutual
/-- Puts a value into the store and refers to it. The response in progress inside an accumulator
is not shared and stays written out. -/
def intern (s : Store) : Value → Store × Value
  | .list items =>
    let (s, items) := internAll s items
    s.push (.list items)
  | .map entries =>
    let (s, entries) := internEntries s entries
    s.push (.map entries)
  | .tuple items =>
    let (s, items) := internAll s items
    s.push (.tuple items)
  | .object kind fields =>
    let (s, fields) := if kind = .accumulator then internFirst s fields else internAll s fields
    s.push (.object kind fields)
  | .shared ref => (s, .shared ref)
  | .null => (s, .null)
  | .bool b => (s, .bool b)
  | .int n => (s, .int n)
  | .float m e => (s, .float m e)
  | .text t => (s, .text t)
  | .encoded t => (s, .encoded t)
  | .time t => s.push (.time t)

def internFirst (s : Store) : List Value → Store × List Value
  | [] => (s, [])
  | v :: vs =>
    let (s, v) := s.intern v
    (s, v :: vs)

def internAll (s : Store) : List Value → Store × List Value
  | [] => (s, [])
  | v :: vs =>
    let (s, v) := s.intern v
    let (s, vs) := internAll s vs
    (s, v :: vs)

def internEntries (s : Store) : List (Key × Value) → Store × List (Key × Value)
  | [] => (s, [])
  | (k, v) :: es =>
    let (s, v) := s.intern v
    let (s, es) := internEntries s es
    (s, (k, v) :: es)
end

/-! ## Reading -/

/-- Follows references up to `depth` deep. -/
def expandTo (s : Store) : Nat → Value → Value
  | 0, v => v.bind fun _ => .null
  | depth + 1, v => v.bind fun ref => s.expandTo depth (s.cell ref)

/-- The value with all its references followed. A chain of references that does not come back to
itself visits each cell at most once, so the number of cells bounds its length. -/
def expand (s : Store) (v : Value) : Value := s.expandTo s.size v

/-- The elements, if the value is a list. -/
def items (s : Store) (v : Value) : List Value :=
  match s.head v with
  | .list items => items
  | _ => []

/-- The entries, if the value is a map. -/
def entries? (s : Store) (v : Value) : Option (Entries Value) :=
  match s.head v with
  | .map entries => some entries
  | _ => none

/-- The kind, if the value is an object. -/
def kind? (s : Store) (v : Value) : Option Kind :=
  match s.head v with
  | .object kind _ => some kind
  | _ => none

/-! ## Frame -/

/-- All cells of `s` are cells of `t`, with the same content. -/
def Extends (s t : Store) : Prop := s.cells <+: t.cells

theorem Extends.refl (s : Store) : s.Extends s := List.prefix_refl _

theorem Extends.trans {s t u : Store} (h : s.Extends t) (k : t.Extends u) : s.Extends u :=
  List.IsPrefix.trans h k

theorem extends_push (s : Store) (v : Value) : s.Extends (s.push v).1 := List.prefix_append _ _

theorem Extends.cell {s t : Store} (h : s.Extends t) {ref : Nat} (hr : ref < s.size) :
    t.cell ref = s.cell ref := by
  obtain ⟨more, hm⟩ := h
  have hr : ref < s.cells.length := hr
  simp [Store.cell, ← hm, List.getElem?_append_left hr]

/-- What is there has a cell. -/
theorem lt_size_of_cell {s : Store} {ref : Nat} {v : Value} (h : s.cell ref = v) (hv : v ≠ .null) :
    ref < s.size := by
  refine Nat.lt_of_not_le fun hge => hv ?_
  rw [← h, cell, List.getElem?_eq_none hge]
  rfl

mutual
theorem extends_intern (s : Store) : (v : Value) → s.Extends (s.intern v).1
  | .list items => by
    simp only [intern]; exact (extends_internAll s items).trans (extends_push _ _)
  | .tuple items => by
    simp only [intern]; exact (extends_internAll s items).trans (extends_push _ _)
  | .map entries => by
    simp only [intern]; exact (extends_internEntries s entries).trans (extends_push _ _)
  | .object kind fields => by
    simp only [intern]
    split
    · exact (extends_internFirst s fields).trans (extends_push _ _)
    · exact (extends_internAll s fields).trans (extends_push _ _)
  | .time _ => extends_push _ _
  | .shared _ | .null | .bool _ | .int _ | .float _ _ | .text _ | .encoded _ => Extends.refl s

theorem extends_internFirst (s : Store) : (vs : List Value) → s.Extends (s.internFirst vs).1
  | [] => Extends.refl s
  | v :: _ => extends_intern s v

theorem extends_internAll (s : Store) : (vs : List Value) → s.Extends (s.internAll vs).1
  | [] => Extends.refl s
  | v :: vs => by
    simp only [internAll]
    exact (extends_intern s v).trans (extends_internAll _ vs)

theorem extends_internEntries (s : Store) :
    (es : List (Key × Value)) → s.Extends (s.internEntries es).1
  | [] => Extends.refl s
  | (_, v) :: es => by
    simp only [internEntries]
    exact (extends_intern s v).trans (extends_internEntries _ es)
end

theorem size_write (s : Store) (target content : Value) :
    (s.write target content).size = s.size := by
  cases target <;> simp [write, size]

theorem cell_write_of_ne (s : Store) {target content : Value} {ref : Nat}
    (h : target ≠ .shared ref) : (s.write target content).cell ref = s.cell ref := by
  cases target with
  | shared r =>
    have hr : r ≠ ref := fun e => h (by rw [e])
    simp [write, cell, List.getElem?_set_ne hr]
  | _ => rfl

/-- Writing to a cell leaves those alone that hold something else. -/
theorem cell_write_of_other {s : Store} {r ref : Nat} {v w later : Value} (hr : s.cell r = v)
    (href : s.cell ref = w) (h : w ≠ v) : (s.write (.shared r) later).cell ref = w := by
  rw [s.cell_write_of_ne, href]
  rintro ⟨rfl⟩
  exact h (href.symm.trans hr)

theorem cell_write_self (s : Store) {content : Value} {ref : Nat} (h : ref < s.size) :
    (s.write (.shared ref) content).cell ref = content := by
  have h : ref < s.cells.length := h
  simp [write, cell, h]

end Store

end Reassembly
