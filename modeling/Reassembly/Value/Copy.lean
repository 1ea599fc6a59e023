import Reassembly.Value.Store

/-!
# Full copies

A full copy of a value has cells of its own: each cell that the value leads to is copied once, and
the copies refer to each other as the copied cells do. So what is one object in several places of
the value is one object in these places of the copy, and never the old one. Every value has one: an
object that refuses to be copied, such as a lock, is not a value here.

* `Store.reached`: the cells that some cells lead to, each once.
* `Store.copy`: the copy of a value.
* `extends_copy`: copying changes no cell.
* `le_of_mem_refs_copy`: the copy refers to new cells only.
-/
namespace Reassembly

namespace Store

/-- The cells that the pending ones lead to, as far as they have not been seen yet. -/
def reached (s : Store) (unseen : List Nat) : List Nat → List Nat
  | [] => []
  | ref :: pending =>
    if ref ∈ unseen then
      ref :: s.reached (unseen.erase ref) ((s.cell ref).refs ++ pending)
    else s.reached unseen pending
termination_by pending => (unseen.length, pending.length)
decreasing_by
  · rename_i h
    have shorter := List.length_erase_of_mem h
    have positive := List.length_pos_of_mem h
    exact Prod.Lex.left _ _ (by omega)
  · exact Prod.Lex.right _ (Nat.lt_succ_self _)

/-- The cells that a value leads to. -/
def reachedBy (s : Store) (v : Value) : List Nat := s.reached (List.range s.size) v.refs

/-- Where the copy of a cell goes, when these cells are copied. -/
def newPlace (s : Store) (old : List Nat) (ref : Nat) : Value := .shared (s.size + old.idxOf ref)

/-- Mirrors `deepcopy`. -/
def copy (s : Store) (v : Value) : Store × Value :=
  let old := s.reachedBy v
  (⟨s.cells ++ old.map fun ref => (s.cell ref).bind (s.newPlace old)⟩, v.bind (s.newPlace old))

theorem extends_copy (s : Store) (v : Value) : s.Extends (s.copy v).1 := List.prefix_append _ _

end Store

namespace Value

mutual
theorem le_of_mem_refs_bind {n : Nat} {f : Nat → Value} (hf : ∀ r, ∀ x ∈ (f r).refs, n ≤ x) :
    (v : Value) → ∀ x ∈ (v.bind f).refs, n ≤ x
  | .list items => by simpa [bind, refs] using le_of_mem_refsAll_bindAll hf items
  | .tuple items => by simpa [bind, refs] using le_of_mem_refsAll_bindAll hf items
  | .map entries => by simpa [bind, refs] using le_of_mem_refsEntries_bindEntries hf entries
  | .object _ fields => by simpa [bind, refs] using le_of_mem_refsAll_bindAll hf fields
  | .shared ref => hf ref
  | .null | .bool _ | .int _ | .float _ _ | .text _ | .encoded _ | .time _ => by simp [bind, refs]

theorem le_of_mem_refsAll_bindAll {n : Nat} {f : Nat → Value}
    (hf : ∀ r, ∀ x ∈ (f r).refs, n ≤ x) :
    (vs : List Value) → ∀ x ∈ refsAll (bindAll f vs), n ≤ x
  | [] => by simp [bindAll, refsAll]
  | v :: vs => by
    intro x hx
    rcases List.mem_append.1 hx with h | h
    · exact le_of_mem_refs_bind hf v x h
    · exact le_of_mem_refsAll_bindAll hf vs x h

theorem le_of_mem_refsEntries_bindEntries {n : Nat} {f : Nat → Value}
    (hf : ∀ r, ∀ x ∈ (f r).refs, n ≤ x) :
    (es : List (Key × Value)) → ∀ x ∈ refsEntries (bindEntries f es), n ≤ x
  | [] => by simp [bindEntries, refsEntries]
  | (_, v) :: es => by
    intro x hx
    rcases List.mem_append.1 hx with h | h
    · exact le_of_mem_refs_bind hf v x h
    · exact le_of_mem_refsEntries_bindEntries hf es x h
end

end Value

/-- A full copy refers to no cell that was there before. -/
theorem Store.le_of_mem_refs_copy (s : Store) (v : Value) :
    ∀ x ∈ (s.copy v).2.refs, s.size ≤ x :=
  Value.le_of_mem_refs_bind
    (fun r x hx => by
      simp only [newPlace, Value.refs, List.mem_singleton] at hx
      omega) v

end Reassembly
