/-!
# Ordered maps

A map is the list of its entries in the order in which their keys came in. Writing to a key that is
there keeps its position; a new key goes to the end.

* `keys_put_of_mem`, `keys_put_of_not_mem`: what `put` does to the keys.
* `get?_put_self`, `get?_put_of_ne`: what it does to the values.
* `keys_prefix_merge`: merging entries in never moves or drops a key.
-/
namespace Reassembly

/-- A key of a map: a text, or, in a map that no rule has checked, a number. -/
inductive Key where
  | text (s : String)
  | number (n : Int)
deriving DecidableEq, Repr, Inhabited

/-- The key as it is written in a path. -/
def Key.name : Key → String
  | .text s => s
  | .number n => toString n

def Key.isText : Key → Bool
  | .text _ => true
  | .number _ => false

abbrev Entries (α : Type) := List (Key × α)

namespace Entries

variable {α : Type}

def keys (es : Entries α) : List Key := es.map (·.1)

def get? (k : Key) : Entries α → Option α
  | [] => none
  | (l, v) :: es => if l = k then some v else get? k es

def put (k : Key) (v : α) : Entries α → Entries α
  | [] => [(k, v)]
  | (l, w) :: es => if l = k then (l, v) :: es else (l, w) :: put k v es

/-- Writes the entries of `fs`, in their order, over those of `es`. -/
def merge (es fs : Entries α) : Entries α := fs.foldl (fun acc e => acc.put e.1 e.2) es

/-- The map of a list of entries: a repeated key keeps its first position and its last value. -/
def ofList (fs : List (Key × α)) : Entries α := merge [] fs

/-! ## What the operations do to keys and values -/

theorem keys_put_of_mem {k : Key} {es : Entries α} (v : α) (h : k ∈ keys es) :
    keys (put k v es) = keys es := by
  induction es with
  | nil => simp [keys] at h
  | cons e es ih =>
    obtain ⟨l, w⟩ := e
    by_cases hl : l = k
    · simp [put, hl, keys]
    · have hm : k ∈ keys es := by
        simp only [keys, List.map_cons, List.mem_cons] at h ⊢
        exact h.resolve_left (Ne.symm hl)
      have ih := ih hm
      simp only [keys] at ih
      simp [put, hl, keys, ih]

theorem keys_put_of_not_mem {k : Key} {es : Entries α} (v : α) (h : k ∉ keys es) :
    keys (put k v es) = keys es ++ [k] := by
  induction es with
  | nil => rfl
  | cons e es ih =>
    obtain ⟨l, w⟩ := e
    simp only [keys, List.map_cons, List.mem_cons, not_or] at h
    have ih := ih h.2
    simp only [keys] at ih
    simp [put, Ne.symm h.1, keys, ih]

theorem get?_put_self (k : Key) (v : α) (es : Entries α) : get? k (put k v es) = some v := by
  induction es with
  | nil => simp [put, get?]
  | cons e es ih => by_cases h : e.1 = k <;> simp [put, get?, h, ih]

theorem get?_put_of_ne {k l : Key} (v : α) (es : Entries α) (h : l ≠ k) :
    get? l (put k v es) = get? l es := by
  induction es with
  | nil => simp [put, get?, Ne.symm h]
  | cons e es ih =>
    by_cases hk : e.1 = k
    · simp [put, get?, hk, Ne.symm h]
    · simp [put, get?, hk, ih]

theorem keys_prefix_put (k : Key) (v : α) (es : Entries α) : keys es <+: keys (put k v es) := by
  by_cases h : k ∈ keys es
  · exact ⟨[], by simp [keys_put_of_mem v h]⟩
  · exact ⟨[k], (keys_put_of_not_mem v h).symm⟩

theorem keys_prefix_merge (es fs : Entries α) : keys es <+: keys (merge es fs) := by
  induction fs generalizing es with
  | nil => exact List.prefix_refl _
  | cons f fs ih => exact (keys_prefix_put f.1 f.2 es).trans (ih (put f.1 f.2 es))

end Entries

end Reassembly
