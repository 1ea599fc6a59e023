import Mathlib.Algebra.BigOperators.Group.List.Basic
import Mathlib.Algebra.Ring.Int.Defs
import Reassembly.Proofs.Entrywise

/-!
# Maps summed up by key

Counts come in as entries, some of them for one key. Summed up they are a map: each key once, at the
place where it came up first, with the sum of its counts. Part of the entries may be summed up
before the rest; the order of the entries decides on nothing but the order of the keys.

* `amount`, `summed`: the sum for one key, and the map of the sums.
* `summed_append_singleton`: one count more.
* `summed_append_summed`, `summed_perm`: sums of sums, and of entries in another order.
* `summed_of_nodup`, `summed_twice`: a map is its own sum, and its double with itself.
-/
namespace Reassembly

namespace Entries

/-- The sum of the counts for a key. -/
def amount (es : Entries Int) (k : Key) : Int := (valuesOf es k).sum

/-- Each key once, at the place where it came up first, with the sum of its counts. -/
def summed (es : Entries Int) : Entries Int := (keys es).eraseDups.map fun k => (k, amount es k)

section
variable {es fs gs : Entries Int} {k : Key}

theorem amount_append (es fs : Entries Int) (k : Key) :
    amount (es ++ fs) k = amount es k + amount fs k := by
  simp [amount]

theorem amount_of_not_mem (h : k ∉ keys es) : amount es k = 0 := by
  rw [amount, valuesOf_of_not_mem h, List.sum_nil]

theorem amount_of_nodup (h : (keys es).Nodup) (k : Key) : amount es k = (es.get? k).getD 0 := by
  rw [amount, valuesOf_of_nodup h]
  cases es.get? k <;> simp

@[simp] theorem keys_summed (es : Entries Int) : keys (summed es) = (keys es).eraseDups := by
  simp [keys, summed, Function.comp_def]

theorem nodup_summed (es : Entries Int) : (keys (summed es)).Nodup := by
  rw [keys_summed]
  exact nodup_eraseDups _

theorem get?_summed (es : Entries Int) (k : Key) :
    (summed es).get? k = if k ∈ keys es then some (amount es k) else none := by
  rw [summed, get?_map_keys]
  simp only [List.mem_eraseDups]

theorem amount_summed (es : Entries Int) (k : Key) : amount (summed es) k = amount es k := by
  rw [amount_of_nodup (nodup_summed es), get?_summed]
  split
  · rfl
  · next h => rw [amount_of_not_mem h]; rfl

theorem summed_congr (hk : (keys es).eraseDups = (keys fs).eraseDups)
    (h : ∀ k, amount es k = amount fs k) : summed es = summed fs := by
  simp only [summed, hk, h]

theorem summed_append_singleton (h : (keys es).Nodup) (k : Key) (n : Int) :
    summed (es ++ [(k, n)]) = es.put k ((es.get? k).getD 0 + n) := by
  have hkeys : keys (summed (es ++ [(k, n)])) = keys (es.put k ((es.get? k).getD 0 + n)) := by
    rw [keys_summed, keys_put k _ h, keys_append]
    rfl
  refine ext_get? (nodup_summed _) hkeys fun l => ?_
  rw [get?_summed, amount_append, amount_of_nodup h]
  by_cases hl : l = k
  · have hone : amount [(k, n)] k = n := by simp [amount]
    rw [hl, get?_put_self, if_pos (by simp [keys]), hone]
  · rw [get?_put_of_ne _ es hl]
    have hone : amount [(k, n)] l = 0 := amount_of_not_mem (by simpa [keys] using hl)
    have hmem : l ∈ keys (es ++ [(k, n)]) ↔ l ∈ keys es := by simp [keys, hl]
    simp only [hmem, hone, add_zero]
    exact some_getD_get? es l 0

/-- **Sums of sums.** Entries in the middle may be summed up before the others. -/
theorem summed_append_summed (es fs gs : Entries Int) :
    summed (es ++ summed fs ++ gs) = summed (es ++ fs ++ gs) := by
  apply summed_congr
  · simp only [keys_append, keys_summed]
    exact eraseDups_append_congr (eraseDups_append_eraseDups _ _) _
  · intro k
    simp only [amount_append, amount_summed]

/-- **The order of the entries** decides on the order of the keys only. -/
theorem summed_perm (h : es.Perm fs) : (summed es).Perm (summed fs) := by
  have hamount : ∀ k, amount es k = amount fs k := by
    intro k
    have hvalues : (valuesOf es k).Perm (valuesOf fs k) := (h.filter _).map _
    exact hvalues.sum_eq
  unfold summed
  simp only [hamount]
  exact (eraseDups_perm (h.map _)).map _

theorem summed_of_nodup (h : (keys es).Nodup) : summed es = es := by
  have hkeys : keys (summed es) = keys es := by rw [keys_summed, eraseDups_of_nodup h]
  refine ext_get? (nodup_summed es) hkeys fun k => ?_
  rw [get?_summed, amount_of_nodup h, some_getD_get?]

theorem summed_twice (h : (keys es).Nodup) :
    summed (es ++ es) = es.map fun e => (e.1, 2 * e.2) := by
  have hkeys : (keys es ++ keys es).eraseDups = keys es := by
    rw [eraseDups_append_of_subset (List.Subset.refl _), eraseDups_of_nodup h]
  have hmap : (summed es).map (fun e => (e.1, 2 * e.2)) = es.map fun e => (e.1, 2 * e.2) := by
    rw [summed_of_nodup h]
  rw [← hmap, summed, summed, keys_append, hkeys, eraseDups_of_nodup h, List.map_map]
  refine List.map_congr_left fun k _ => ?_
  simp [amount_append]
  omega

end

end Entries

end Reassembly
