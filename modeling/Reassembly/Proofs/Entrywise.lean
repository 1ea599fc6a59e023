import Mathlib.Data.List.Induction
import Reassembly.Proofs.Maps

/-!
# Maps written entry by entry

Entries are written to a map one after the other, some of them for one key. The map has each key
once, at the place where it came up first.

* `eraseDups_append_singleton`, `nodup_eraseDups`, `eraseDups_of_nodup`: the keys in the order in
  which they came up.
* `keys_foldl_put`: these are the keys of a map that entries have been written to.
* `ext_get?`: a map is given by its keys in their order and what they stand for.
* `valuesOf`: what the entries say of a key, and `get?_ofList`: the last value stays.
-/
namespace Reassembly

/-! ## Keys in the order in which they came up -/

section
variable {α : Type} [DecidableEq α]

theorem eraseDups_append_singleton (xs : List α) (x : α) :
    (xs ++ [x]).eraseDups = if x ∈ xs then xs.eraseDups else xs.eraseDups ++ [x] := by
  rw [List.eraseDups_append]
  split
  · next h => simp [List.removeAll, h]
  · next h => simp [List.removeAll, h, List.eraseDups_cons]

theorem eraseDups_append_of_subset {xs ys : List α} (h : ys ⊆ xs) :
    (xs ++ ys).eraseDups = xs.eraseDups := by
  have hnone : ys.removeAll xs = [] := by
    unfold List.removeAll
    rw [List.filter_eq_nil_iff]
    intro y hy
    simpa using h hy
  rw [List.eraseDups_append, hnone, List.eraseDups_nil, List.append_nil]

theorem nodup_eraseDups (xs : List α) : xs.eraseDups.Nodup := by
  induction xs using List.reverseRecOn with
  | nil => exact .nil
  | append_singleton xs x ih =>
    rw [eraseDups_append_singleton]
    split
    · exact ih
    · next h =>
      refine List.nodup_append.2 ⟨ih, List.nodup_singleton x, fun a ha b hb hab => h ?_⟩
      rw [← List.mem_singleton.1 hb, ← hab]
      exact List.mem_eraseDups.1 ha

theorem eraseDups_of_nodup {xs : List α} (h : xs.Nodup) : xs.eraseDups = xs := by
  induction xs using List.reverseRecOn with
  | nil => rfl
  | append_singleton xs x ih =>
    obtain ⟨hxs, -, hx⟩ := List.nodup_append.1 h
    have hnew : x ∉ xs := fun hm => hx x hm x (List.mem_singleton_self x) rfl
    rw [eraseDups_append_singleton, if_neg hnew, ih hxs]

/-- What comes behind has no say in which of the elements before it come first. -/
theorem eraseDups_append_congr {xs ys : List α} (h : xs.eraseDups = ys.eraseDups) (zs : List α) :
    (xs ++ zs).eraseDups = (ys ++ zs).eraseDups := by
  have hmem : ∀ z, z ∈ xs ↔ z ∈ ys := by
    intro z
    rw [← List.mem_eraseDups, h, List.mem_eraseDups]
  induction zs using List.reverseRecOn with
  | nil => simpa using h
  | append_singleton zs z ih =>
    rw [← List.append_assoc, ← List.append_assoc, eraseDups_append_singleton,
      eraseDups_append_singleton, ih]
    simp only [List.mem_append, hmem]

theorem eraseDups_append_eraseDups (xs ys : List α) :
    (xs ++ ys.eraseDups).eraseDups = (xs ++ ys).eraseDups := by
  induction ys using List.reverseRecOn with
  | nil => rfl
  | append_singleton ys y ih =>
    rw [← List.append_assoc, eraseDups_append_singleton, eraseDups_append_singleton]
    by_cases hy : y ∈ ys
    · rw [if_pos hy, if_pos (List.mem_append_right xs hy), ih]
    · rw [if_neg hy, ← List.append_assoc, eraseDups_append_singleton, ih]
      simp only [List.mem_append, List.mem_eraseDups]

theorem eraseDups_perm {xs ys : List α} (h : xs.Perm ys) : xs.eraseDups.Perm ys.eraseDups := by
  refine (List.perm_ext_iff_of_nodup (nodup_eraseDups xs) (nodup_eraseDups ys)).2 fun x => ?_
  rw [List.mem_eraseDups, List.mem_eraseDups]
  exact h.mem_iff

end

namespace Entries

section
variable {α β : Type}

theorem keys_append (es fs : Entries α) : keys (es ++ fs) = keys es ++ keys fs := by
  simp [keys]

theorem keys_put (k : Key) (v : α) {es : Entries α} (h : (keys es).Nodup) :
    keys (es.put k v) = (keys es ++ [k]).eraseDups := by
  rw [eraseDups_append_singleton, eraseDups_of_nodup h]
  split
  · next hk => exact keys_put_of_mem v hk
  · next hk => exact keys_put_of_not_mem v hk

/-- Whatever is written to a map entry by entry, its keys stand in the order in which they came
up. -/
theorem keys_foldl_put (key : β → Key) (value : Entries α → β → α) (fs : List β) {es : Entries α}
    (h : (keys es).Nodup) :
    keys (fs.foldl (fun es f => es.put (key f) (value es f)) es) =
      (keys es ++ fs.map key).eraseDups := by
  induction fs generalizing es with
  | nil => rw [List.map_nil, List.append_nil, eraseDups_of_nodup h, List.foldl_nil]
  | cons f fs ih =>
    have hput : keys (es.put (key f) (value es f)) = (keys es ++ [key f]).eraseDups :=
      keys_put _ _ h
    have hidem : (keys es ++ [key f]).eraseDups.eraseDups = (keys es ++ [key f]).eraseDups :=
      eraseDups_of_nodup (nodup_eraseDups _)
    rw [List.foldl_cons, ih (nodup_put _ _ h), hput, eraseDups_append_congr hidem, List.map_cons,
      List.append_assoc]
    rfl

theorem get?_eq_none_iff {k : Key} {es : Entries α} : es.get? k = none ↔ k ∉ keys es := by
  induction es with
  | nil => simp [get?, keys]
  | cons e es ih =>
    obtain ⟨l, v⟩ := e
    by_cases h : l = k
    · simp [get?, keys, h]
    · have hk : k ≠ l := Ne.symm h
      simp only [keys] at ih
      simp [get?, keys, h, hk, ih]

theorem some_getD_get? (es : Entries α) (k : Key) (v : α) :
    (if k ∈ keys es then some ((es.get? k).getD v) else none) = es.get? k := by
  split
  · next h =>
    obtain ⟨w, hw⟩ := Option.ne_none_iff_exists'.1 fun he => get?_eq_none_iff.1 he h
    rw [hw]
    rfl
  · next h => exact (get?_eq_none_iff.2 h).symm

/-- **A map is given** by its keys in their order and what they stand for. -/
theorem ext_get? {es fs : Entries α} (hn : (keys es).Nodup) (hk : keys es = keys fs)
    (h : ∀ k, es.get? k = fs.get? k) : es = fs := by
  have hlen : es.length = fs.length := by simpa [keys] using congrArg List.length hk
  refine List.ext_getElem hlen fun i hi hj => ?_
  have hkey : es[i].1 = fs[i].1 := by
    have := List.getElem_of_eq hk (i := i) (by simpa [keys] using hi)
    simpa [keys] using this
  have hleft : es.get? es[i].1 = some es[i].2 := get?_of_mem hn (List.getElem_mem hi)
  have hright : fs.get? fs[i].1 = some fs[i].2 := get?_of_mem (hk ▸ hn) (List.getElem_mem hj)
  rw [h, hkey, hright, Option.some.injEq] at hleft
  exact Prod.ext hkey hleft.symm

theorem get?_map_keys (ks : List Key) (f : Key → α) (k : Key) :
    get? k (ks.map fun l => (l, f l)) = if k ∈ ks then some (f k) else none := by
  induction ks with
  | nil => rfl
  | cons l ks ih =>
    by_cases h : l = k
    · simp [get?, h]
    · have hk : k ≠ l := Ne.symm h
      simp [get?, h, hk, ih]

/-! ## Values -/

/-- What the entries say of a key, in their order. -/
def valuesOf (es : Entries α) (k : Key) : List α := (es.filter (·.1 = k)).map (·.2)

@[simp] theorem valuesOf_append (es fs : Entries α) (k : Key) :
    valuesOf (es ++ fs) k = valuesOf es k ++ valuesOf fs k := by
  simp [valuesOf]

@[simp] theorem valuesOf_singleton_self (k : Key) (v : α) : valuesOf [(k, v)] k = [v] := by
  simp [valuesOf]

theorem valuesOf_of_not_mem {es : Entries α} {k : Key} (h : k ∉ keys es) : valuesOf es k = [] := by
  have hnone : es.filter (·.1 = k) = [] := by
    rw [List.filter_eq_nil_iff]
    intro e he hk
    exact h (List.mem_map.2 ⟨e, he, by simpa using hk⟩)
  rw [valuesOf, hnone, List.map_nil]

theorem valuesOf_of_nodup {es : Entries α} (h : (keys es).Nodup) (k : Key) :
    valuesOf es k = (es.get? k).toList := by
  induction es with
  | nil => rfl
  | cons e es ih =>
    obtain ⟨l, v⟩ := e
    simp only [keys, List.map_cons, List.nodup_cons] at h
    by_cases hl : l = k
    · have hrest : valuesOf es k = [] := valuesOf_of_not_mem (hl ▸ h.1)
      unfold valuesOf at hrest ⊢
      simp [get?, hl, hrest]
    · have ih := ih h.2
      unfold valuesOf at ih ⊢
      simp [get?, hl, ih]

theorem keys_ofList (es : Entries α) : keys (ofList es) = (keys es).eraseDups := by
  have hempty : (keys ([] : Entries α)).Nodup := .nil
  exact keys_foldl_put (fun e : Key × α => e.1) (fun _ e => e.2) es hempty

/-- **The last value stays.** -/
theorem get?_ofList (es : Entries α) (k : Key) : (ofList es).get? k = (valuesOf es k).getLast? := by
  induction es using List.reverseRecOn with
  | nil => rfl
  | append_singleton es e ih =>
    obtain ⟨l, v⟩ := e
    have hstep : ofList (es ++ [(l, v)]) = (ofList es).put l v := by simp [ofList, merge]
    rw [hstep, valuesOf_append]
    by_cases h : l = k
    · rw [h, valuesOf_singleton_self, List.getLast?_concat, get?_put_self]
    · have hnone : valuesOf [(l, v)] k = [] := valuesOf_of_not_mem (by simpa [keys] using Ne.symm h)
      rw [hnone, List.append_nil, get?_put_of_ne _ _ (Ne.symm h), ih]

theorem merge_ofList (es fs : Entries α) : (ofList es).merge fs = ofList (es ++ fs) := by
  simp [ofList, merge]

end

end Entries

end Reassembly
