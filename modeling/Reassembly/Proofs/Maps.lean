import Mathlib.Data.List.Nodup
import Reassembly.Entries

/-!
# Ordered maps with each key once

* `mem_put`, `forall_mem_merge`: what is in a map after writing to it was there, or has been
  written.
* `nodup_put`, `nodup_merge`: writing makes no second entry for a key.
* `merge_nil`: writing the entries of such a map into an empty one makes the same map.
* `mem_keys_merge`, `get?_merge_of_mem`: the keys of both maps, and the values of the second one.
* `mem_of_mem_merge`, `length_merge_of_subset`: writing over a map that has no other keys.
-/
namespace Reassembly

namespace Entries

variable {α : Type}

theorem mem_put {k : Key} {v : α} {es : Entries α} {e : Key × α} (h : e ∈ es.put k v) :
    e ∈ es ∨ e = (k, v) := by
  induction es with
  | nil => exact Or.inr (List.mem_singleton.1 h)
  | cons f es ih =>
    obtain ⟨l, w⟩ := f
    by_cases hl : l = k
    · rw [put, if_pos hl] at h
      rcases List.mem_cons.1 h with rfl | h
      · exact Or.inr (by rw [hl])
      · exact Or.inl (List.mem_cons_of_mem _ h)
    · rw [put, if_neg hl] at h
      rcases List.mem_cons.1 h with rfl | h
      · exact Or.inl List.mem_cons_self
      · exact (ih h).imp_left (List.mem_cons_of_mem _)

theorem mem_of_get? {k : Key} {v : α} {es : Entries α} (h : es.get? k = some v) :
    (k, v) ∈ es := by
  induction es with
  | nil => cases h
  | cons f es ih =>
    obtain ⟨l, w⟩ := f
    by_cases hl : l = k
    · rw [get?, if_pos hl] at h
      rw [hl, Option.some.inj h]
      exact List.mem_cons_self
    · rw [get?, if_neg hl] at h
      exact List.mem_cons_of_mem _ (ih h)

theorem get?_of_mem {k : Key} {v : α} {es : Entries α} (hn : (keys es).Nodup)
    (h : (k, v) ∈ es) : es.get? k = some v := by
  induction es with
  | nil => cases h
  | cons f es ih =>
    obtain ⟨l, w⟩ := f
    simp only [keys, List.map_cons, List.nodup_cons] at hn
    rcases List.mem_cons.1 h with he | h
    · cases he
      exact if_pos rfl
    · have hl : l ≠ k := by
        rintro rfl
        exact hn.1 (List.mem_map.2 ⟨_, h, rfl⟩)
      rw [get?, if_neg hl]
      exact ih hn.2 h

theorem forall_mem_merge {p : Key × α → Prop} {es fs : Entries α} (he : ∀ e ∈ es, p e)
    (hf : ∀ f ∈ fs, p f) : ∀ e ∈ es.merge fs, p e := by
  induction fs generalizing es with
  | nil => exact he
  | cons f fs ih =>
    obtain ⟨hf, hfs⟩ := List.forall_mem_cons.1 hf
    have hput : ∀ e ∈ es.put f.1 f.2, p e := by
      intro e hm
      rcases mem_put hm with hm | rfl
      · exact he e hm
      · exact hf
    exact ih hput hfs

theorem nodup_put {es : Entries α} (k : Key) (v : α) (h : (keys es).Nodup) :
    (keys (es.put k v)).Nodup := by
  by_cases hk : k ∈ keys es
  · rw [keys_put_of_mem v hk]
    exact h
  · rw [keys_put_of_not_mem v hk, List.nodup_append]
    exact ⟨h, List.nodup_singleton k, fun a ha b hb => by
      rw [List.mem_singleton.1 hb]
      exact fun hab => hk (hab ▸ ha)⟩

theorem nodup_merge {es : Entries α} (fs : Entries α) (h : (keys es).Nodup) :
    (keys (es.merge fs)).Nodup := by
  induction fs generalizing es with
  | nil => exact h
  | cons f fs ih => exact ih (nodup_put f.1 f.2 h)

theorem put_of_not_mem {k : Key} {es : Entries α} (v : α) (h : k ∉ keys es) :
    es.put k v = es ++ [(k, v)] := by
  induction es with
  | nil => rfl
  | cons f es ih =>
    obtain ⟨l, w⟩ := f
    simp only [keys, List.map_cons, List.mem_cons, not_or] at h
    rw [put, if_neg (Ne.symm h.1), ih h.2, List.cons_append]

theorem merge_of_nodup {es fs : Entries α} (h : (keys (es ++ fs)).Nodup) :
    es.merge fs = es ++ fs := by
  induction fs generalizing es with
  | nil => rw [List.append_nil]; rfl
  | cons f fs ih =>
    obtain ⟨k, v⟩ := f
    have hk : k ∉ keys es := by
      rw [keys, List.map_append, List.nodup_append] at h
      exact fun hm => h.2.2 k hm k List.mem_cons_self rfl
    have hput : es.put k v = es ++ [(k, v)] := put_of_not_mem v hk
    have hsplit : es ++ (k, v) :: fs = es ++ [(k, v)] ++ fs := by simp
    rw [hsplit] at h ⊢
    rw [← ih h, ← hput]
    rfl

/-- Writing all entries of a map into an empty one. -/
theorem merge_nil {es : Entries α} (h : (keys es).Nodup) : merge [] es = es :=
  merge_of_nodup h

/-! ## Writing one map over another -/

theorem mem_keys_merge {k : Key} {es fs : Entries α} :
    k ∈ keys (es.merge fs) ↔ k ∈ keys es ∨ k ∈ keys fs := by
  induction fs generalizing es with
  | nil => simp [merge, keys]
  | cons f fs ih =>
    have hput : k ∈ keys (es.put f.1 f.2) ↔ k ∈ keys es ∨ k = f.1 := by
      by_cases hf : f.1 ∈ keys es
      · rw [keys_put_of_mem f.2 hf]
        refine ⟨Or.inl, fun h => h.elim id ?_⟩
        rintro rfl
        exact hf
      · rw [keys_put_of_not_mem f.2 hf, List.mem_append, List.mem_singleton]
    have hkeys : k ∈ keys (f :: fs) ↔ k = f.1 ∨ k ∈ keys fs := by simp [keys]
    show k ∈ keys ((es.put f.1 f.2).merge fs) ↔ _
    rw [ih, hput, hkeys, or_assoc]

theorem get?_merge_of_not_mem {k : Key} {es fs : Entries α} (h : k ∉ keys fs) :
    (es.merge fs).get? k = es.get? k := by
  induction fs generalizing es with
  | nil => rfl
  | cons f fs ih =>
    simp only [keys, List.map_cons, List.mem_cons, not_or] at h
    show ((es.put f.1 f.2).merge fs).get? k = es.get? k
    rw [ih h.2, get?_put_of_ne f.2 es h.1]

/-- What is written is there afterwards. -/
theorem get?_merge_of_mem {k : Key} {v : α} (es : Entries α) {fs : Entries α}
    (hn : (keys fs).Nodup) (h : (k, v) ∈ fs) : (es.merge fs).get? k = some v := by
  induction fs generalizing es with
  | nil => cases h
  | cons f fs ih =>
    simp only [keys, List.map_cons, List.nodup_cons] at hn
    show ((es.put f.1 f.2).merge fs).get? k = some v
    rcases List.mem_cons.1 h with rfl | h
    · rw [get?_merge_of_not_mem hn.1, get?_put_self]
    · exact ih _ hn.2 h

/-- An entry whose key has been written is the one that was written. -/
theorem mem_of_mem_merge {e : Key × α} {es fs : Entries α} (he : (keys es).Nodup)
    (hf : (keys fs).Nodup) (hm : e ∈ es.merge fs) (hk : e.1 ∈ keys fs) : e ∈ fs := by
  obtain ⟨f, hfm, hfe⟩ := List.mem_map.1 hk
  have hold := get?_of_mem (nodup_merge fs he) hm
  have hnew := get?_merge_of_mem es hf hfm
  rw [hfe, hold, Option.some.injEq] at hnew
  have heq : e = f := Prod.ext hfe.symm hnew
  rw [heq]
  exact hfm

theorem length_merge_of_subset {es fs : Entries α} (he : (keys es).Nodup) (hf : (keys fs).Nodup)
    (h : keys es ⊆ keys fs) : (es.merge fs).length = fs.length := by
  have hperm : (keys (es.merge fs)).Perm (keys fs) := by
    refine (List.perm_ext_iff_of_nodup (nodup_merge fs he) hf).2 fun k => ?_
    rw [mem_keys_merge]
    exact ⟨fun hk => hk.elim (fun hk => h hk) id, Or.inr⟩
  simpa [keys] using hperm.length_eq

end Entries

end Reassembly
