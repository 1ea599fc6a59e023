import Reassembly.Proofs.ByValue
import Reassembly.Proofs.Formed
import Reassembly.Proofs.Maps
import Reassembly.Response.Fold

/-!
# Counters that come out of a fold

Counters that obey their rules are whole numbers or unknown, so sums of them are too, and nothing is
lost when a sum goes back into a stream as one usage item.

* `Usage.Formed`: what the rules say of counters; `Usage.Formed.add`: sums keep it.
* `obeys_addItems`: so the usage of a fold obeys its rule.
* `Tallied`: the usage is null, or written out as sums are; every fold leaves it so
  (`tallied_addItems`).
* `addItem_usageItem`: what is tallied comes back from its usage item.
* `alike_addItem_usageItem`: other usage comes back up to what is shared in it.
-/
namespace Reassembly

open Store

/-- The counters obey their rules. -/
structure Usage.Formed (s : Store) (u : Usage) : Prop where
  input : s.obeys (.optional .integer) u.input = true
  output : s.obeys (.optional .integer) u.output = true
  total : s.obeys (.optional .integer) u.total = true
  counts : s.obeys (.optional .counts) u.counts = true

/-- The usage is unknown, or written out as a sum is. -/
def Tallied (v : Value) : Prop :=
  v = .null ∨ ∃ u : Usage, v = u.toValue ∧ (u.counts = .null ∨ ∃ es, u.counts = .map es)

section
variable {s : Store}

theorem isInteger_iff {v : Value} : v.isInteger = true ↔ ∃ n, v = .int n := by
  cases v <;> simp [Value.isInteger]

theorem obeys_counter {v : Value} :
    s.obeys (.optional .integer) v = true ↔ v = .null ∨ ∃ n, v = .int n := by
  rw [obeys_optional, ← isInteger_iff]
  rfl

theorem obeys_counts {v : Value} :
    s.obeys (.optional .counts) v = true ↔ v = .null ∨ ∃ es, s.head v = .map es ∧
      ∀ e ∈ es, e.1.isText = true ∧ e.2.isInteger = true := by
  rw [obeys_optional, ← isMapOf_iff]
  rfl

/-! ## What the rules say -/

theorem isA_details {k : Kind} (h : k.isA .details = true) : k = .details := by
  cases k <;> first | rfl | cases h

theorem formed_details {v : Value} (h : s.formed .details v = true) :
    s.head v = .object .details
        [(s.usage v).input, (s.usage v).output, (s.usage v).total, (s.usage v).counts] ∧
      (s.usage v).Formed s := by
  obtain ⟨l, fields, hv, hl, hf⟩ := formed_iff.1 h
  rw [isA_details hl] at hv hf
  simp only [Kind.fields, List.forall₂_cons_left_iff, List.forall₂_nil_left_iff] at hf
  obtain ⟨i, _, hi, ⟨o, _, ho, ⟨t, _, ht, ⟨c, _, hc, rfl, rfl⟩, rfl⟩, rfl⟩, rfl⟩ := hf
  have hu : s.usage v = ⟨i, o, t, c⟩ := by simp only [usage, hv]
  rw [hu]
  exact ⟨hv, hi, ho, ht, hc⟩

theorem formed_usage_toValue {u : Usage} (h : u.Formed s) : s.formed .details u.toValue = true := by
  refine formed_iff.2 ⟨.details, _, rfl, rfl, ?_⟩
  simp only [Kind.fields, List.forall₂_cons, List.forall₂_nil_left_iff]
  exact ⟨h.input, h.output, h.total, h.counts, trivial⟩

theorem usage_formed {v : Value} (h : s.obeys (.optional (.one .details)) v = true) :
    (s.usage v).Formed s := by
  rcases obeys_optional.1 h with rfl | h
  · exact ⟨rfl, rfl, rfl, rfl⟩
  · exact (formed_details h).2

/-! ## Sums -/

theorem obeys_knownSum {a b : Value} (ha : s.obeys (.optional .integer) a = true)
    (hb : s.obeys (.optional .integer) b = true) :
    s.obeys (.optional .integer) (s.knownSum a b) = true := by
  rw [obeys_counter] at ha hb ⊢
  rcases ha with rfl | ⟨m, rfl⟩ <;> rcases hb with rfl | ⟨n, rfl⟩
  · exact Or.inl (knownSum_null_null s)
  · exact Or.inr ⟨n, knownSum_null_int s n⟩
  · exact Or.inr ⟨m, knownSum_int_null s m⟩
  · exact Or.inr ⟨m + n, knownSum_int s m n⟩

theorem knownSum_null {a : Value} (ha : s.obeys (.optional .integer) a = true) :
    s.knownSum .null a = a := by
  rcases obeys_counter.1 ha with rfl | ⟨n, rfl⟩
  · exact knownSum_null_null s
  · exact knownSum_null_int s n

theorem addCount_counts {es : Entries Value} {f : Key × Value}
    (he : ∀ e ∈ es, e.1.isText = true ∧ e.2.isInteger = true)
    (hf : f.1.isText = true ∧ f.2.isInteger = true) :
    ∀ e ∈ s.addCount es f, e.1.isText = true ∧ e.2.isInteger = true := by
  intro e hm
  rcases Entries.mem_put hm with hm | rfl
  · exact he e hm
  · refine ⟨hf.1, ?_⟩
    obtain ⟨n, hn⟩ := isInteger_iff.1 hf.2
    cases hg : es.get? f.1 with
    | none => exact hf.2
    | some old =>
      obtain ⟨m, hm⟩ := isInteger_iff.1 (he _ (Entries.mem_of_get? hg)).2
      simp only at hm
      rw [hm, hn]
      rfl

theorem addCounts_counts {es fs : Entries Value}
    (he : ∀ e ∈ es, e.1.isText = true ∧ e.2.isInteger = true)
    (hf : ∀ f ∈ fs, f.1.isText = true ∧ f.2.isInteger = true) :
    ∀ e ∈ s.addCounts es fs, e.1.isText = true ∧ e.2.isInteger = true := by
  induction fs generalizing es with
  | nil => exact he
  | cons f fs ih =>
    obtain ⟨hf, hfs⟩ := List.forall_mem_cons.1 hf
    exact ih (addCount_counts he hf) hfs

theorem mapping_of_head {v : Value} {es : Entries Value} (h : s.head v = .map es) :
    s.mapping v = es := by
  simp [mapping, entries?, h]

theorem obeys_addNamed {a b : Value} (ha : s.obeys (.optional .counts) a = true)
    (hb : s.obeys (.optional .counts) b = true) :
    s.obeys (.optional .counts) (s.addNamed a b) = true := by
  unfold addNamed
  rcases obeys_counts.1 hb with rfl | ⟨fs, hfs, hf⟩
  · exact ha
  · have hbn : b ≠ .null := by rintro rfl; cases hfs
    rw [if_neg hbn]
    rcases obeys_counts.1 ha with rfl | ⟨es, hes, he⟩
    · rw [if_pos rfl, mapping_of_head hfs]
      exact obeys_counts.2 (Or.inr ⟨fs, rfl, hf⟩)
    · have han : a ≠ .null := by rintro rfl; cases hes
      simp only [if_neg han, entries?, hes, hfs]
      exact obeys_counts.2 (Or.inr ⟨_, rfl, addCounts_counts he hf⟩)

theorem Usage.Formed.add {a b : Usage} (ha : a.Formed s) (hb : b.Formed s) :
    (a.add s b).Formed s where
  input := obeys_knownSum ha.input hb.input
  output := obeys_knownSum ha.output hb.output
  total := obeys_knownSum ha.total hb.total
  counts := obeys_addNamed ha.counts hb.counts

/-! ## The usage of a fold -/

/-- A usage item that obeys its rules carries counters that do, or none. -/
theorem obeys_of_usageItem? {c details : Value} (h : s.formed .content c = true)
    (hd : s.usageItem? c = some details) :
    s.obeys (.optional (.one .details)) details = true := by
  obtain ⟨l, fields, hv, -, hf⟩ := formed_iff.1 h
  unfold usageItem? at hd
  split at hd
  · next hu =>
    rw [hu] at hv
    cases hv
    cases hd
    simp only [Kind.fields, contentFields, List.cons_append, List.nil_append,
      List.forall₂_cons] at hf
    exact hf.2.2.2.1
  · cases hd

theorem addItem_of_not_usage {c : Value} (h : s.isUsage c = false) (total : Value) :
    addItem s total c = total := by
  have hn : s.usageItem? c = none := by simpa [isUsage] using h
  rw [addItem, hn]

theorem addItems_of_not_usage {items : List Value} (h : ∀ c ∈ items, s.isUsage c = false)
    (total : Value) : addItems s total items = total := by
  induction items with
  | nil => rfl
  | cons c cs ih =>
    obtain ⟨hc, hcs⟩ := List.forall_mem_cons.1 h
    rw [addItems, List.foldl_cons, addItem_of_not_usage hc]
    exact ih hcs

theorem addItems_append (s : Store) (total : Value) (xs ys : List Value) :
    addItems s total (xs ++ ys) = addItems s (addItems s total xs) ys := by
  simp [addItems]

/-- An item leaves the total alone, or counters that it carries are added. -/
theorem addItem_cases (s : Store) (total c : Value) :
    addItem s total c = total ∨ ∃ details, s.usageItem? c = some details ∧
      addItem s total c = ((s.usage total).add s (s.usage details)).toValue := by
  unfold addItem
  split
  · exact Or.inl rfl
  · exact Or.inl rfl
  · next details _ hd => exact Or.inr ⟨details, hd, rfl⟩

theorem obeys_addItem {total c : Value} (ht : s.obeys (.optional (.one .details)) total = true)
    (hc : s.formed .content c = true) :
    s.obeys (.optional (.one .details)) (addItem s total c) = true := by
  rcases addItem_cases s total c with h | ⟨details, hd, h⟩
  · rw [h]
    exact ht
  · have hadd := (usage_formed ht).add (usage_formed (obeys_of_usageItem? hc hd))
    rw [h]
    exact obeys_optional.2 (Or.inr (formed_usage_toValue hadd))

theorem obeys_addItems {total : Value} {items : List Value}
    (ht : s.obeys (.optional (.one .details)) total = true)
    (hi : ∀ c ∈ items, s.formed .content c = true) :
    s.obeys (.optional (.one .details)) (addItems s total items) = true := by
  induction items generalizing total with
  | nil => exact ht
  | cons c cs ih =>
    obtain ⟨hc, hcs⟩ := List.forall_mem_cons.1 hi
    exact ih (obeys_addItem ht hc) hcs

theorem tallied_addItem {total : Value} (ht : Tallied total) (c : Value) :
    Tallied (addItem s total c) := by
  rcases addItem_cases s total c with h | ⟨details, -, h⟩
  · rw [h]
    exact ht
  · have hc : (s.usage total).counts = .null ∨ ∃ es, (s.usage total).counts = .map es := by
      rcases ht with rfl | ⟨u, rfl, hu⟩
      · exact Or.inl rfl
      · exact hu
    refine Or.inr ⟨_, h, ?_⟩
    simp only [Usage.add, addNamed]
    split
    · exact hc
    · split
      · exact Or.inr ⟨_, rfl⟩
      · split
        · exact Or.inr ⟨_, rfl⟩
        · exact hc

theorem tallied_addItems {total : Value} (ht : Tallied total) (items : List Value) :
    Tallied (addItems s total items) := by
  induction items generalizing total with
  | nil => exact ht
  | cons c cs ih => exact ih (tallied_addItem ht c)

/-! ## Back through a usage item -/

theorem usageItem?_usageItem (s : Store) (v : Value) : s.usageItem? (usageItem v) = some v := rfl

theorem addItem_usageItem_of_ne {v : Value} (h : v ≠ .null) :
    addItem s .null (usageItem v) = (Usage.unknown.add s (s.usage v)).toValue := by
  unfold addItem
  rw [usageItem?_usageItem]
  cases v <;> first | exact absurd rfl h | rfl

/-- **A tally comes back from its usage item** as it was. -/
theorem addItem_usageItem {v : Value} (ht : Tallied v)
    (ho : s.obeys (.optional (.one .details)) v = true) :
    addItem s .null (usageItem v) = v := by
  have hf := usage_formed ho
  rcases ht with rfl | ⟨u, rfl, hc⟩
  · rfl
  · rw [usage_toValue] at hf
    rw [addItem_usageItem_of_ne (by simp [Usage.toValue]), usage_toValue]
    have hadd : Usage.unknown.add s u = u := by
      obtain ⟨i, o, t, c⟩ := u
      simp only [Usage.add, Usage.unknown, Usage.mk.injEq]
      refine ⟨knownSum_null hf.input, knownSum_null hf.output, knownSum_null hf.total, ?_⟩
      rcases hc with rfl | ⟨es, rfl⟩
      · rfl
      · simp [addNamed, mapping_map]
    rw [hadd]

/-- Other counters come back as counters that are alike. -/
theorem alike_addItem_usageItem {v : Value}
    (ho : s.obeys (.optional (.one .details)) v = true) :
    s.Alike (addItem s .null (usageItem v)) v := by
  rcases obeys_optional.1 ho with rfl | h
  · exact Alike.refl s .null
  · obtain ⟨hv, hf⟩ := formed_details h
    have hn : v ≠ .null := by rintro rfl; cases hv
    rw [addItem_usageItem_of_ne hn]
    refine alike_object rfl hv (.cons ?_ (.cons ?_ (.cons ?_ (.cons ?_ .nil))))
    · rw [Usage.add, Usage.unknown, knownSum_null hf.input]
      exact Alike.refl s _
    · rw [Usage.add, Usage.unknown, knownSum_null hf.output]
      exact Alike.refl s _
    · rw [Usage.add, Usage.unknown, knownSum_null hf.total]
      exact Alike.refl s _
    · rcases obeys_counts.1 hf.counts with hc | ⟨es, hes, -⟩
      · rw [Usage.add, hc]
        exact Alike.refl s .null
      · have hcn : (s.usage v).counts ≠ .null := by
          intro hc
          rw [hc] at hes
          cases hes
        have hsum : (Usage.unknown.add s (s.usage v)).counts = .map es := by
          simp only [Usage.add, Usage.unknown, addNamed, if_neg hcn, if_true, mapping_of_head hes]
        rw [hsum]
        exact alike_of_head hes.symm

end

end Reassembly
