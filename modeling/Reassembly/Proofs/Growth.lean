import Reassembly.Proofs.Carried
import Reassembly.Transcript

/-!
# Lists that grow

A batch of values goes to the end of a list in a cell of a store. No other cell changes. What the
list gets is like the batch; if the batch leads to the list itself, then as long as one reads the
list as it was.

* `Store.Grown`: a later store in which a list has grown by a batch.
* `grown_growBy`: growing a list does that.
* `growBy_alike`: what the list gets is like the batch.
-/
namespace Reassembly

open Store

/-! ## Lists that grow -/

/-- A later store, in which the list in a cell has a batch more and no other cell has changed. -/
structure Store.Grown (s : Store) (ref : Nat) (batch : List Value) (t : Store) : Prop where
  sound : t.Sound []
  frame : s.Frame [ref] t
  list : ∀ old, s.cell ref = .list old → t.cell ref = .list (old ++ batch)

section
variable {s t u : Store} {aside : List Nat} {ref : Nat} {batch more : List Value}

theorem lt_size_of_list {old : List Value} (h : s.cell ref = .list old) : ref < s.size :=
  Store.lt_size_of_cell h (by simp)

theorem Store.Grown.refl (hs : s.Sound []) (ref : Nat) : s.Grown ref [] s :=
  ⟨hs, .refl s _, fun old h => by rw [h, List.append_nil]⟩

theorem Store.Grown.trans (h : s.Grown ref batch t) (k : t.Grown ref more u) :
    s.Grown ref (batch ++ more) u where
  sound := k.sound
  frame := h.frame.trans k.frame
  list := fun old ho => by rw [k.list _ (h.list old ho), List.append_assoc]

theorem Store.Grown.of_extends (hs : t.Sound []) (h : s.Extends t) : s.Grown ref [] t where
  sound := hs
  frame := .of_extends _ h
  list := fun old ho => by rw [h.cell (lt_size_of_list ho), ho, List.append_nil]

theorem Store.Sound.write_list (hs : s.Sound []) {items : List Value}
    (hi : ∀ v ∈ items, s.Holds [] v) : (s.write (.shared ref) (.list items)).Sound [] := by
  have hsize := s.size_write (.shared ref) (.list items)
  have holds : ∀ {v}, s.Holds [] v → (s.write (.shared ref) (.list items)).Holds [] v := by
    intro v hv x hx
    rw [hsize]
    exact hv x hx
  have cell : ∀ x, x < s.size → (s.write (.shared ref) (.list items)).cell x = s.cell x ∨
      (s.write (.shared ref) (.list items)).cell x = .list items := by
    intro x hx
    by_cases h : x = ref
    · rw [h] at hx ⊢
      exact Or.inr (s.cell_write_self hx)
    · exact Or.inl (s.cell_write_of_ne fun he => h (Value.shared.inj he).symm)
  refine ⟨(fun x hx => by cases hx), fun x hx hn => ?_, fun x hx hn => ?_⟩
  · rw [hsize] at hx
    rcases cell x hx with hc | hc
    · rw [hc]
      exact hs.shareable x hx hn
    · rw [hc]
      rfl
  · rw [hsize] at hx
    rcases cell x hx with hc | hc
    · rw [hc]
      exact holds (hs.closed x hx hn)
    · rw [hc]
      exact holds (holds_list.2 hi)

theorem growBy_list {old : List Value} (hl : s.cell ref = .list old) (batch : List Value) :
    s.growBy (.shared ref) (.ok batch) =
      ((s.internAll batch).1.write (.shared ref) (.list (old ++ (s.internAll batch).2)),
        .ok .null) := by
  have hh : s.head (.shared ref) = .list old := hl
  simp only [growBy, extendList, hh]

/-- **A list grows** by the whole batch. -/
theorem grown_growBy (hs : s.Sound []) {old : List Value} (hl : s.cell ref = .list old)
    (hb : ∀ v ∈ batch, s.Holds [] v) :
    s.Grown ref (s.internAll batch).2 (s.growBy (.shared ref) (.ok batch)).1 := by
  have hcarry := carries_internAll hs batch hb
  have hlt := lt_size_of_list hl
  have hin : (s.internAll batch).1.Holds [] (s.cell ref) := by
    exact hcarry.frame.holds (hs.closed ref hlt List.not_mem_nil)
  rw [hl] at hin
  rw [growBy_list hl]
  refine ⟨hcarry.sound.write_list ?_, ?_, fun old' ho => ?_⟩
  · exact List.forall_mem_append.2 ⟨holds_list.1 hin, holds_list.1 hcarry.holds⟩
  · exact (Frame.of_extends _ hcarry.grows).trans (.of_write List.mem_cons_self _)
  · rw [hl] at ho
    cases ho
    exact cell_write_self _ (Nat.lt_of_lt_of_le hlt hcarry.frame.size)

/-- With the list as it was, there is what the batch needs and nothing else. -/
theorem write_growBy {old : List Value} (hl : s.cell ref = .list old) (batch : List Value) :
    (s.growBy (.shared ref) (.ok batch)).1.write (.shared ref) (s.cell ref) =
      (s.internAll batch).1 := by
  have hlt := lt_size_of_list hl
  have hgrows : s.Extends (s.internAll batch).1 := extends_internAll s batch
  have hsize : ref < (s.internAll batch).1.cells.length :=
    Nat.lt_of_lt_of_le hlt (List.IsPrefix.length_le hgrows)
  have hcell : (s.internAll batch).1.cells[ref] = s.cell ref := by
    rw [← hgrows.cell hlt]
    simp [Store.cell, hsize]
  rw [growBy_list hl]
  simp only [Store.write, List.set_set]
  rw [← hcell, List.set_getElem_self]

/-- **What the list gets** is like the batch. -/
theorem growBy_alike (hs : s.Sound []) {old : List Value} (hl : s.cell ref = .list old)
    (hb : ∀ v ∈ batch, s.Holds [] v) :
    ∃ t got, s.growBy (.shared ref) (.ok batch) = (t, .ok .null) ∧ s.Grown ref got t ∧
      List.Forall₂ (s.AlikeIn (t.write (.shared ref) (s.cell ref))) batch got := by
  have hgrown := grown_growBy hs hl hb
  have hbefore := write_growBy hl batch
  obtain ⟨others, heq, hparts⟩ := (carries_internAll hs batch hb).alike.list rfl
  cases heq
  refine ⟨_, (s.internAll batch).2, growBy_list hl batch, ?_, ?_⟩
  · rw [growBy_list hl] at hgrown
    exact hgrown
  · rw [growBy_list hl] at hbefore
    rw [hbefore]
    exact hparts

theorem internAll_of_plain {vs : List Value} (h : ∀ v ∈ vs, v.isShareable = false) :
    s.internAll vs = (s, vs) := by
  induction vs with
  | nil => rfl
  | cons v vs ih =>
    obtain ⟨hv, hvs⟩ := List.forall_mem_cons.1 h
    simp only [internAll, intern_of_not_shareable hv, ih hvs]

end

end Reassembly
