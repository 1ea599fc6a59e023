import Reassembly.Proofs.Carried

/-!
# What a change to a cell changes

Somebody writes to a cell of the store. A value reads differently after that if and only if it leads
to the cell, and the cell reads differently: so nothing is seen of a change to a cell that the value
does not lead to, and everything is seen of a change to one that it leads to, however deep.

* `Value.parts`: the values right inside of a value.
* `layers_succ_congr`, `AlikeIn.parts`: one layer more, and one less.
* `mem_reachedBy_iff`: a value leads to itself and to what its parts lead to.
* `alikeIn_write_of_closed`: a region that the cell is not part of, or that does not see the change.
* `alikeIn_write_iff`: **what a change changes**.
-/
namespace Reassembly

namespace Value

/-- The values right inside of a value. -/
def parts : Value → List Value
  | .list items => items
  | .tuple items => items
  | .map entries => entries.map (·.2)
  | .object _ fields => fields
  | _ => []

theorem mem_refs_iff {x : Nat} {v : Value} :
    x ∈ v.refs ↔ v = .shared x ∨ ∃ w ∈ v.parts, x ∈ w.refs := by
  cases v with
  | list items => simp [refs, parts, mem_refsAll]
  | tuple items => simp [refs, parts, mem_refsAll]
  | map entries =>
    simp only [refs, parts, mem_refsEntries, List.mem_map, exists_exists_and_eq_and, reduceCtorEq,
      false_or]
  | object kind fields => simp [refs, parts, mem_refsAll]
  | shared ref => simp [refs, parts, eq_comm]
  | _ => simp [refs, parts]

theorem sizeOf_lt_of_mem_parts {v w : Value} (h : w ∈ v.parts) : sizeOf w < sizeOf v := by
  cases v with
  | list items | tuple items | object kind items =>
    have := List.sizeOf_lt_of_mem h
    simp only [parts] at this
    simp
    omega
  | map entries =>
    obtain ⟨⟨k, w⟩, he, rfl⟩ := List.mem_map.1 h
    have := List.sizeOf_lt_of_mem he
    simp at this ⊢
    omega
  | _ => cases h

end Value

namespace Store

section
variable {s t : Store} {v w : Value} {x y : Nat}

/-! ## One layer -/

theorem head_of_mem_parts (s : Store) (h : w ∈ v.parts) : s.head v = v := by
  cases v <;> first | rfl | cases h

theorem layers_succ_congr {depth : Nat} (hh : t.head w = s.head v)
    (hp : ∀ u ∈ (s.head v).parts, t.layers depth u = s.layers depth u) :
    t.layers (depth + 1) w = s.layers (depth + 1) v := by
  simp only [layers, hh]
  cases hv : s.head v with
  | list items =>
    rw [hv] at hp
    exact congrArg Value.list (List.map_congr_left hp)
  | tuple items =>
    rw [hv] at hp
    exact congrArg Value.tuple (List.map_congr_left hp)
  | object kind fields =>
    rw [hv] at hp
    exact congrArg (Value.object kind) (List.map_congr_left hp)
  | map entries =>
    rw [hv] at hp
    refine congrArg Value.map (List.map_congr_left fun e he => ?_)
    rw [hp e.2 (List.mem_map_of_mem he)]
  | _ => rfl

theorem AlikeIn.parts (h : s.AlikeIn t v v) (hh : t.head v = s.head v) :
    ∀ w ∈ (s.head v).parts, s.AlikeIn t w w := by
  intro w hw depth
  have hd := h (depth + 1)
  simp only [layers, hh] at hd
  cases hv : s.head v with
  | list items =>
    rw [hv] at hd hw
    exact List.map_inj_left.1 (Value.list.inj hd) w hw
  | tuple items =>
    rw [hv] at hd hw
    exact List.map_inj_left.1 (Value.tuple.inj hd) w hw
  | object kind fields =>
    rw [hv] at hd hw
    exact List.map_inj_left.1 (Value.object.inj hd).2 w hw
  | map entries =>
    rw [hv] at hd hw
    obtain ⟨e, he, rfl⟩ := List.mem_map.1 hw
    exact (Prod.mk.inj (List.map_inj_left.1 (Value.map.inj hd) e he)).2
  | _ =>
    rw [hv] at hw
    cases hw

theorem AlikeIn.refs (h : s.AlikeIn t v v) : ∀ x ∈ v.refs, s.AlikeIn t (.shared x) (.shared x) := by
  -- the parts of a value that is written out are smaller
  induction hn : sizeOf v using Nat.strongRecOn generalizing v with
  | ind n ih =>
    intro x hx
    rcases Value.mem_refs_iff.1 hx with rfl | ⟨w, hw, hxw⟩
    · exact h
    · have hh := s.head_of_mem_parts hw
      have hpart := h.parts ((t.head_of_mem_parts hw).trans hh.symm) w (by rw [hh]; exact hw)
      exact ih (sizeOf w) (hn ▸ Value.sizeOf_lt_of_mem_parts hw) hpart rfl x hxw

/-! ## Where a value leads -/

theorem mem_of_mem_reached {unseen pending : List Nat} (h : x ∈ s.reached unseen pending) :
    x ∈ unseen := by
  fun_induction s.reached unseen pending with
  | case1 => cases h
  | case2 unseen ref pending hmem ih =>
    rcases List.mem_cons.1 h with rfl | h
    · exact hmem
    · exact List.mem_of_mem_erase (ih h)
  | case3 unseen ref pending _ ih => exact ih h

theorem lt_of_mem_reachedBy (h : x ∈ s.reachedBy v) : x < s.size :=
  List.mem_range.1 (mem_of_mem_reached h)

theorem refs_of_size_le (h : s.size ≤ x) : (s.cell x).refs = [] := by
  have hnone : s.cells[x]? = none := List.getElem?_eq_none h
  simp [cell, hnone, Value.refs]

/-- Cells that have what the value refers to, and what they refer to, have all that it leads to. A
reference to a cell that is not there leads nowhere. -/
theorem forall_mem_reachedBy {p : Nat → Prop} (start : ∀ x ∈ v.refs, x < s.size → p x)
    (closed : ∀ x, p x → ∀ y ∈ (s.cell x).refs, y < s.size → p y) :
    ∀ x ∈ s.reachedBy v, p x := by
  intro x hx
  have hlt := lt_of_mem_reachedBy hx
  have either : ∀ x ∈ s.reachedBy v, s.size ≤ x ∨ p x := by
    refine forall_mem_reached (fun x hx y hy => ?_) fun x hx => ?_
    · rcases hx with hx | hx
      · rw [refs_of_size_le hx] at hy
        cases hy
      · rcases Nat.lt_or_ge y s.size with hlt | hge
        · exact Or.inr (closed x hx y hy hlt)
        · exact Or.inl hge
    · rcases Nat.lt_or_ge x s.size with hlt | hge
      · exact Or.inr (start x hx hlt)
      · exact Or.inl hge
  exact (either x hx).resolve_left (Nat.not_le_of_lt hlt)

theorem mem_reachedBy_of_refs (hx : x ∈ v.refs) (h : x < s.size) : x ∈ s.reachedBy v :=
  mem_reached hx (List.mem_range.2 h)

theorem mem_reachedBy_of_cell (hx : x ∈ s.reachedBy v) (hy : y ∈ (s.cell x).refs)
    (h : y < s.size) : y ∈ s.reachedBy v :=
  mem_reached_of_refs hx hy (List.mem_range.2 h)

theorem mem_refs_head (hs : s.proper = true) (hy : y ∈ (s.head (.shared x)).refs) :
    ∃ w ∈ (s.head (.shared x)).parts, y ∈ w.refs := by
  rcases Value.mem_refs_iff.1 hy with h | h
  · exact absurd h (cell_ne_shared hs x y)
  · exact h

/-- **A value leads to a cell** if it is a reference to it, or one of its parts leads there. -/
theorem mem_reachedBy_iff (hs : s.proper = true) (hy : y < s.size) :
    y ∈ s.reachedBy v ↔ v = .shared y ∨ ∃ w ∈ (s.head v).parts, y ∈ s.reachedBy w := by
  constructor
  · intro h
    refine forall_mem_reachedBy (p := fun y => v = .shared y ∨
      ∃ w ∈ (s.head v).parts, y ∈ s.reachedBy w) (fun x hx hlt => ?_) (fun x hx z hz hlt => ?_) y h
    · rcases Value.mem_refs_iff.1 hx with rfl | ⟨w, hw, hxw⟩
      · exact Or.inl rfl
      · have hh := s.head_of_mem_parts hw
        exact Or.inr ⟨w, by rw [hh]; exact hw, mem_reachedBy_of_refs hxw hlt⟩
    · rcases hx with rfl | ⟨w, hw, hxw⟩
      · obtain ⟨w, hw, hzw⟩ := mem_refs_head hs hz
        exact Or.inr ⟨w, hw, mem_reachedBy_of_refs hzw hlt⟩
      · exact Or.inr ⟨w, hw, mem_reachedBy_of_cell hxw hz hlt⟩
  · rintro (rfl | ⟨w, hw, h⟩)
    · exact mem_reachedBy_of_refs (by simp [Value.refs]) hy
    · refine forall_mem_reachedBy (fun x hx hlt => ?_)
        (fun x hx z hz hlt => mem_reachedBy_of_cell hx hz hlt) y h
      have hxv : x ∈ (s.head v).refs := Value.mem_refs_iff.2 (Or.inr ⟨w, hw, hx⟩)
      cases v with
      | shared r =>
        have hr : r < s.size := by
          refine Nat.lt_of_not_le fun hge => ?_
          rw [show s.head (.shared r) = s.cell r from rfl, refs_of_size_le hge] at hxv
          cases hxv
        exact mem_reachedBy_of_cell (mem_reachedBy_of_refs (by simp [Value.refs]) hr) hxv hlt
      | _ => exact mem_reachedBy_of_refs hxv hlt

/-! ## A change -/

/-- Some cells refer to each other only. If the changed cell is not one of them, or reads the same,
then whatever refers to these cells only reads the same. -/
theorem alikeIn_write_of_closed {content : Value} {q : Nat → Prop}
    (closed : ∀ x, q x → x ≠ y → ∀ z ∈ (s.cell x).refs, q z)
    (unseen : q y → s.AlikeIn (s.write (.shared y) content) (.shared y) (.shared y))
    (hv : ∀ x ∈ v.refs, q x) : s.AlikeIn (s.write (.shared y) content) v v := by
  have all : ∀ depth (v : Value), (∀ x ∈ v.refs, q x) →
      (s.write (.shared y) content).layers depth v = s.layers depth v := by
    intro depth
    induction depth with
    | zero => exact fun v _ => rfl
    | succ depth ih =>
      intro v hv
      have inside : (∀ x ∈ (s.head v).refs, q x) →
          ∀ w ∈ (s.head v).parts, (s.write (.shared y) content).layers depth w =
            s.layers depth w := fun h w hw =>
        ih w fun x hx => h x (Value.mem_refs_iff.2 (Or.inr ⟨w, hw, hx⟩))
      cases v with
      | shared x =>
        have hx : q x := hv x (by simp [Value.refs])
        by_cases hxy : x = y
        · subst hxy
          exact (unseen hx (depth + 1)).symm
        · have hcell : (s.write (.shared y) content).cell x = s.cell x :=
            s.cell_write_of_ne fun h => hxy (Value.shared.inj h).symm
          exact layers_succ_congr hcell (inside (closed x hx hxy))
      | _ => exact layers_succ_congr rfl (inside hv)
  exact fun depth => (all depth v hv).symm

/-- **What a change changes.** A value reads the same after a cell has been written to if and only
if it does not lead to the cell, or the cell reads the same. -/
theorem alikeIn_write_iff (hs : s.proper = true) {content : Value} :
    s.AlikeIn (s.write (.shared y) content) v v ↔
      y ∉ s.reachedBy v ∨ s.AlikeIn (s.write (.shared y) content) (.shared y) (.shared y) := by
  constructor
  · intro h
    refine or_iff_not_imp_left.2 fun hy => ?_
    -- what the value leads to reads the same, until the cell itself is met
    have met : ∀ x ∈ s.reachedBy v,
        s.AlikeIn (s.write (.shared y) content) (.shared x) (.shared x) ∨
          s.AlikeIn (s.write (.shared y) content) (.shared y) (.shared y) := by
      refine forall_mem_reachedBy (fun x hx _ => Or.inl (h.refs x hx)) fun x hx z hz _ => ?_
      rcases hx with hx | hx
      · by_cases hxy : x = y
        · exact Or.inr (hxy ▸ hx)
        · have hcell : (s.write (.shared y) content).cell x = s.cell x :=
            s.cell_write_of_ne fun h => hxy (Value.shared.inj h).symm
          obtain ⟨w, hw, hzw⟩ := mem_refs_head hs hz
          exact Or.inl ((hx.parts hcell w hw).refs z hzw)
      · exact Or.inr hx
    exact (met y (not_not.1 hy)).elim id id
  · rintro (hy | h)
    · by_cases hlt : y < s.size
      · refine alikeIn_write_of_closed (q := fun x => x ∈ s.reachedBy v ∨ s.size ≤ x) ?_ ?_ ?_
        · rintro x (hx | hx) - z hz
          · rcases Nat.lt_or_ge z s.size with hz' | hz'
            · exact Or.inl (mem_reachedBy_of_cell hx hz hz')
            · exact Or.inr hz'
          · rw [refs_of_size_le hx] at hz
            cases hz
        · rintro (hin | hin)
          · exact absurd hin hy
          · omega
        · intro x hx
          rcases Nat.lt_or_ge x s.size with hx' | hx'
          · exact Or.inl (mem_reachedBy_of_refs hx hx')
          · exact Or.inr hx'
      · -- there is no such cell
        have hsame : s.write (.shared y) content = s := by
          have hge : s.cells.length ≤ y := Nat.le_of_not_lt hlt
          simp [write, List.set_eq_of_length_le hge]
        rw [hsame]
        exact fun depth => rfl
    · exact alikeIn_write_of_closed (q := fun _ => True) (fun _ _ _ _ _ => trivial) (fun _ => h)
        fun _ _ => trivial

end

end Store

end Reassembly
