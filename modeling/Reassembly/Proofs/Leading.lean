import Mathlib.Data.List.Perm.Subperm
import Reassembly.Proofs.Bench
import Reassembly.Proofs.Growth

/-!
# What leads to a cell

Somebody writes to some cells of a store again and again. What leads to one of these cells may say
something else each time; all else does not change. So these cells and what leads to them are what
has to be set aside.

* `Store.leading`: the cells that lead to given ones.
* `sound_leading`: the other cells lead to each other only.
* `later_leading`: a store is a later one if only the given cells have changed.
* `sound_all_of_frame`: when a store is sound though nothing is set aside.
* `growBy_clear`: a list grows by a batch that does not lead to the list.
-/
namespace Reassembly

namespace Store

/-- Adds to some cells, one by one, what refers to one of them. -/
def spread (s : Store) : Nat → List Nat → List Nat
  | 0, found => found
  | n + 1, found =>
    match (List.range s.size).find? fun y =>
      !found.contains y && (s.cell y).refs.any found.contains with
    | none => found
    | some y => s.spread n (y :: found)

/-- The cells that lead to some cell of a list. Those of the list are among them. -/
def leading (s : Store) (xs : List Nat) : List Nat :=
  s.spread s.size ((List.range s.size).filter xs.contains)

section
variable {s t : Store} {aside more xs ys : List Nat}

theorem of_find {found : List Nat} {y : Nat}
    (h : (List.range s.size).find? (fun y =>
      !found.contains y && (s.cell y).refs.any found.contains) = some y) :
    y < s.size ∧ y ∉ found ∧ ∃ z ∈ (s.cell y).refs, z ∈ found := by
  have hmem := List.mem_of_find?_eq_some h
  have htest := List.find?_some h
  simp only [Bool.and_eq_true, Bool.not_eq_true', List.any_eq_true, List.contains_iff_mem,
    ← Bool.not_eq_true] at htest
  exact ⟨List.mem_range.1 hmem, htest.1, htest.2⟩

theorem subset_spread (n : Nat) (found : List Nat) : found ⊆ s.spread n found := by
  fun_induction spread s n found with
  | case1 => exact fun x hx => hx
  | case2 => exact fun x hx => hx
  | case3 n found y _ ih => exact fun x hx => ih (List.mem_cons_of_mem _ hx)

theorem spread_subset (closed : ∀ y, y < s.size → ∀ z ∈ (s.cell y).refs, z ∈ aside → y ∈ aside)
    (n : Nat) {found : List Nat} (hf : found ⊆ aside) : s.spread n found ⊆ aside := by
  fun_induction spread s n found with
  | case1 => exact hf
  | case2 => exact hf
  | case3 n found y hy ih =>
    obtain ⟨hlt, -, z, hz, hin⟩ := of_find hy
    exact ih (List.cons_subset.2 ⟨closed y hlt z hz (hf hin), hf⟩)

theorem spread_closed (n : Nat) {found : List Nat} (hn : found.Nodup)
    (hf : found ⊆ List.range s.size) (hlen : s.size ≤ found.length + n) {y z : Nat}
    (hy : y < s.size) (hz : z ∈ (s.cell y).refs) (hin : z ∈ s.spread n found) :
    y ∈ s.spread n found := by
  fun_induction spread s n found with
  | case1 found =>
    have hperm := (hn.subperm hf).perm_of_length_le (by simpa using hlen)
    exact hperm.mem_iff.2 (List.mem_range.2 hy)
  | case2 n found hnone =>
    have hrefs := List.find?_eq_none.1 hnone y (List.mem_range.2 hy)
    by_contra hnot
    simp only [Bool.and_eq_true, Bool.not_eq_true', List.any_eq_true, List.contains_iff_mem,
      ← Bool.not_eq_true, not_and, not_exists] at hrefs
    exact hrefs hnot z hz hin
  | case3 n found x hx ih =>
    obtain ⟨hlt, hnot, -⟩ := of_find hx
    refine ih (List.nodup_cons.2 ⟨hnot, hn⟩) ?_ ?_ hin
    · exact List.cons_subset.2 ⟨List.mem_range.2 hlt, hf⟩
    · rw [List.length_cons]
      omega

theorem lt_of_mem_leading {y : Nat} (hy : y ∈ s.leading xs) : y < s.size := by
  have hsub : s.leading xs ⊆ List.range s.size :=
    spread_subset (fun y hy _ _ _ => List.mem_range.2 hy) _ List.filter_sublist.subset
  exact List.mem_range.1 (hsub hy)

theorem mem_leading_of_mem {x : Nat} (hx : x ∈ xs) (hlt : x < s.size) : x ∈ s.leading xs :=
  subset_spread _ _ (by simp [hlt, hx])

/-- **What does not lead to some cells** refers only to what does not. -/
theorem sound_leading (hs : s.Sound []) (xs : List Nat) : s.Sound (s.leading xs) where
  inside := fun y => lt_of_mem_leading
  shareable := fun y hy _ => hs.shareable y hy List.not_mem_nil
  closed := by
    intro y hy hn z hz
    refine ⟨(hs.closed y hy List.not_mem_nil z hz).1, fun hlead => hn ?_⟩
    exact spread_closed s.size (List.nodup_range.filter _) List.filter_sublist.subset
      (Nat.le_add_left _ _) hy hz hlead

theorem mem_of_mem_leading (hs : s.Sound aside) (hsub : ∀ x ∈ xs, x < s.size → x ∈ aside) {y : Nat}
    (hy : y ∈ s.leading xs) : y ∈ aside := by
  refine spread_subset (fun y hy z hz hin => ?_) _ (fun x hx => ?_) hy
  · by_contra hn
    exact (hs.closed y hy hn z hz).2 hin
  · obtain ⟨hlt, hx⟩ := List.mem_filter.1 hx
    exact hsub x (by simpa using hx) (List.mem_range.1 hlt)

theorem Frame.mono (h : s.Frame aside t) (hsub : ∀ x ∈ aside, x < s.size → x ∈ more) :
    s.Frame more t where
  size := h.size
  cell := fun x hx hn => h.cell x hx fun ha => hn (hsub x ha hx)

theorem Frame.sound_new (hs : s.Sound aside) (ht : t.Sound []) (hf : s.Frame aside t) :
    t.Sound (aside ++ (List.range t.size).filter (s.size ≤ ·)) := by
  have old : ∀ y, y < t.size → y ∉ aside ++ (List.range t.size).filter (s.size ≤ ·) →
      y < s.size ∧ y ∉ aside := by
    intro y hy hn
    simp only [List.mem_append, List.mem_filter, List.mem_range, decide_eq_true_eq, not_or,
      not_and] at hn
    exact ⟨Nat.lt_of_not_le (hn.2 hy), hn.1⟩
  refine ⟨fun y hy => ?_, fun y hy _ => ht.shareable y hy List.not_mem_nil, fun y hy hn z hz => ?_⟩
  · rcases List.mem_append.1 hy with hy | hy
    · exact Nat.lt_of_lt_of_le (hs.inside y hy) hf.size
    · exact List.mem_range.1 (List.mem_filter.1 hy).1
  · obtain ⟨hlt, ha⟩ := old y hy hn
    rw [hf.cell y hlt ha] at hz
    obtain ⟨hzlt, hza⟩ := hs.closed y hlt ha z hz
    refine ⟨Nat.lt_of_lt_of_le hzlt hf.size, fun hin => ?_⟩
    rcases List.mem_append.1 hin with hin | hin
    · exact hza hin
    · have := (List.mem_filter.1 hin).2
      simp only [decide_eq_true_eq] at this
      omega

/-- **If only given cells have changed**, the store is a later one, also when other cells are given
from now on, as long as these are new. -/
theorem later_leading (hs : s.Sound []) (ht : t.Sound []) (hf : s.Frame xs t)
    (fresh : ∀ y ∈ ys, y ∈ xs ∨ s.size ≤ y) : s.Later (s.leading xs) t (t.leading ys) := by
  have frame : s.Frame (s.leading xs) t := hf.mono fun _ => mem_leading_of_mem
  refine ⟨frame, sound_leading ht ys, fun y hy => ?_⟩
  have hin := mem_of_mem_leading (frame.sound_new (sound_leading hs xs) ht) (fun x hx hlt => ?_) hy
  · rcases List.mem_append.1 hin with hold | hnew
    · exact .inl hold
    · exact .inr (by simpa using (List.mem_filter.1 hnew).2)
  · rw [List.mem_append, List.mem_filter, List.mem_range, decide_eq_true_eq]
    by_cases hold : x < s.size
    · refine .inl (mem_leading_of_mem ((fresh x hx).resolve_right ?_) hold)
      exact Nat.not_le_of_lt hold
    · exact .inr ⟨hlt, Nat.le_of_not_lt hold⟩

theorem sound_all_of_frame (hs : s.Sound []) (ht : t.Sound aside) (hf : s.Frame xs t)
    (inside : ∀ y ∈ aside, y < s.size)
    (changed : ∀ x ∈ xs, x ∈ aside → (t.cell x).isShareable = true ∧ t.Holds [] (t.cell x)) :
    t.Sound [] := by
  refine ht.all fun y hy => ?_
  by_cases hx : y ∈ xs
  · exact changed y hx hy
  · have hlt := inside y hy
    rw [hf.cell y hlt hx]
    refine ⟨hs.shareable y hlt List.not_mem_nil, fun z hz => ⟨?_, List.not_mem_nil⟩⟩
    exact Nat.lt_of_lt_of_le (hs.closed y hlt List.not_mem_nil z hz).1 hf.size

/-- **A list grows** by a batch that does not lead to it. -/
theorem growBy_clear (hs : s.Sound aside) {ref : Nat} (href : ref ∈ aside) {old batch : List Value}
    (hl : s.cell ref = .list old) (hb : ∀ v ∈ batch, s.Holds aside v) :
    ∃ t got, s.growBy (.shared ref) (.ok batch) = (t, .ok .null) ∧
      t.cell ref = .list (old ++ got) ∧ s.Frame [ref] t ∧ t.Sound aside ∧
      (∀ v ∈ got, t.Holds aside v) ∧ List.Forall₂ (s.AlikeIn t) batch got := by
  have hcarry := carries_internAll hs batch hb
  let t := (s.internAll batch).1.write (.shared ref) (.list (old ++ (s.internAll batch).2))
  have hwrite : (s.internAll batch).1.Frame aside t := .of_write href _
  have hgot := holds_list.1 hcarry.holds
  obtain ⟨others, heq, hparts⟩ := hcarry.alike.list rfl
  cases heq
  have hin : ref < (s.internAll batch).1.size :=
    Nat.lt_of_lt_of_le (hs.inside ref href) hcarry.frame.size
  refine ⟨t, (s.internAll batch).2, growBy_list hl batch, cell_write_self _ hin, ?_,
    hcarry.sound.write href _, fun v hv => hwrite.holds (hgot v hv), ?_⟩
  · exact (Frame.of_extends _ hcarry.grows).trans (.of_write List.mem_cons_self _)
  · rw [List.forall₂_iff_get] at hparts ⊢
    refine ⟨hparts.1, fun i hi hj => (hparts.2 i hi hj).trans ?_⟩
    exact hwrite.alike hcarry.sound (hgot _ (List.get_mem _ ⟨i, hj⟩))

end

end Store

end Reassembly
