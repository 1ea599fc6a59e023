import Reassembly.Proofs.Regions
import Reassembly.Response.Fold

/-!
# Values that are put into a store

Interning gives the parts of a value cells, copying gives the cells of a value new places, and
settling does both. Each leaves the store sound and grown at its end, and the value that comes out
is like the one that went in.

* `Store.Carries`: what all three have in common.
* `carries_intern`: interning; one case for each shape of a value.
* `mem_reached`, `mem_reached_of_refs`: the cells that a copy is made of are closed.
* `layers_bind`: a value whose cells have moved is like it was; `carries_copy`: copying.
* `carries_settleResponse`: settling a response.
-/
namespace Reassembly

namespace Store

/-- Whatever `v` is in `s`, `w` is in the larger store `t`, and both are sound. -/
structure Carries (aside : List Nat) (s : Store) (v : Value) (t : Store) (w : Value) : Prop where
  grows : s.Extends t
  sound : t.Sound aside
  holds : t.Holds aside w
  alike : s.AlikeIn t v w

section
variable {s t u : Store} {aside : List Nat} {v w x : Value}

theorem Carries.refl (hs : s.Sound aside) (hv : s.Holds aside v) : s.Carries aside v s v :=
  ⟨Extends.refl s, hs, hv, fun _ => rfl⟩

theorem Carries.trans (h : s.Carries aside v t w) (k : t.Carries aside w u x) :
    s.Carries aside v u x :=
  ⟨h.grows.trans k.grows, k.sound, k.holds, h.alike.trans k.alike⟩

theorem Carries.frame (h : s.Carries aside v t w) : s.Frame aside t := .of_extends aside h.grows

/-! ## One cell more -/

theorem size_push (s : Store) (v : Value) : (s.push v).1.size = s.size + 1 := by
  simp [push, size]

theorem cell_push_self (s : Store) (v : Value) : (s.push v).1.cell s.size = v := by
  simp [push, cell, size]

theorem Sound.push (hs : s.Sound aside) (hv : s.Holds aside v) (hn : v.isShareable = true) :
    (s.push v).1.Sound aside := by
  have hf : s.Frame aside (s.push v).1 := .of_extends aside (extends_push s v)
  have split : ∀ y, y < (s.push v).1.size → y ∉ aside →
      (y < s.size ∧ (s.push v).1.cell y = s.cell y) ∨ (s.push v).1.cell y = v := by
    intro y hy ha
    rw [size_push] at hy
    by_cases hlt : y < s.size
    · exact Or.inl ⟨hlt, hf.cell y hlt ha⟩
    · have hy : y = s.size := by omega
      exact Or.inr (by rw [hy, cell_push_self])
  refine ⟨fun y hy => Nat.lt_of_lt_of_le (hs.inside y hy) hf.size, ?_, ?_⟩
  · intro y hy ha
    rcases split y hy ha with ⟨hlt, hc⟩ | hc
    · rw [hc]
      exact hs.shareable y hlt ha
    · rw [hc]
      exact hn
  · intro y hy ha
    rcases split y hy ha with ⟨hlt, hc⟩ | hc
    · rw [hc]
      exact hf.holds (hs.closed y hlt ha)
    · rw [hc]
      exact hf.holds hv

theorem Carries.push (h : s.Carries aside v t w) (hn : w.isShareable = true) :
    s.Carries aside v (t.push w).1 (t.push w).2 := by
  have hf : t.Frame aside (t.push w).1 := .of_extends aside (extends_push t w)
  have hnew : t.size ∉ aside := fun hm => Nat.lt_irrefl _ (h.sound.inside _ hm)
  have hhead : (t.push w).1.head (t.push w).2 = (t.push w).1.head w := by
    have hw : (t.push w).1.head w = w := by cases w <;> first | rfl | cases hn
    rw [hw]
    exact cell_push_self t w
  refine ⟨h.grows.trans (extends_push t w), h.sound.push h.holds hn, ?_, ?_⟩
  · refine holds_shared.2 ⟨?_, hnew⟩
    rw [size_push]
    omega
  · have hlike : (t.push w).1.Alike w (t.push w).2 := alike_of_head hhead.symm
    exact (h.alike.trans (hf.alike h.sound h.holds)).trans hlike

/-! ## Parts -/

theorem Carries.cons {vs ws : List Value} (hs : s.Sound aside)
    (hvs : ∀ x ∈ vs, s.Holds aside x) (h : s.Carries aside v t w)
    (k : t.Carries aside (.list vs) u (.list ws)) :
    s.Carries aside (.list (v :: vs)) u (.list (w :: ws)) := by
  have hlist : s.AlikeIn u (.list vs) (.list ws) :=
    (h.frame.alike hs (holds_list.2 hvs)).trans k.alike
  obtain ⟨others, heq, hparts⟩ := hlist.list rfl
  cases heq
  have hfirst : s.AlikeIn u v w := h.alike.trans (k.frame.alike h.sound h.holds)
  refine ⟨h.grows.trans k.grows, k.sound, ?_, alikeIn_list rfl rfl (.cons hfirst hparts)⟩
  exact holds_list.2 (List.forall_mem_cons.2 ⟨k.frame.holds h.holds, holds_list.1 k.holds⟩)

theorem Carries.consEntry {key : Key} {es fs : Entries Value} (hs : s.Sound aside)
    (hes : ∀ e ∈ es, s.Holds aside e.2) (h : s.Carries aside v t w)
    (k : t.Carries aside (.map es) u (.map fs)) :
    s.Carries aside (.map ((key, v) :: es)) u (.map ((key, w) :: fs)) := by
  have hmap : s.AlikeIn u (.map es) (.map fs) :=
    (h.frame.alike hs (holds_map.2 hes)).trans k.alike
  have hfirst : s.AlikeIn u v w := h.alike.trans (k.frame.alike h.sound h.holds)
  refine ⟨h.grows.trans k.grows, k.sound, ?_, fun depth => ?_⟩
  · exact holds_map.2 (List.forall_mem_cons.2 ⟨k.frame.holds h.holds, holds_map.1 k.holds⟩)
  · cases depth with
    | zero => rfl
    | succ depth =>
      have hd := hmap (depth + 1)
      simp only [layers, head, Value.map.injEq] at hd ⊢
      rw [List.map_cons, List.map_cons, hd, hfirst depth]

theorem Carries.object {k : Kind} {vs ws : List Value}
    (h : s.Carries aside (.list vs) t (.list ws)) :
    s.Carries aside (.object k vs) t (.object k ws) := by
  obtain ⟨others, heq, hparts⟩ := h.alike.list rfl
  cases heq
  exact ⟨h.grows, h.sound, holds_object.2 (holds_list.1 h.holds), alikeIn_object rfl rfl hparts⟩

theorem Carries.tuple {vs ws : List Value} (h : s.Carries aside (.list vs) t (.list ws)) :
    s.Carries aside (.tuple vs) t (.tuple ws) := by
  refine ⟨h.grows, h.sound, holds_tuple.2 (holds_list.1 h.holds), fun depth => ?_⟩
  cases depth with
  | zero => rfl
  | succ depth =>
    have hd := h.alike (depth + 1)
    simp only [layers, head, Value.list.injEq] at hd ⊢
    rw [hd]

end

/-! ## Interning -/

section
variable {aside : List Nat}

mutual
/-- **Interning** carries a value over. -/
theorem carries_intern {s : Store} (hs : s.Sound aside) : (v : Value) → s.Holds aside v →
    s.Carries aside v (s.intern v).1 (s.intern v).2
  | .list items, hv => by
    simp only [intern]
    exact (carries_internAll hs items (holds_list.1 hv)).push rfl
  | .tuple items, hv => by
    simp only [intern]
    exact (carries_internAll hs items (holds_tuple.1 hv)).tuple.push rfl
  | .map entries, hv => by
    simp only [intern]
    exact (carries_internEntries hs entries (holds_map.1 hv)).push rfl
  | .object kind fields, hv => by
    simp only [intern]
    split
    · exact (carries_internFirst hs fields (holds_object.1 hv)).object.push rfl
    · exact (carries_internAll hs fields (holds_object.1 hv)).object.push rfl
  | .time _, hv => (Carries.refl hs hv).push rfl
  | .shared _, hv | .null, hv | .bool _, hv | .int _, hv | .float _ _, hv | .text _, hv
  | .encoded _, hv => Carries.refl hs hv

theorem carries_internFirst {s : Store} (hs : s.Sound aside) :
    (vs : List Value) → (∀ v ∈ vs, s.Holds aside v) →
      s.Carries aside (.list vs) (s.internFirst vs).1 (.list (s.internFirst vs).2)
  | [], _ => Carries.refl hs (holds_list.2 (by simp))
  | v :: vs, h => by
    obtain ⟨hv, hvs⟩ := List.forall_mem_cons.1 h
    have hfirst := carries_intern hs v hv
    refine Carries.cons hs hvs hfirst (Carries.refl hfirst.sound ?_)
    exact hfirst.frame.holds (holds_list.2 hvs)

theorem carries_internAll {s : Store} (hs : s.Sound aside) :
    (vs : List Value) → (∀ v ∈ vs, s.Holds aside v) →
      s.Carries aside (.list vs) (s.internAll vs).1 (.list (s.internAll vs).2)
  | [], _ => Carries.refl hs (holds_list.2 (by simp))
  | v :: vs, h => by
    obtain ⟨hv, hvs⟩ := List.forall_mem_cons.1 h
    have hfirst := carries_intern hs v hv
    simp only [internAll]
    refine Carries.cons hs hvs hfirst (carries_internAll hfirst.sound vs ?_)
    exact fun x hx => hfirst.frame.holds (hvs x hx)

theorem carries_internEntries {s : Store} (hs : s.Sound aside) :
    (es : Entries Value) → (∀ e ∈ es, s.Holds aside e.2) →
      s.Carries aside (.map es) (s.internEntries es).1 (.map (s.internEntries es).2)
  | [], _ => Carries.refl hs (holds_map.2 (by simp))
  | (key, v) :: es, h => by
    obtain ⟨hv, hes⟩ := List.forall_mem_cons.1 h
    have hfirst := carries_intern hs v hv
    simp only [internEntries]
    refine Carries.consEntry hs hes hfirst (carries_internEntries hfirst.sound es ?_)
    exact fun e he => hfirst.frame.holds (hes e he)
end

end

/-! ## The cells that a value leads to -/

section
variable {s : Store}

theorem mem_reached {unseen pending : List Nat} {x : Nat} (hp : x ∈ pending) (hu : x ∈ unseen) :
    x ∈ s.reached unseen pending := by
  fun_induction s.reached unseen pending with
  | case1 => cases hp
  | case2 unseen ref pending _ ih =>
    by_cases hx : x = ref
    · rw [hx]
      exact List.mem_cons_self
    · have hlater : x ∈ pending := (List.mem_cons.1 hp).resolve_left hx
      exact List.mem_cons_of_mem _
        (ih (List.mem_append_right _ hlater) ((List.mem_erase_of_ne hx).2 hu))
  | case3 unseen ref pending hseen ih =>
    have hx : x ≠ ref := by
      rintro rfl
      exact hseen hu
    exact ih ((List.mem_cons.1 hp).resolve_left hx) hu

theorem mem_reached_of_refs {unseen pending : List Nat} {x y : Nat}
    (hx : x ∈ s.reached unseen pending) (hy : y ∈ (s.cell x).refs) (hu : y ∈ unseen) :
    y ∈ s.reached unseen pending := by
  fun_induction s.reached unseen pending with
  | case1 => cases hx
  | case2 unseen ref pending _ ih =>
    by_cases hyr : y = ref
    · rw [hyr]
      exact List.mem_cons_self
    · have hlater : y ∈ unseen.erase ref := (List.mem_erase_of_ne hyr).2 hu
      refine List.mem_cons_of_mem _ ?_
      rcases List.mem_cons.1 hx with rfl | hx
      · exact mem_reached (List.mem_append_left _ hy) hlater
      · exact ih hx hlater
  | case3 unseen ref pending _ ih => exact ih hx hu

theorem forall_mem_reached {p : Nat → Prop} (closed : ∀ x, p x → ∀ y ∈ (s.cell x).refs, p y)
    {unseen pending : List Nat} (hp : ∀ x ∈ pending, p x) :
    ∀ x ∈ s.reached unseen pending, p x := by
  fun_induction s.reached unseen pending with
  | case1 => exact fun x hx => by cases hx
  | case2 unseen ref pending _ ih =>
    obtain ⟨href, hpending⟩ := List.forall_mem_cons.1 hp
    refine List.forall_mem_cons.2 ⟨href, ih fun x hx => ?_⟩
    rcases List.mem_append.1 hx with hx | hx
    · exact closed ref href x hx
    · exact hpending x hx
  | case3 unseen ref pending _ ih => exact ih (List.forall_mem_cons.1 hp).2

end

end Store

namespace Value

mutual
theorem mem_refs_bind (f : Nat → Value) {x : Nat} :
    (v : Value) → (x ∈ (v.bind f).refs ↔ ∃ r ∈ v.refs, x ∈ (f r).refs)
  | .list items => by simp only [bind, refs, mem_refsAll_bindAll f items]
  | .tuple items => by simp only [bind, refs, mem_refsAll_bindAll f items]
  | .map entries => by simp only [bind, refs, mem_refsEntries_bindEntries f entries]
  | .object _ fields => by simp only [bind, refs, mem_refsAll_bindAll f fields]
  | .shared _ => by simp [bind, refs]
  | .null | .bool _ | .int _ | .float _ _ | .text _ | .encoded _ | .time _ => by simp [bind, refs]

theorem mem_refsAll_bindAll (f : Nat → Value) {x : Nat} :
    (vs : List Value) → (x ∈ refsAll (bindAll f vs) ↔ ∃ r ∈ refsAll vs, x ∈ (f r).refs)
  | [] => by simp [bindAll, refsAll]
  | v :: vs => by
    simp [bindAll, refsAll, mem_refs_bind f v, mem_refsAll_bindAll f vs, or_and_right, exists_or]

theorem mem_refsEntries_bindEntries (f : Nat → Value) {x : Nat} :
    (es : List (Key × Value)) →
      (x ∈ refsEntries (bindEntries f es) ↔ ∃ r ∈ refsEntries es, x ∈ (f r).refs)
  | [] => by simp [bindEntries, refsEntries]
  | (_, v) :: es => by
    simp [bindEntries, refsEntries, mem_refs_bind f v, mem_refsEntries_bindEntries f es,
      or_and_right, exists_or]
end

theorem isShareable_bind {f : Nat → Value} {v : Value} (h : v.isShareable = true) :
    (v.bind f).isShareable = true := by
  cases v <;> first | rfl | cases h

end Value

namespace Store

/-! ## Copying -/

section
variable {s t : Store} {aside : List Nat} {v : Value}

/-- **A value whose cells have moved** is like it was: every reference has become one to a cell with
the same content, in which the references have moved likewise. -/
theorem layers_bind {f : Nat → Value} {p : Nat → Prop}
    (closed : ∀ x, p x → ∀ y ∈ (s.cell x).refs, p y)
    (shareable : ∀ x, p x → (s.cell x).isShareable = true)
    (moved : ∀ x, p x → t.head (f x) = (s.cell x).bind f) (depth : Nat) :
    ∀ v : Value, (∀ x ∈ v.refs, p x) → t.layers depth (v.bind f) = s.layers depth v := by
  induction depth with
  | zero => exact fun v _ => rfl
  | succ depth ih =>
    intro v hv
    have hhead : t.head (v.bind f) = (s.head v).bind f := by
      cases v with
      | shared x => exact moved x (hv x (by simp [Value.refs]))
      | _ => rfl
    have hrefs : ∀ x ∈ (s.head v).refs, p x := by
      cases v with
      | shared x => exact closed x (hv x (by simp [Value.refs]))
      | _ => exact hv
    have all : ∀ vs : List Value, (∀ x ∈ Value.refsAll vs, p x) →
        (Value.bindAll f vs).map (t.layers depth) = vs.map (s.layers depth) := by
      intro vs hvs
      rw [Value.bindAll_eq_map, List.map_map]
      refine List.map_congr_left fun w hw => ih w fun x hx => hvs x ?_
      exact Value.mem_refsAll.2 ⟨w, hw, hx⟩
    simp only [layers, hhead]
    cases hy : s.head v with
    | list items =>
      rw [hy] at hrefs
      simp only [Value.bind, all items hrefs]
    | tuple items =>
      rw [hy] at hrefs
      simp only [Value.bind, all items hrefs]
    | object kind fields =>
      rw [hy] at hrefs
      simp only [Value.bind, all fields hrefs]
    | map entries =>
      rw [hy] at hrefs
      simp only [Value.bind, Value.bindEntries_eq_map, List.map_map, Value.map.injEq]
      refine List.map_congr_left fun e he => ?_
      have hpart := ih e.2 fun x hx => hrefs x (Value.mem_refsEntries.2 ⟨e, he, hx⟩)
      simp only [Function.comp_apply, hpart]
    | shared x =>
      cases v with
      | shared y =>
        have hc := shareable y (hv y (by simp [Value.refs]))
        rw [show s.cell y = .shared x from hy] at hc
        cases hc
      | _ => cases hy
    | _ => rfl

/-- The cells that a copy is made of: they are in the region, and there is a place for whatever they
refer to. -/
theorem reachedBy_region (hs : s.Sound aside) (hv : s.Holds aside v) :
    (∀ x ∈ s.reachedBy v, x < s.size ∧ x ∉ aside) ∧ (∀ x ∈ v.refs, x ∈ s.reachedBy v) ∧
      ∀ x ∈ s.reachedBy v, ∀ y ∈ (s.cell x).refs, y ∈ s.reachedBy v := by
  have inside : ∀ x ∈ s.reachedBy v, x < s.size ∧ x ∉ aside :=
    forall_mem_reached (fun x hx => hs.closed x hx.1 hx.2) hv
  refine ⟨inside, ?_, ?_⟩
  · intro x hx
    exact mem_reached hx (List.mem_range.2 (hv x hx).1)
  · intro x hx y hy
    have hin := inside x hx
    exact mem_reached_of_refs hx hy (List.mem_range.2 (hs.closed x hin.1 hin.2 y hy).1)

theorem size_copy (s : Store) (v : Value) :
    (s.copy v).1.size = s.size + (s.reachedBy v).length := by
  simp [copy, size]

theorem cell_copy (s : Store) (v : Value) {i : Nat} (hi : i < (s.reachedBy v).length) :
    (s.copy v).1.cell (s.size + i) =
      (s.cell (s.reachedBy v)[i]).bind (s.newPlace (s.reachedBy v)) := by
  simp [copy, cell, size, hi]

/-- **Copying** carries a value over. -/
theorem carries_copy (hs : s.Sound aside) (hv : s.Holds aside v) :
    s.Carries aside v (s.copy v).1 (s.copy v).2 := by
  obtain ⟨inside, start, closed⟩ := reachedBy_region hs hv
  have hf : s.Frame aside (s.copy v).1 := .of_extends aside (s.extends_copy v)
  have places : ∀ w : Value, (∀ x ∈ w.refs, x ∈ s.reachedBy v) →
      (s.copy v).1.Holds aside (w.bind (s.newPlace (s.reachedBy v))) := by
    intro w hw x hx
    obtain ⟨r, hr, hxr⟩ := (Value.mem_refs_bind _ w).1 hx
    have hlt := List.idxOf_lt_length_of_mem (hw r hr)
    simp only [newPlace, Value.refs, List.mem_singleton] at hxr
    rw [size_copy]
    refine ⟨by omega, fun ha => ?_⟩
    have := hs.inside x ha
    omega
  have split : ∀ y, y < (s.copy v).1.size → y ∉ aside →
      (y < s.size ∧ (s.copy v).1.cell y = s.cell y) ∨ ∃ x ∈ s.reachedBy v,
        (s.copy v).1.cell y = (s.cell x).bind (s.newPlace (s.reachedBy v)) := by
    intro y hy ha
    rw [size_copy] at hy
    by_cases hlt : y < s.size
    · exact Or.inl ⟨hlt, hf.cell y hlt ha⟩
    · obtain ⟨i, rfl⟩ : ∃ i, y = s.size + i := ⟨y - s.size, by omega⟩
      have hi : i < (s.reachedBy v).length := by omega
      exact Or.inr ⟨_, List.getElem_mem hi, cell_copy s v hi⟩
  refine ⟨s.extends_copy v, ⟨fun y hy => ?_, ?_, ?_⟩, places v start, fun depth => ?_⟩
  · exact Nat.lt_of_lt_of_le (hs.inside y hy) hf.size
  · intro y hy ha
    rcases split y hy ha with ⟨hlt, hc⟩ | ⟨x, hx, hc⟩
    · rw [hc]
      exact hs.shareable y hlt ha
    · rw [hc]
      exact Value.isShareable_bind (hs.shareable x (inside x hx).1 (inside x hx).2)
  · intro y hy ha
    rcases split y hy ha with ⟨hlt, hc⟩ | ⟨x, hx, hc⟩
    · rw [hc]
      exact hf.holds (hs.closed y hlt ha)
    · rw [hc]
      exact places (s.cell x) (closed x hx)
  · refine (layers_bind closed (fun x hx => ?_) (fun x hx => ?_) depth v start).symm
    · exact hs.shareable x (inside x hx).1 (inside x hx).2
    · have hlt := List.idxOf_lt_length_of_mem hx
      have hcell := cell_copy s v hlt
      rw [List.getElem_idxOf hlt] at hcell
      exact hcell

/-! ## Settling -/

theorem carries_settle (hs : s.Sound aside) (hv : s.Holds aside v) :
    s.Carries aside v (s.settle v).1 (s.settle v).2 := by
  have both : s.Carries aside v ((s.copy v).1.intern (s.copy v).2).1
      ((s.copy v).1.intern (s.copy v).2).2 := by
    have hcopy := carries_copy hs hv
    exact hcopy.trans (carries_intern hcopy.sound _ hcopy.holds)
  cases v <;> first | exact Carries.refl hs hv | exact both

theorem carries_settleAll {vs : List Value} (hs : s.Sound aside)
    (h : ∀ v ∈ vs, s.Holds aside v) :
    s.Carries aside (.list vs) (s.settleAll vs).1 (.list (s.settleAll vs).2) := by
  induction vs generalizing s with
  | nil => exact Carries.refl hs (holds_list.2 (by simp))
  | cons v vs ih =>
    obtain ⟨hv, hvs⟩ := List.forall_mem_cons.1 h
    have hfirst := carries_settle hs hv
    exact Carries.cons hs hvs hfirst
      (ih hfirst.sound fun x hx => hfirst.frame.holds (hvs x hx))

theorem Carries.field {k : Kind} (before : List Value) {after : List Value} {w : Value}
    (hs : s.Sound aside)
    (hv : s.Holds aside (.object k (before ++ v :: after))) (h : s.Carries aside v t w) :
    s.Carries aside (.object k (before ++ v :: after)) t (.object k (before ++ w :: after)) := by
  rw [holds_object, List.forall_mem_append, List.forall_mem_cons] at hv
  obtain ⟨hbefore, -, hafter⟩ := hv
  have same : ∀ {vs : List Value}, (∀ x ∈ vs, s.Holds aside x) →
      List.Forall₂ (s.AlikeIn t) vs vs := fun hvs =>
    List.forall₂_same.2 fun x hx => h.frame.alike hs (hvs x hx)
  refine ⟨h.grows, h.sound, ?_, alikeIn_object rfl rfl ?_⟩
  · rw [holds_object, List.forall_mem_append, List.forall_mem_cons]
    exact ⟨fun x hx => h.frame.holds (hbefore x hx), h.holds,
      fun x hx => h.frame.holds (hafter x hx)⟩
  · exact List.rel_append (same hbefore) (.cons h.alike (same hafter))

theorem carries_settleMessages {ms : List Message} (hs : s.Sound aside)
    (h : ∀ m ∈ ms, s.Holds aside m.toValue) :
    s.Carries aside (.list (ms.map (·.toValue))) (s.settleMessages ms).1
      (.list ((s.settleMessages ms).2.map (·.toValue))) := by
  induction ms generalizing s with
  | nil => exact Carries.refl hs (holds_list.2 (by simp))
  | cons m ms ih =>
    obtain ⟨hm, hms⟩ := List.forall_mem_cons.1 h
    have hcontents : ∀ c ∈ m.contents, s.Holds aside c := by
      simp only [Message.toValue, holds_object, List.forall_mem_cons, holds_list] at hm
      exact hm.2.1
    have hfirst : s.Carries aside m.toValue (s.settleAll m.contents).1
        { m with contents := (s.settleAll m.contents).2 }.toValue :=
      Carries.field [m.role] hs hm (carries_settleAll hs hcontents)
    exact Carries.cons hs (List.forall_mem_map.2 hms) hfirst
      (ih hfirst.sound fun n hn => hfirst.frame.holds (hms n hn))

/-- **Settling a response** carries it over. -/
theorem carries_settleResponse {r : Response} (hs : s.Sound aside)
    (h : s.Holds aside r.toValue) :
    s.Carries aside r.toValue (s.settleResponse r).1 (s.settleResponse r).2.toValue := by
  have hmessages : ∀ m ∈ r.messages, s.Holds aside m.toValue := by
    simp only [Response.toValue, holds_object, List.forall_mem_cons, holds_list,
      List.forall_mem_map] at h
    exact h.1
  exact Carries.field [] hs h (carries_settleMessages hs hmessages)

end

end Store

end Reassembly
