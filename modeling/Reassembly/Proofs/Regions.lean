import Reassembly.Proofs.Expansion
import Reassembly.Proofs.Formed

/-!
# Regions of a store

Some cells of a store are set aside: those that somebody is about to write to. A store is *sound*
if the other cells refer to each other only. What a value of that region says then depends on no
cell that is set aside, and it says the same in every store that has the region unchanged.

* `Store.Holds`, `Store.Sound`: values and stores that stay clear of what is set aside.
* `Store.Frame`: a later store in which nothing has changed but what is set aside.
* `Frame.head`, `Frame.alike`: a value of the region has the same parts, and is like before.
* `formed_of_alikeIn`: whether an object obeys its rules shows in what it says.
-/
namespace Reassembly

namespace Value

theorem mem_refsAll {x : Nat} {vs : List Value} : x ∈ refsAll vs ↔ ∃ v ∈ vs, x ∈ v.refs := by
  induction vs with
  | nil => simp [refsAll]
  | cons v vs ih => simp [refsAll, ih]

theorem mem_refsEntries {x : Nat} {es : Entries Value} :
    x ∈ refsEntries es ↔ ∃ e ∈ es, x ∈ e.2.refs := by
  induction es with
  | nil => simp [refsEntries]
  | cons e es ih => simp [refsEntries, ih]

end Value

namespace Store

/-- The value refers to cells of the store only, and to none that is set aside. -/
def Holds (s : Store) (aside : List Nat) (v : Value) : Prop :=
  ∀ x ∈ v.refs, x < s.size ∧ x ∉ aside

/-- The cells that are not set aside hold what can be shared, and refer to each other only. -/
structure Sound (s : Store) (aside : List Nat) : Prop where
  inside : ∀ x ∈ aside, x < s.size
  shareable : ∀ x, x < s.size → x ∉ aside → (s.cell x).isShareable = true
  closed : ∀ x, x < s.size → x ∉ aside → s.Holds aside (s.cell x)

instance (s : Store) (aside : List Nat) (v : Value) : Decidable (s.Holds aside v) :=
  inferInstanceAs (Decidable (∀ x ∈ v.refs, x < s.size ∧ x ∉ aside))

instance (s : Store) (aside : List Nat) : Decidable (s.Sound aside) :=
  decidable_of_iff ((∀ x ∈ aside, x < s.size) ∧
      (∀ x, x < s.size → x ∉ aside → (s.cell x).isShareable = true) ∧
      ∀ x, x < s.size → x ∉ aside → s.Holds aside (s.cell x))
    ⟨fun h => ⟨h.1, h.2.1, h.2.2⟩, fun h => ⟨h.inside, h.shareable, h.closed⟩⟩

/-- The cells of `s` that are not set aside are cells of `t`, with the same content. -/
structure Frame (s : Store) (aside : List Nat) (t : Store) : Prop where
  size : s.size ≤ t.size
  cell : ∀ x, x < s.size → x ∉ aside → t.cell x = s.cell x

/-! ## Values of a region -/

section
variable {s : Store} {aside : List Nat}

@[simp] theorem holds_shared {x : Nat} :
    s.Holds aside (.shared x) ↔ x < s.size ∧ x ∉ aside := by
  simp [Holds, Value.refs]

@[simp] theorem holds_list {items : List Value} :
    s.Holds aside (.list items) ↔ ∀ i ∈ items, s.Holds aside i := by
  simp only [Holds, Value.refs, Value.mem_refsAll]
  exact ⟨fun h i hi x hx => h x ⟨i, hi, hx⟩, fun h x ⟨i, hi, hx⟩ => h i hi x hx⟩

@[simp] theorem holds_tuple {items : List Value} :
    s.Holds aside (.tuple items) ↔ ∀ i ∈ items, s.Holds aside i :=
  holds_list

@[simp] theorem holds_object {k : Kind} {fields : List Value} :
    s.Holds aside (.object k fields) ↔ ∀ f ∈ fields, s.Holds aside f :=
  holds_list

@[simp] theorem holds_map {es : Entries Value} :
    s.Holds aside (.map es) ↔ ∀ e ∈ es, s.Holds aside e.2 := by
  simp only [Holds, Value.refs, Value.mem_refsEntries]
  exact ⟨fun h e he x hx => h x ⟨e, he, hx⟩, fun h x ⟨e, he, hx⟩ => h e he x hx⟩

theorem holds_of_refs_nil {v : Value} (h : v.refs = []) : s.Holds aside v := by
  intro x hx
  rw [h] at hx
  cases hx

@[simp] theorem holds_null : s.Holds aside .null := holds_of_refs_nil rfl

theorem Holds.all {v : Value} (h : s.Holds aside v) : s.Holds [] v :=
  fun x hx => ⟨(h x hx).1, List.not_mem_nil⟩

theorem Sound.head (hs : s.Sound aside) {v : Value} (hv : s.Holds aside v) :
    s.Holds aside (s.head v) := by
  cases v with
  | shared x =>
    obtain ⟨hx, ha⟩ := holds_shared.1 hv
    exact hs.closed x hx ha
  | _ => exact hv

/-- A value that shows plain data is that data: the region has no cells for it. -/
theorem Sound.head_plain (hs : s.Sound aside) {v w : Value} (hv : s.Holds aside v)
    (hw : s.head v = w) (hn : w.isShareable = false) : v = w := by
  cases v with
  | shared x =>
    obtain ⟨hx, ha⟩ := holds_shared.1 hv
    have hc := hs.shareable x hx ha
    rw [show s.cell x = w from hw, hn] at hc
    cases hc
  | _ => exact hw

theorem holds_copied (hs : s.Sound aside) {v : Value} (hv : s.Holds aside v) :
    s.Holds aside ((Rule.optional .properties).copied s v) := by
  unfold Rule.copied
  split
  · exact holds_null
  · unfold Rule.copied Store.entries?
    cases hh : s.head v with
    | map es => exact hh ▸ hs.head hv
    | _ => simp

end

/-! ## Unchanged regions -/

namespace Frame

variable {s t u : Store} {aside : List Nat} {v : Value}

theorem refl (s : Store) (aside : List Nat) : s.Frame aside s := ⟨Nat.le_refl _, fun _ _ _ => rfl⟩

theorem trans (h : s.Frame aside t) (k : t.Frame aside u) : s.Frame aside u where
  size := Nat.le_trans h.size k.size
  cell := fun x hx ha => by rw [k.cell x (Nat.lt_of_lt_of_le hx h.size) ha, h.cell x hx ha]

theorem of_extends (aside : List Nat) (h : s.Extends t) : s.Frame aside t where
  size := List.IsPrefix.length_le h
  cell := fun _ hx _ => h.cell hx

/-- If nothing is set aside, all cells are there with their content. -/
theorem to_extends (h : s.Frame [] t) : s.Extends t := by
  refine List.prefix_iff_eq_take.2 (List.ext_getElem? fun x => ?_)
  rw [List.getElem?_take]
  split
  · next hx =>
    have hcell := h.cell x hx List.not_mem_nil
    have ht : x < t.cells.length := Nat.lt_of_lt_of_le hx h.size
    simp only [Store.cell, List.getElem?_eq_getElem hx, List.getElem?_eq_getElem ht,
      Option.getD_some] at hcell ⊢
    rw [hcell]
  · next hx => exact List.getElem?_eq_none (Nat.le_of_not_lt hx)

theorem of_write {x : Nat} (hx : x ∈ aside) (content : Value) :
    s.Frame aside (s.write (.shared x) content) where
  size := Nat.le_of_eq (s.size_write _ _).symm
  cell := fun y _ hy => s.cell_write_of_ne fun h => by
    rw [Value.shared.injEq] at h
    exact hy (h ▸ hx)

theorem holds (h : s.Frame aside t) (hv : s.Holds aside v) : t.Holds aside v :=
  fun x hx => ⟨Nat.lt_of_lt_of_le (hv x hx).1 h.size, (hv x hx).2⟩

theorem head (h : s.Frame aside t) (hv : s.Holds aside v) : t.head v = s.head v := by
  cases v with
  | shared x =>
    obtain ⟨hx, ha⟩ := holds_shared.1 hv
    exact h.cell x hx ha
  | _ => rfl

theorem layers (h : s.Frame aside t) (hs : s.Sound aside) (depth : Nat) :
    ∀ v, s.Holds aside v → t.layers depth v = s.layers depth v := by
  induction depth with
  | zero => exact fun v _ => rfl
  | succ depth ih =>
    intro v hv
    have hh := hs.head hv
    have all : ∀ {vs : List Value}, (∀ w ∈ vs, s.Holds aside w) →
        vs.map (t.layers depth) = vs.map (s.layers depth) := fun hw =>
      List.map_congr_left fun w hm => ih w (hw w hm)
    simp only [Store.layers, h.head hv]
    split
    · next hl => rw [hl, holds_list] at hh; rw [all hh]
    · next hl => rw [hl, holds_tuple] at hh; rw [all hh]
    · next hl =>
      rw [hl, holds_map] at hh
      exact congrArg Value.map (List.map_congr_left fun e he => by rw [ih e.2 (hh e he)])
    · next hl => rw [hl, holds_object] at hh; rw [all hh]
    · rfl

/-- **A value of an unchanged region** is what it was. -/
theorem alike (h : s.Frame aside t) (hs : s.Sound aside) (hv : s.Holds aside v) :
    s.AlikeIn t v v :=
  fun depth => (h.layers hs depth v hv).symm

theorem forall₂_alike (h : s.Frame aside t) (hs : s.Sound aside) {vs ws : List Value}
    (hvs : ∀ v ∈ vs, s.Holds aside v) :
    List.Forall₂ (s.AlikeIn t) vs ws ↔ List.Forall₂ t.Alike vs ws := by
  have hread : ∀ depth, vs.map (t.layers depth) = vs.map (s.layers depth) := fun depth =>
    List.map_congr_left fun v hv => h.layers hs depth v (hvs v hv)
  have hsame : List.Forall₂ t.Alike vs ws ↔ List.Forall₂ (t.AlikeIn t) vs ws := Iff.rfl
  simp only [hsame, forall₂_alikeIn_iff, hread]

theorem entries? (h : s.Frame aside t) (hv : s.Holds aside v) : t.entries? v = s.entries? v := by
  simp only [Store.entries?, h.head hv]

theorem items (h : s.Frame aside t) (hv : s.Holds aside v) : t.items v = s.items v := by
  simp only [Store.items, h.head hv]

end Frame

/-- What is written to a cell that is set aside does not matter to the region. -/
theorem Sound.write {s : Store} {aside : List Nat} (hs : s.Sound aside) {x : Nat} (hx : x ∈ aside)
    (content : Value) : (s.write (.shared x) content).Sound aside := by
  have hf := Frame.of_write (s := s) hx content
  have hsize := s.size_write (.shared x) content
  refine ⟨fun y hy => ?_, ?_, ?_⟩
  · rw [hsize]
    exact hs.inside y hy
  · intro y hy ha
    rw [hsize] at hy
    rw [hf.cell y hy ha]
    exact hs.shareable y hy ha
  · intro y hy ha
    rw [hsize] at hy
    rw [hf.cell y hy ha]
    exact hf.holds (hs.closed y hy ha)

/-- Nothing needs to be set aside any more if the cells that were hold what can be shared. -/
theorem Sound.all {s : Store} {aside : List Nat} (hs : s.Sound aside)
    (h : ∀ x ∈ aside, (s.cell x).isShareable = true ∧ s.Holds [] (s.cell x)) : s.Sound [] := by
  refine ⟨fun x hx => absurd hx List.not_mem_nil, fun x hx _ => ?_, fun x hx _ => ?_⟩
  · by_cases ha : x ∈ aside
    · exact (h x ha).1
    · exact hs.shareable x hx ha
  · by_cases ha : x ∈ aside
    · exact (h x ha).2
    · exact (hs.closed x hx ha).all

/-! ## The rules, seen from outside -/

theorem exists_mem_of_forall₂ {α β : Type} {R : α → β → Prop} {as : List α} {bs : List β}
    (h : List.Forall₂ R as bs) {b : β} (hb : b ∈ bs) : ∃ a ∈ as, R a b := by
  induction h with
  | nil => cases hb
  | cons hab _ ih =>
    rcases List.mem_cons.1 hb with rfl | hb
    · exact ⟨_, List.mem_cons_self, hab⟩
    · obtain ⟨a, ha, hr⟩ := ih hb
      exact ⟨a, List.mem_cons_of_mem _ ha, hr⟩

section
variable {s t : Store} {aside away : List Nat}

theorem obeys_of_alikeIn_of_objects (hs : s.Sound aside) (ht : t.Sound away) {r : Rule}
    (objects : ∀ k, r.target? = some k → ∀ v w, s.Holds aside v → t.Holds away w →
      s.AlikeIn t v w → s.formed k v = true → t.formed k w = true)
    {v w : Value} (hv : s.Holds aside v) (hw : t.Holds away w) (h : s.AlikeIn t v w)
    (ho : s.obeys r v = true) : t.obeys r w = true := by
  have list : ∀ {k}, r.target? = some k → s.isListOf (s.formed k) v = true →
      t.isListOf (t.formed k) w = true := by
    intro k hk hl
    obtain ⟨items, hi, hf⟩ := isListOf_iff.1 hl
    obtain ⟨others, hj, hio⟩ := h.list hi
    have hin := holds_list.1 (hi ▸ hs.head hv)
    have hout := holds_list.1 (hj ▸ ht.head hw)
    refine isListOf_iff.2 ⟨others, hj, fun o hm => ?_⟩
    obtain ⟨i, hmi, hlike⟩ := exists_mem_of_forall₂ hio hm
    exact objects k hk i o (hin i hmi) (hout o hm) hlike (hf i hmi)
  induction r with
  | anything => rfl
  | text =>
    obtain ⟨x, rfl⟩ := obeys_text.1 ho
    rw [ht.head_plain hw (h.atom rfl) rfl]
    rfl
  | textOrEmpty =>
    obtain ⟨x, rfl⟩ := obeys_textOrEmpty.1 ho
    rw [ht.head_plain hw (h.atom rfl) rfl]
    rfl
  | label =>
    obtain ⟨x, rfl, -⟩ := isLabel_iff.1 ho
    rw [ht.head_plain hw (h.atom rfl) rfl]
    exact ho
  | author =>
    rcases obeys_author.1 ho with rfl | ⟨x, rfl, -⟩
    · rw [ht.head_plain hw (h.atom rfl) rfl]
      rfl
    · rw [ht.head_plain hw (h.atom rfl) rfl]
      exact ho
  | integer =>
    cases v with
    | int n =>
      rw [ht.head_plain hw (h.atom rfl) rfl]
      rfl
    | _ => cases ho
  | timestamp =>
    obtain ⟨x, hx⟩ := isTimestamp_iff.1 ho
    exact isTimestamp_iff.2 ⟨x, (h.atom (by rw [hx]; rfl)).trans hx⟩
  | properties =>
    have ho : s.isMapOf (fun _ => true) v = true := ho
    obtain ⟨es, he, htest⟩ := isMapOf_iff.1 ho
    obtain ⟨fs, hf, hef⟩ := h.map he
    show t.isMapOf (fun _ => true) w = true
    refine isMapOf_iff.2 ⟨fs, hf, fun f hm => ?_⟩
    obtain ⟨e, hme, hkey, -⟩ := exists_mem_of_forall₂ hef hm
    rw [← hkey]
    exact htest e hme
  | counts =>
    obtain ⟨es, he, htest⟩ := isMapOf_iff.1 ho
    obtain ⟨fs, hf, hef⟩ := h.map he
    have hout := holds_map.1 (hf ▸ ht.head hw)
    refine isMapOf_iff.2 ⟨fs, hf, fun f hm => ?_⟩
    obtain ⟨e, hme, hkey, hlike⟩ := exists_mem_of_forall₂ hef hm
    obtain ⟨hk, hint⟩ := htest e hme
    rw [← hkey]
    cases hn : e.2 with
    | int n =>
      rw [hn] at hlike
      rw [ht.head_plain (hout f hm) (hlike.atom rfl) rfl]
      exact ⟨hk, rfl⟩
    | _ =>
      rw [hn] at hint
      cases hint
  | one k => exact objects k rfl v w hv hw h ho
  | many k => exact list rfl ho
  | contents => exact list rfl ho
  | messages => exact list rfl ho
  | optional r ih =>
    rcases obeys_optional.1 ho with rfl | ho
    · rw [ht.head_plain hw (h.atom rfl) rfl]
      rfl
    · exact obeys_optional.2 (Or.inr (ih objects ho list))

/-- **Whether an object obeys its rules** shows in what it says. -/
theorem formed_of_alikeIn (hs : s.Sound aside) (ht : t.Sound away) {k : Kind} {v w : Value}
    (hv : s.Holds aside v) (hw : t.Holds away w) (h : s.AlikeIn t v w)
    (hf : s.formed k v = true) : t.formed k w = true := by
  -- the objects in an object of a kind are of smaller depth
  induction hd : k.depth using Nat.strongRecOn generalizing k v w with
  | ind depth ih =>
    obtain ⟨l, fields, hhead, hl, hfields⟩ := formed_iff.1 hf
    obtain ⟨others, hother, hlike⟩ := h.object hhead
    have hin := holds_object.1 (hhead ▸ hs.head hv)
    have hout := holds_object.1 (hother ▸ ht.head hw)
    refine formed_iff.2 ⟨l, others, hother, hl, ?_⟩
    rw [List.forall₂_iff_get] at hfields hlike ⊢
    refine ⟨hfields.1.trans hlike.1, fun i hi hj => ?_⟩
    have hm : i < fields.length := by
      rw [hlike.1]
      exact hj
    refine obeys_of_alikeIn_of_objects hs ht (fun j hjk x y hx hy hxy hobj => ?_)
      (hin _ (List.get_mem fields ⟨i, hm⟩)) (hout _ (List.get_mem others ⟨i, hj⟩))
      (hlike.2 i hm hj) (hfields.2 i hi hm)
    have hdepth := l.depth_target _ (List.get_mem l.fields ⟨i, hi⟩) j hjk
    rw [depth_of_isA hl, hd] at hdepth
    exact ih j.depth hdepth hx hy hxy hobj rfl

end

end Store

end Reassembly
