import Reassembly.Proofs.ByValue
import Reassembly.Value.Copy

/-!
# Layers and expansions

To compare two values one may also write both out in full first, with all references followed.
That is what `Store.agrees` does. For values in which following references comes to an end it
makes no difference: they are equal layer by layer if and only if what is written out agrees.

* `Store.proper`: a cell holds something that can be shared, and is no mere reference.
* `layers_expandTo`: so many layers of a value are those of the value with so many references
  followed.
* `exists_layers_eq`: the layers of a value without references are in the end the value.
* `alike_iff_expand_eq`: values are alike if the same is written out for them.
* `equal_iff_agrees`: the two ways to compare.
-/
namespace Reassembly

/-- The value may stand in a cell. -/
def Value.isShareable : Value → Bool
  | .list _ | .tuple _ | .map _ | .object _ _ | .time _ => true
  | _ => false

namespace Store

/-- All cells hold values that can be shared. -/
def proper (s : Store) : Bool := s.cells.all Value.isShareable

/-- Following references comes to an end within as many steps as there are cells. -/
def Ends (s : Store) (v : Value) : Prop := ∀ depth, s.size ≤ depth → s.expandTo depth v = s.expand v

section
variable {s : Store}

theorem cell_ne_shared (hs : s.proper = true) (ref r : Nat) : s.cell ref ≠ .shared r := by
  intro h
  unfold cell at h
  cases hc : s.cells[ref]? with
  | none =>
    rw [hc] at h
    cases h
  | some c =>
    rw [hc, Option.getD_some] at h
    have hc := List.all_eq_true.1 hs c (List.mem_of_getElem? hc)
    rw [h] at hc
    cases hc

theorem intern_of_not_shareable {v : Value} (h : v.isShareable = false) :
    s.intern v = (s, v) := by
  cases v <;> first | rfl | cases h

theorem internEntries_of_not_shareable {es : Entries Value}
    (h : ∀ e ∈ es, e.2.isShareable = false) : s.internEntries es = (s, es) := by
  induction es with
  | nil => rfl
  | cons e es ih =>
    obtain ⟨he, hes⟩ := List.forall_mem_cons.1 h
    simp only [internEntries, intern_of_not_shareable he, ih hes]

/-! ## Expansions -/

theorem expandTo_eq_bind (s : Store) (depth : Nat) : ∃ f, s.expandTo depth = Value.bind f := by
  cases depth with
  | zero => exact ⟨_, funext fun v => rfl⟩
  | succ depth => exact ⟨_, funext fun v => rfl⟩

theorem expandTo_list (s : Store) (depth : Nat) (items : List Value) :
    s.expandTo depth (.list items) = .list (items.map (s.expandTo depth)) := by
  obtain ⟨f, hf⟩ := s.expandTo_eq_bind depth
  rw [hf, Value.bind, Value.bindAll_eq_map]

theorem expandTo_tuple (s : Store) (depth : Nat) (items : List Value) :
    s.expandTo depth (.tuple items) = .tuple (items.map (s.expandTo depth)) := by
  obtain ⟨f, hf⟩ := s.expandTo_eq_bind depth
  rw [hf, Value.bind, Value.bindAll_eq_map]

theorem expandTo_object (s : Store) (depth : Nat) (k : Kind) (fields : List Value) :
    s.expandTo depth (.object k fields) = .object k (fields.map (s.expandTo depth)) := by
  obtain ⟨f, hf⟩ := s.expandTo_eq_bind depth
  rw [hf, Value.bind, Value.bindAll_eq_map]

theorem expandTo_map (s : Store) (depth : Nat) (entries : Entries Value) :
    s.expandTo depth (.map entries) = .map (entries.map fun e => (e.1, s.expandTo depth e.2)) := by
  obtain ⟨f, hf⟩ := s.expandTo_eq_bind depth
  rw [hf, Value.bind, Value.bindEntries_eq_map]

theorem refs_expandTo (s : Store) (depth : Nat) (v : Value) : (s.expandTo depth v).refs = [] := by
  have above : ∀ n depth v, ∀ x ∈ (s.expandTo depth v).refs, n ≤ x := by
    intro n depth
    induction depth with
    | zero => exact fun v => Value.le_of_mem_refs_bind (fun r x hx => by cases hx) v
    | succ depth ih => exact fun v => Value.le_of_mem_refs_bind (fun r => ih (s.cell r)) v
  refine List.eq_nil_iff_forall_not_mem.2 fun x hx => ?_
  have := above (x + 1) depth v x hx
  omega

/-! ## So many layers -/

theorem layers_expandTo_of_parts {depth n : Nat} (v : Value) (hv : ∀ r, v ≠ .shared r)
    (parts : ∀ w, s.layers depth (s.expandTo n w) = s.layers depth w) :
    s.layers (depth + 1) (s.expandTo n v) = s.layers (depth + 1) v := by
  have all : ∀ vs : List Value, (vs.map (s.expandTo n)).map (s.layers depth) =
      vs.map (s.layers depth) := by
    intro vs
    rw [List.map_map]
    exact List.map_congr_left fun w _ => parts w
  cases v with
  | list items => rw [expandTo_list, layers_list rfl, layers_list rfl, all]
  | object k fields => rw [expandTo_object, layers_object rfl, layers_object rfl, all]
  | tuple items => simp only [expandTo_tuple, layers, head, all]
  | map entries => simp only [expandTo_map, layers, head, List.map_map, Function.comp_def, parts]
  | shared r => exact absurd rfl (hv r)
  | _ =>
    obtain ⟨f, hf⟩ := s.expandTo_eq_bind n
    rw [hf]
    rfl

/-- **So many layers** need no more references followed. -/
theorem layers_expandTo (hs : s.proper = true) {depth n : Nat} (h : depth ≤ n) (v : Value) :
    s.layers depth (s.expandTo n v) = s.layers depth v := by
  induction depth generalizing n v with
  | zero => rfl
  | succ depth ih =>
    cases v with
    | shared ref =>
      obtain ⟨n, rfl⟩ : ∃ m, n = m + 1 := ⟨n - 1, by omega⟩
      have hcell := cell_ne_shared hs ref
      have hhead : s.head (.shared ref) = s.head (s.cell ref) := by
        cases hc : s.cell ref <;> first | exact absurd hc (hcell _) | simp [head, hc]
      rw [alike_of_head hhead (depth + 1)]
      exact layers_expandTo_of_parts _ hcell (ih (by omega))
    | _ => exact layers_expandTo_of_parts _ (fun r hr => by cases hr) (ih (by omega))

theorem alike_expand (hs : s.proper = true) {v : Value} (hv : s.Ends v) :
    s.Alike (s.expand v) v := by
  intro depth
  rw [← hv (max depth s.size) (Nat.le_max_right _ _)]
  exact layers_expandTo hs (Nat.le_max_left _ _) v

/-! ## Values without references -/

mutual
theorem exists_layers_eq (s : Store) : (v : Value) → v.refs = [] →
    ∃ least, ∀ depth, least ≤ depth → s.layers depth v = v
  | .list items, h =>
    exists_least_succ (exists_map_layers_eq s items h) fun _ hd => by simp only [layers, head, hd]
  | .tuple items, h =>
    exists_least_succ (exists_map_layers_eq s items h) fun _ hd => by simp only [layers, head, hd]
  | .object _ fields, h =>
    exists_least_succ (exists_map_layers_eq s fields h) fun _ hd => by simp only [layers, head, hd]
  | .map entries, h =>
    exists_least_succ (exists_entries_layers_eq s entries h) fun _ hd => by
      simp only [layers, head, hd]
  | .shared _, h => by cases h
  | .null, _ | .bool _, _ | .int _, _ | .float _ _, _ | .text _, _ | .encoded _, _ | .time _, _ =>
    exists_least_succ (p := fun _ => True) ⟨0, fun _ _ => trivial⟩ fun _ _ => rfl

theorem exists_map_layers_eq (s : Store) : (vs : List Value) → Value.refsAll vs = [] →
    ∃ least, ∀ depth, least ≤ depth → vs.map (s.layers depth) = vs
  | [], _ => ⟨0, fun _ _ => rfl⟩
  | v :: vs, h => by
    rw [Value.refsAll, List.append_eq_nil_iff] at h
    obtain ⟨m, hm⟩ := exists_layers_eq s v h.1
    obtain ⟨n, hn⟩ := exists_map_layers_eq s vs h.2
    refine ⟨max m n, fun depth hd => ?_⟩
    rw [List.map_cons, hm depth (by omega), hn depth (by omega)]

theorem exists_entries_layers_eq (s : Store) :
    (es : Entries Value) → Value.refsEntries es = [] →
    ∃ least, ∀ depth, least ≤ depth → es.map (fun e => (e.1, s.layers depth e.2)) = es
  | [], _ => ⟨0, fun _ _ => rfl⟩
  | (_, v) :: es, h => by
    rw [Value.refsEntries, List.append_eq_nil_iff] at h
    obtain ⟨m, hm⟩ := exists_layers_eq s v h.1
    obtain ⟨n, hn⟩ := exists_entries_layers_eq s es h.2
    refine ⟨max m n, fun depth hd => ?_⟩
    rw [List.map_cons, hm depth (by omega), hn depth (by omega)]
end

/-! ## The two ways to compare -/

/-- Values are alike if and only if the same is written out for them in full. -/
theorem alike_iff_expand_eq (hs : s.proper = true) {v w : Value} (hv : s.Ends v) (hw : s.Ends w) :
    s.Alike v w ↔ s.expand v = s.expand w := by
  obtain ⟨m, hm⟩ := exists_layers_eq s (s.expand v) (refs_expandTo s s.size v)
  obtain ⟨n, hn⟩ := exists_layers_eq s (s.expand w) (refs_expandTo s s.size w)
  have hv := alike_expand hs hv
  have hw := alike_expand hs hw
  constructor
  · intro h
    rw [← hm (max m n) (by omega), ← hn (max m n) (by omega), hv, hw, h]
  · intro h
    rw [h] at hv
    exact hv.symm.trans hw

/-- **Two ways to compare.** Values are equal if and only if they agree when written out in full. -/
theorem equal_iff_agrees (hs : s.proper = true) {v w : Value} (hv : s.Ends v) (hw : s.Ends w) :
    s.Equal v w ↔ (s.expand v).agrees (s.expand w) = true := by
  obtain ⟨m, hm⟩ := exists_layers_eq s (s.expand v) (refs_expandTo s s.size v)
  obtain ⟨n, hn⟩ := exists_layers_eq s (s.expand w) (refs_expandTo s s.size w)
  have hv := alike_expand hs hv
  have hw := alike_expand hs hw
  constructor
  · intro h
    obtain ⟨least, h⟩ := h
    have hd := h (max least (max m n)) (by omega)
    rw [← hv, ← hw, hm _ (by omega), hn _ (by omega)] at hd
    exact hd
  · intro h
    refine ⟨max m n, fun depth hd => ?_⟩
    rw [← hv depth, ← hw depth, hm depth (by omega), hn depth (by omega)]
    exact h

end

end Store

end Reassembly
