import Mathlib.Data.List.Forall2
import Reassembly.Proofs.Maps
import Reassembly.Value.Equality

/-!
# Values compared through references

Whether a part of a value stands there itself or in a cell makes no difference to what the value
says. So values are compared layer by layer, where a layer is what one sees after looking up: two
values are *alike* if they are written out in the same way at every depth, and *equal* if at every
depth they mean the same. A value that contains itself has layers like any other.

* `Store.layers`, `Store.Alike`, `Store.Equal`, and `Store.AlikeIn` for values of two stores.
* `alike_of_head`: a reference is like what it refers to.
* `alikeIn_object`, `alikeIn_list`: objects and lists are alike if their parts are.
* `AlikeIn.object`, `AlikeIn.list`, `AlikeIn.map`, `AlikeIn.atom`: what is like an object, a list, a
  map or plain data is one.
* `equal_object_iff`, `equal_list_iff`, `equal_null_iff`: objects and lists are equal if and only if
  their parts are, and nothing but null is equal to null.
* `Value.keyed`, `equal_refl`: equality is reflexive on values whose maps have each key once.
-/
namespace Reassembly

/-- The value is plain data, without parts. -/
def Value.isAtom : Value → Bool
  | .null | .bool _ | .int _ | .float _ _ | .text _ | .encoded _ | .time _ => true
  | _ => false

namespace Store

/-- The outermost layers of a value, with references looked up and null for what lies deeper. -/
def layers (s : Store) : Nat → Value → Value
  | 0, _ => .null
  | depth + 1, v =>
    match s.head v with
    | .list items => .list (items.map (s.layers depth))
    | .tuple items => .tuple (items.map (s.layers depth))
    | .map entries => .map (entries.map fun e => (e.1, s.layers depth e.2))
    | .object kind fields => .object kind (fields.map (s.layers depth))
    | w => w

/-- Written out in the same way: the same texts, numbers and kinds, in the same order. -/
def Alike (s : Store) (v w : Value) : Prop := ∀ depth, s.layers depth v = s.layers depth w

/-- Equal by value, if one looks deep enough. -/
def Equal (s : Store) (v w : Value) : Prop :=
  ∃ least, ∀ depth, least ≤ depth → (s.layers depth v).agrees (s.layers depth w) = true

/-! ## Alike -/

/-- What one value is in a store, another one is in another store, or later in the same one. -/
def AlikeIn (s t : Store) (v w : Value) : Prop := ∀ depth, s.layers depth v = t.layers depth w

section
variable {s t : Store} {v w : Value}

theorem AlikeIn.symm (h : s.AlikeIn t v w) : t.AlikeIn s w v := fun depth => (h depth).symm

theorem AlikeIn.trans {u : Store} {x : Value} (h : s.AlikeIn t v w) (k : t.AlikeIn u w x) :
    s.AlikeIn u v x := fun depth => (h depth).trans (k depth)

theorem forall₂_alikeIn_iff {vs ws : List Value} : List.Forall₂ (s.AlikeIn t) vs ws ↔
    ∀ depth, vs.map (s.layers depth) = ws.map (t.layers depth) := by
  constructor
  · intro h depth
    induction h with
    | nil => rfl
    | cons hvw _ ih => rw [List.map_cons, List.map_cons, hvw depth, ih]
  · intro h
    induction vs generalizing ws with
    | nil =>
      have hnil : ws = [] := by simpa using (h 0).symm
      rw [hnil]
      exact .nil
    | cons v vs ih =>
      cases ws with
      | nil => simpa using h 0
      | cons w ws =>
        simp only [List.map_cons, List.cons.injEq] at h
        exact .cons (fun depth => (h depth).1) (ih fun depth => (h depth).2)

theorem layers_object {k : Kind} {fields : List Value} (hv : s.head v = .object k fields)
    (depth : Nat) : s.layers (depth + 1) v = .object k (fields.map (s.layers depth)) := by
  simp only [layers, hv]

theorem layers_list {items : List Value} (hv : s.head v = .list items) (depth : Nat) :
    s.layers (depth + 1) v = .list (items.map (s.layers depth)) := by
  simp only [layers, hv]

theorem alikeIn_object {k : Kind} {as bs : List Value} (hv : s.head v = .object k as)
    (hw : t.head w = .object k bs) (h : List.Forall₂ (s.AlikeIn t) as bs) : s.AlikeIn t v w := by
  intro depth
  cases depth with
  | zero => rfl
  | succ depth => rw [layers_object hv, layers_object hw, forall₂_alikeIn_iff.1 h depth]

theorem alikeIn_list {as bs : List Value} (hv : s.head v = .list as) (hw : t.head w = .list bs)
    (h : List.Forall₂ (s.AlikeIn t) as bs) : s.AlikeIn t v w := by
  intro depth
  cases depth with
  | zero => rfl
  | succ depth => rw [layers_list hv, layers_list hw, forall₂_alikeIn_iff.1 h depth]

/-- What is like an object is one of the same kind, with fields that are alike. -/
theorem AlikeIn.object (h : s.AlikeIn t v w) {k : Kind} {as : List Value}
    (hv : s.head v = .object k as) :
    ∃ bs, t.head w = .object k bs ∧ List.Forall₂ (s.AlikeIn t) as bs := by
  have h1 := h 1
  rw [layers_object hv] at h1
  cases hw : t.head w with
  | object l bs =>
    simp only [layers, hw, Value.object.injEq] at h1
    obtain ⟨rfl, -⟩ := h1
    refine ⟨bs, rfl, forall₂_alikeIn_iff.2 fun depth => ?_⟩
    have hd := h (depth + 1)
    rw [layers_object hv, layers_object hw] at hd
    exact (Value.object.inj hd).2
  | _ => simp [layers, hw] at h1

theorem AlikeIn.list (h : s.AlikeIn t v w) {as : List Value} (hv : s.head v = .list as) :
    ∃ bs, t.head w = .list bs ∧ List.Forall₂ (s.AlikeIn t) as bs := by
  have h1 := h 1
  rw [layers_list hv] at h1
  cases hw : t.head w with
  | list bs =>
    refine ⟨bs, rfl, forall₂_alikeIn_iff.2 fun depth => ?_⟩
    have hd := h (depth + 1)
    rw [layers_list hv, layers_list hw] at hd
    exact Value.list.inj hd
  | _ => simp [layers, hw] at h1

theorem AlikeIn.map (h : s.AlikeIn t v w) {es : Entries Value} (hv : s.head v = .map es) :
    ∃ fs, t.head w = .map fs ∧
      List.Forall₂ (fun e f => e.1 = f.1 ∧ s.AlikeIn t e.2 f.2) es fs := by
  have deeper : ∀ depth, Value.map (es.map fun e => (e.1, s.layers depth e.2)) =
      t.layers (depth + 1) w := by
    intro depth
    rw [← h (depth + 1)]
    simp only [layers, hv]
  have h1 := deeper 0
  cases hw : t.head w with
  | map fs =>
    simp only [layers, hw, Value.map.injEq] at deeper
    have hlen : es.length = fs.length := by simpa using congrArg List.length (deeper 0)
    refine ⟨fs, rfl, List.forall₂_iff_get.2 ⟨hlen, fun i hi hj => ?_⟩⟩
    have hd : ∀ depth, _ := fun depth => congrArg (fun l : Entries Value => l[i]?) (deeper depth)
    simp only [List.getElem?_map, List.getElem?_eq_getElem hi, List.getElem?_eq_getElem hj,
      Option.map_some, Option.some.injEq, Prod.mk.injEq] at hd
    exact ⟨(hd 0).1, fun depth => (hd depth).2⟩
  | _ => simp [layers, hw] at h1

/-- What is like an atom is the same atom. -/
theorem AlikeIn.atom (h : s.AlikeIn t v w) (hv : (s.head v).isAtom = true) :
    t.head w = s.head v := by
  have h1 := h 1
  cases hv' : s.head v <;> cases hw : t.head w <;> simp_all [layers, Value.isAtom]

end

section
variable {s : Store} {v w : Value}

theorem Alike.refl (s : Store) (v : Value) : s.Alike v v := fun _ => rfl

theorem Alike.symm (h : s.Alike v w) : s.Alike w v := fun depth => (h depth).symm

theorem Alike.trans {u : Value} (h : s.Alike u v) (k : s.Alike v w) : s.Alike u w :=
  fun depth => (h depth).trans (k depth)

theorem alike_of_head (h : s.head v = s.head w) : s.Alike v w := by
  intro depth
  cases depth with
  | zero => rfl
  | succ depth => simp only [layers, h]

theorem alike_object {k : Kind} {as bs : List Value} (hv : s.head v = .object k as)
    (hw : s.head w = .object k bs) (h : List.Forall₂ s.Alike as bs) : s.Alike v w :=
  alikeIn_object hv hw h

theorem alike_list {as bs : List Value} (h : List.Forall₂ s.Alike as bs) :
    s.Alike (.list as) (.list bs) :=
  alikeIn_list rfl rfl h

theorem Alike.object (h : s.Alike v w) {k : Kind} {as : List Value}
    (hv : s.head v = .object k as) :
    ∃ bs, s.head w = .object k bs ∧ List.Forall₂ s.Alike as bs :=
  AlikeIn.object h hv

theorem Alike.list (h : s.Alike v w) {as : List Value} (hv : s.head v = .list as) :
    ∃ bs, s.head w = .list bs ∧ List.Forall₂ s.Alike as bs :=
  AlikeIn.list h hv

theorem Alike.text (h : s.Alike v w) {t : String} (hv : s.head v = .text t) :
    s.head w = .text t := by
  rw [← hv]
  exact AlikeIn.atom h (by rw [hv]; rfl)

end

end Store

/-! ## Values whose maps have each key once -/

namespace Value

mutual
/-- No map in the value has two entries for one key. -/
def keyed : Value → Bool
  | .list items => keyedAll items
  | .tuple items => keyedAll items
  | .map entries => decide (Entries.keys entries).Nodup && keyedEntries entries
  | .object _ fields => keyedAll fields
  | .null | .bool _ | .int _ | .float _ _ | .text _ | .encoded _ | .time _ | .shared _ => true

def keyedAll : List Value → Bool
  | [] => true
  | v :: vs => v.keyed && keyedAll vs

def keyedEntries : List (Key × Value) → Bool
  | [] => true
  | (_, v) :: es => v.keyed && keyedEntries es
end

theorem keyedAll_iff {vs : List Value} : keyedAll vs = true ↔ ∀ v ∈ vs, v.keyed = true := by
  induction vs with
  | nil => simp [keyedAll]
  | cons v vs ih => simp [keyedAll, ih]

theorem keyedEntries_iff {es : Entries Value} :
    keyedEntries es = true ↔ ∀ e ∈ es, e.2.keyed = true := by
  induction es with
  | nil => simp [keyedEntries]
  | cons e es ih => simp [keyedEntries, ih]

/-- Objects of kinds that are no labels agree field by field. -/
theorem agrees_object {k : Kind} (hk : k.isFrozen = false) (as bs : List Value) :
    agrees (.object k as) (.object k bs) = agreesAll as bs := by
  unfold agrees
  split
  case h_4 hv _ => cases hv; cases hk
  case h_5 hv _ => cases hv; cases hk
  case h_6 hw => cases hw
  case h_8 hv hw => cases hv; cases hw; rw [beq_self_eq_true, Bool.true_and]
  case h_14 hne _ _ _ _ _ => exact (hne k as k bs rfl rfl).elim
  all_goals next hv _ => cases hv

theorem agrees_null_left {v : Value} : agrees .null v = true ↔ v = .null := by
  constructor
  · intro h
    unfold agrees at h
    split at h
    case h_12 => rfl
    case h_14 => simp [number?] at h
    all_goals next hv => cases hv
  · rintro rfl
    rfl

theorem agrees_null_right {v : Value} : agrees v .null = true ↔ v = .null := by
  constructor
  · intro h
    unfold agrees at h
    split at h
    case h_12 => rfl
    case h_14 => simp [number?] at h
    all_goals next hv => cases hv
  · rintro rfl
    rfl

theorem sameNumber_refl (a : Int × Int) : sameNumber a a = true := by simp [sameNumber]

/-- A map agrees with one that has its entries, if each entry agrees with itself. -/
theorem agreesWithin_of_mem {es fs : Entries Value} (hn : (Entries.keys es).Nodup)
    (hm : ∀ f ∈ fs, f ∈ es) (hr : ∀ f ∈ fs, agrees f.2 f.2 = true) :
    agreesWithin es fs = true := by
  induction fs with
  | nil => rfl
  | cons f fs ih =>
    obtain ⟨k, v⟩ := f
    obtain ⟨hf, hfs⟩ := List.forall_mem_cons.1 hm
    obtain ⟨hv, hvs⟩ := List.forall_mem_cons.1 hr
    rw [agreesWithin, Entries.get?_of_mem hn hf, ih hfs hvs]
    simpa using hv

mutual
theorem agrees_refl : (v : Value) → v.keyed = true → v.agrees v = true
  | .list items, h => by
    simp only [keyed] at h
    simp only [agrees, agreesAll_refl items h]
  | .tuple items, h => by
    simp only [keyed] at h
    simp only [agrees, agreesAll_refl items h]
  | .map entries, h => by
    simp only [keyed, Bool.and_eq_true, decide_eq_true_eq] at h
    have hw := agreesWithin_of_mem h.1 (fun _ hm => hm) (agreesEntries_refl entries h.2)
    simp only [agrees, beq_self_eq_true, hw, Bool.and_self]
  | .object kind fields, h => by
    simp only [keyed] at h
    have ha := agreesAll_refl fields h
    unfold agrees
    split
    case h_4 hv hw => cases hv; cases hw; exact sameLabel_refl _
    case h_5 hv hw => cases hv; cases hw; exact sameLabel_refl _
    case h_6 hw => cases hw
    case h_8 hv hw => cases hv; cases hw; rw [beq_self_eq_true, Bool.true_and, ha]
    case h_14 hne _ _ _ _ _ => exact (hne kind fields kind fields rfl rfl).elim
    all_goals next hv _ => cases hv
  | .time t, _ => by simp only [agrees, t.same_refl]
  | .text _, _ | .encoded _, _ | .null, _ | .shared _, _ | .bool _, _ | .int _, _
  | .float _ _, _ => by
    simp [agrees, number?, sameNumber_refl]

theorem agreesAll_refl : (vs : List Value) → keyedAll vs = true → agreesAll vs vs = true
  | [], _ => rfl
  | v :: vs, h => by
    simp only [keyedAll, Bool.and_eq_true] at h
    simp only [agreesAll, agrees_refl v h.1, agreesAll_refl vs h.2, Bool.and_self]

theorem agreesEntries_refl : (es : Entries Value) → keyedEntries es = true →
    ∀ e ∈ es, agrees e.2 e.2 = true
  | [], _ => fun e he => by cases he
  | (k, v) :: es, h => by
    simp only [keyedEntries, Bool.and_eq_true] at h
    exact List.forall_mem_cons.2 ⟨agrees_refl v h.1, agreesEntries_refl es h.2⟩
end

theorem agreesAll_iff {vs ws : List Value} :
    agreesAll vs ws = true ↔ List.Forall₂ (fun v w => agrees v w = true) vs ws := by
  induction vs generalizing ws with
  | nil => cases ws <;> simp [agreesAll]
  | cons v vs ih => cases ws <;> simp [agreesAll, ih]

end Value

namespace Store

/-- No map in the store has two entries for one key. -/
def keyed (s : Store) : Bool := s.cells.all Value.keyed

/-! ## Equal -/

section
variable {s : Store} {v w : Value}

theorem keyed_head (hs : s.keyed = true) (hv : v.keyed = true) : (s.head v).keyed = true := by
  cases v with
  | shared ref =>
    simp only [head, cell]
    cases hc : s.cells[ref]? with
    | none => rfl
    | some c => exact List.all_eq_true.1 hs c (List.mem_of_getElem? hc)
  | _ => exact hv

theorem keyed_layers (hs : s.keyed = true) (depth : Nat) :
    ∀ v : Value, v.keyed = true → (s.layers depth v).keyed = true := by
  induction depth with
  | zero => exact fun v _ => rfl
  | succ depth ih =>
    intro v hv
    have hh := keyed_head hs hv
    have all : ∀ {vs : List Value}, Value.keyedAll vs = true →
        Value.keyedAll (vs.map (s.layers depth)) = true := fun h =>
      Value.keyedAll_iff.2 (List.forall_mem_map.2 fun x hx => ih x (Value.keyedAll_iff.1 h x hx))
    simp only [layers]
    split
    · next hl => rw [hl, Value.keyed] at hh; exact all hh
    · next hl => rw [hl, Value.keyed] at hh; exact all hh
    · next entries hl =>
      rw [hl, Value.keyed, Bool.and_eq_true] at hh
      have hkeys : Entries.keys (entries.map fun e => (e.1, s.layers depth e.2)) =
          Entries.keys entries := by
        rw [Entries.keys, List.map_map]
        rfl
      rw [Value.keyed, hkeys, Bool.and_eq_true]
      refine ⟨hh.1, Value.keyedEntries_iff.2 (List.forall_mem_map.2 fun e he => ?_)⟩
      exact ih e.2 (Value.keyedEntries_iff.1 hh.2 e he)
    · next hl => rw [hl, Value.keyed] at hh; exact all hh
    · exact hh

theorem equal_refl (hs : s.keyed = true) (hv : v.keyed = true) : s.Equal v v :=
  ⟨0, fun depth _ => Value.agrees_refl _ (keyed_layers hs depth v hv)⟩

/-- What is alike is equal. -/
theorem Alike.equal (h : s.Alike v w) (hw : s.Equal w w) : s.Equal v w := by
  obtain ⟨least, hl⟩ := hw
  refine ⟨least, fun depth hd => ?_⟩
  rw [h depth]
  exact hl depth hd

theorem forall₂_equal_iff {vs ws : List Value} : List.Forall₂ s.Equal vs ws ↔
    ∃ least, ∀ depth, least ≤ depth →
      Value.agreesAll (vs.map (s.layers depth)) (ws.map (s.layers depth)) = true := by
  simp only [Value.agreesAll_iff, List.forall₂_map_left_iff, List.forall₂_map_right_iff]
  constructor
  · intro h
    induction h with
    | nil => exact ⟨0, fun _ _ => .nil⟩
    | cons hvw _ ih =>
      obtain ⟨m, hm⟩ := hvw
      obtain ⟨n, hn⟩ := ih
      refine ⟨max m n, fun depth hd => .cons (hm depth ?_) (hn depth ?_)⟩
      · exact Nat.le_trans (Nat.le_max_left m n) hd
      · exact Nat.le_trans (Nat.le_max_right m n) hd
  · intro h
    obtain ⟨least, h⟩ := h
    have hlen := (h least (Nat.le_refl least)).length_eq
    refine List.forall₂_iff_zip.2 ⟨hlen, fun hm => ⟨least, fun depth hd => ?_⟩⟩
    exact (List.forall₂_iff_zip.1 (h depth hd)).2 hm

/-- What can be seen one layer deeper. -/
theorem exists_least_succ {p q : Nat → Prop} (h : ∃ least, ∀ depth, least ≤ depth → p depth)
    (step : ∀ depth, p depth → q (depth + 1)) : ∃ least, ∀ depth, least ≤ depth → q depth := by
  obtain ⟨least, hp⟩ := h
  refine ⟨least + 1, fun depth hd => ?_⟩
  obtain ⟨depth, rfl⟩ : ∃ d, depth = d + 1 := ⟨depth - 1, by omega⟩
  exact step depth (hp depth (by omega))

/-- The layers of a whole are one layer and those of its parts. -/
theorem equal_iff_of_layers {as bs : List Value}
    (h : ∀ depth, (s.layers (depth + 1) v).agrees (s.layers (depth + 1) w) =
      Value.agreesAll (as.map (s.layers depth)) (bs.map (s.layers depth))) :
    s.Equal v w ↔ List.Forall₂ s.Equal as bs := by
  rw [forall₂_equal_iff]
  constructor
  · intro hl
    obtain ⟨least, hl⟩ := hl
    refine ⟨least, fun depth hd => ?_⟩
    rw [← h depth]
    exact hl (depth + 1) (Nat.le_succ_of_le hd)
  · intro hl
    exact exists_least_succ hl fun depth hd => by rw [h depth]; exact hd

theorem equal_object_iff {k : Kind} {as bs : List Value} (hk : k.isFrozen = false)
    (hv : s.head v = .object k as) (hw : s.head w = .object k bs) :
    s.Equal v w ↔ List.Forall₂ s.Equal as bs :=
  equal_iff_of_layers fun depth => by
    rw [layers_object hv, layers_object hw, Value.agrees_object hk]

theorem equal_list_iff {as bs : List Value} (hv : s.head v = .list as) (hw : s.head w = .list bs) :
    s.Equal v w ↔ List.Forall₂ s.Equal as bs :=
  equal_iff_of_layers fun depth => by rw [layers_list hv, layers_list hw, Value.agrees]

theorem layers_null (s : Store) (depth : Nat) : s.layers depth .null = .null := by
  cases depth <;> rfl

theorem layers_succ_eq_null_iff (depth : Nat) :
    s.layers (depth + 1) v = .null ↔ s.head v = .null := by
  cases hv : s.head v <;> simp [layers, hv]

/-- Nothing but null is equal to null. -/
theorem equal_null_iff : s.Equal .null v ↔ s.head v = .null := by
  constructor
  · intro h
    obtain ⟨least, h⟩ := h
    have hl := h (least + 1) (Nat.le_succ least)
    rw [layers_null, Value.agrees_null_left, layers_succ_eq_null_iff] at hl
    exact hl
  · intro h
    have ha : s.Alike v .null := alike_of_head h
    refine ⟨0, fun depth _ => ?_⟩
    rw [ha depth, layers_null]
    rfl

theorem equal_null_right_iff : s.Equal v .null ↔ s.head v = .null := by
  constructor
  · intro h
    obtain ⟨least, h⟩ := h
    have hl := h (least + 1) (Nat.le_succ least)
    rw [layers_null, Value.agrees_null_right, layers_succ_eq_null_iff] at hl
    exact hl
  · intro h
    have ha : s.Alike v .null := alike_of_head h
    exact ha.equal (equal_null_iff.2 rfl)

end

end Store

end Reassembly
