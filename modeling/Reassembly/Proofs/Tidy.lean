import Reassembly.Proofs.Parts
import Reassembly.Proofs.Regions
import Reassembly.Value.Dump

/-!
# Stores in order

A store is typed: what is in the cell of an object suits the declaration of its kind, and for some
lists it is known of what kind the objects in them are. That is looked at one layer at a time, so it
is easily kept when a cell is written to. From all layers together it follows that every object
obeys its rules to the bottom. There are no blank bytes in such a store: nobody would ask them for
blanks before they become an author.

* `Value.hasBlankBytes`: bytes in a value that are blank.
* `Store.Fits`, `Store.Made`: a value suits a rule; all objects in it suit their kinds.
* `Store.Tidy`: all cells of a store are made so, and its lists hold what they are known for.
* `Store.Onward`: what does not change from a store to a later one, whatever is written to it.
* `Made.onward`: so what is made well stays so.
* `Tidy.push`, `Tidy.writeObject`, `Tidy.writeList`: the three ways to change a store.
* `formed_of_made`: in a tidy store an object that is made well obeys its rules.
-/
namespace Reassembly

/-- Of what kind the objects in a list are, for those cells of a store that hold such lists. -/
abbrev ListKinds := Nat → Option Kind

/-- One list more is known. -/
def ListKinds.with (lists : ListKinds) (x : Nat) (kind : Option Kind) : ListKinds :=
  fun y => if y = x then kind else lists y

namespace Value

mutual
/-- A text in the value that is given as its bytes is blank. -/
def hasBlankBytes : Value → Bool
  | .encoded t => Text.isBlankText t
  | .list items => haveBlankBytes items
  | .tuple items => haveBlankBytes items
  | .map entries => entriesHaveBlankBytes entries
  | .object _ fields => haveBlankBytes fields
  | .null | .bool _ | .int _ | .float _ _ | .text _ | .time _ | .shared _ => false

def haveBlankBytes : List Value → Bool
  | [] => false
  | v :: vs => v.hasBlankBytes || haveBlankBytes vs

def entriesHaveBlankBytes : List (Key × Value) → Bool
  | [] => false
  | (_, v) :: es => v.hasBlankBytes || entriesHaveBlankBytes es
end

end Value

namespace Store

/-- The value is an object of the kind, whatever is in it. -/
def isOf (s : Store) (k : Kind) (v : Value) : Bool := (s.kind? v).any (·.isA k)

/-- A list that is written out holds objects of the kind, one that is shared is known to. -/
def IsListing (s : Store) (lists : ListKinds) (k : Kind) : Value → Prop
  | .list items => ∀ i ∈ items, s.isOf k i = true
  | .shared x => lists x = some k
  | _ => False

/-- The value suits the rule, as far as can be seen from outside of the objects. -/
def Fits (s : Store) (lists : ListKinds) : Rule → Value → Prop
  | .anything, _ => True
  | .text, v | .textOrEmpty, v => ∃ t, v = .text t
  | .label, v => v.isLabel = true
  | .author, v => v = .null ∨ v.isLabel = true
  | .integer, v => v.isInteger = true
  | .timestamp, v => s.isTimestamp v = true
  | .properties, v => s.isMapOf (fun _ => true) v = true
  | .counts, v => s.isMapOf Value.isInteger v = true
  | .one k, v => s.isOf k v = true
  | .many k, v => s.IsListing lists k v
  | .contents, v => s.IsListing lists .content v
  | .messages, v => s.IsListing lists .message v
  | .optional r, v => v = .null ∨ s.Fits lists r v

/-- The fields are those of an object of the kind. The response in an accumulator is one, and nobody
declares more about it. -/
def Suits (s : Store) (lists : ListKinds) (k : Kind) (fields : List Value) : Prop :=
  if k = .accumulator then
    ∃ coalesce n response notes, fields = [coalesce, .int n, response, notes] ∧
      s.isOf .response response = true
  else List.Forall₂ (fun f v => s.Fits lists f.rule v) k.fields fields

mutual
/-- All references lead to cells, all objects that are written out in the value suit their kinds,
and no bytes are blank. -/
def Made (s : Store) (lists : ListKinds) : Value → Prop
  | .list items => s.MadeAll lists items
  | .tuple items => s.MadeAll lists items
  | .map entries => s.MadeEntries lists entries
  | .object k fields => s.Suits lists k fields ∧ s.MadeAll lists fields
  | .shared x => x < s.size
  | .encoded t => Text.isBlankText t = false
  | .null | .bool _ | .int _ | .float _ _ | .text _ | .time _ => True

def MadeAll (s : Store) (lists : ListKinds) : List Value → Prop
  | [] => True
  | v :: vs => s.Made lists v ∧ s.MadeAll lists vs

def MadeEntries (s : Store) (lists : ListKinds) : List (Key × Value) → Prop
  | [] => True
  | (_, v) :: es => s.Made lists v ∧ s.MadeEntries lists es
end

/-- The store is in order. -/
structure Tidy (s : Store) (lists : ListKinds) : Prop where
  /-- the labels that have names are there -/
  room : empty.size ≤ s.size
  shareable : ∀ x, x < s.size → (s.cell x).isShareable = true
  made : ∀ x, x < s.size → s.Made lists (s.cell x)
  known : ∀ x k, lists x = some k →
    x < s.size ∧ ∃ items, s.cell x = .list items ∧ ∀ i ∈ items, s.isOf k i = true

/-- A later store, in which objects may have other fields and lists other items. -/
structure Onward (s : Store) (lists : ListKinds) (t : Store) (more : ListKinds) : Prop where
  size : s.size ≤ t.size
  maps : ∀ x es, s.cell x = .map es → t.cell x = .map es
  times : ∀ x c, s.cell x = .time c → t.cell x = .time c
  objects : ∀ x k fields, s.cell x = .object k fields → ∃ later, t.cell x = .object k later
  known : ∀ x k, lists x = some k → more x = some k

/-! ## Small facts -/

section
variable {s t u : Store} {lists more most : ListKinds} {v w : Value} {k : Kind}

theorem kind?_eq_some : s.kind? v = some k ↔ ∃ fields, s.head v = .object k fields := by
  unfold kind?
  cases s.head v <;> simp

theorem isOf_iff : s.isOf k v = true ↔
    ∃ l fields, s.head v = .object l fields ∧ l.isA k = true := by
  unfold isOf kind?
  cases s.head v <;> simp

theorem isOf_of_head {l : Kind} {fields : List Value} (hv : s.head v = .object l fields)
    (hl : l.isA k = true) : s.isOf k v = true := isOf_iff.2 ⟨l, fields, hv, hl⟩

@[simp] theorem made_null : s.Made lists .null := trivial

@[simp] theorem made_text (t : String) : s.Made lists (.text t) := trivial

@[simp] theorem made_bool (b : Bool) : s.Made lists (.bool b) := trivial

@[simp] theorem made_int (n : Int) : s.Made lists (.int n) := trivial

theorem madeAll_iff {vs : List Value} : s.MadeAll lists vs ↔ ∀ v ∈ vs, s.Made lists v := by
  induction vs with
  | nil => simp [MadeAll]
  | cons v vs ih => simp [MadeAll, ih]

@[simp] theorem made_list {items : List Value} :
    s.Made lists (.list items) ↔ ∀ i ∈ items, s.Made lists i := madeAll_iff

@[simp] theorem made_tuple {items : List Value} :
    s.Made lists (.tuple items) ↔ ∀ i ∈ items, s.Made lists i := madeAll_iff

theorem madeEntries_iff {es : Entries Value} :
    s.MadeEntries lists es ↔ ∀ e ∈ es, s.Made lists e.2 := by
  induction es with
  | nil => simp [MadeEntries]
  | cons e es ih => simp [MadeEntries, ih]

@[simp] theorem made_map {es : Entries Value} :
    s.Made lists (.map es) ↔ ∀ e ∈ es, s.Made lists e.2 := madeEntries_iff

@[simp] theorem made_object {fields : List Value} :
    s.Made lists (.object k fields) ↔
      s.Suits lists k fields ∧ ∀ f ∈ fields, s.Made lists f := by
  rw [Made, madeAll_iff]

@[simp] theorem made_shared {x : Nat} : s.Made lists (.shared x) ↔ x < s.size := Iff.rfl

theorem suits_iff (hk : k ≠ .accumulator) {fields : List Value} : s.Suits lists k fields ↔
    List.Forall₂ (fun f v => s.Fits lists f.rule v) k.fields fields := by
  rw [Suits, if_neg hk]

mutual
theorem refs_of_made : (v : Value) → s.Made lists v → ∀ x ∈ v.refs, x < s.size
  | .list items, h => refs_of_madeAll items h
  | .tuple items, h => refs_of_madeAll items h
  | .map entries, h => refs_of_madeEntries entries h
  | .object _ fields, h => refs_of_madeAll fields h.2
  | .shared x, h => by
    intro y hy
    rw [List.mem_singleton.1 hy]
    exact h
  | .null, _ | .bool _, _ | .int _, _ | .float _ _, _ | .text _, _ | .encoded _, _
  | .time _, _ => by simp [Value.refs]

theorem refs_of_madeAll : (vs : List Value) → s.MadeAll lists vs →
    ∀ x ∈ Value.refsAll vs, x < s.size
  | [], _ => by simp [Value.refsAll]
  | v :: vs, h => fun x hx => (List.mem_append.1 hx).elim (refs_of_made v h.1 x)
      (refs_of_madeAll vs h.2 x)

theorem refs_of_madeEntries : (es : List (Key × Value)) → s.MadeEntries lists es →
    ∀ x ∈ Value.refsEntries es, x < s.size
  | [], _ => by simp [Value.refsEntries]
  | (_, v) :: es, h => fun x hx => (List.mem_append.1 hx).elim (refs_of_made v h.1 x)
      (refs_of_madeEntries es h.2 x)
end

theorem Made.holds (h : s.Made lists v) : s.Holds [] v :=
  fun x hx => ⟨refs_of_made v h x hx, List.not_mem_nil⟩

mutual
theorem made_of_plain : (v : Value) → v.isPlain = true → v.hasBlankBytes = false →
    (∀ x ∈ v.refs, x < s.size) → s.Made lists v
  | .list items, hp, hb, h => madeAll_of_plain items hp hb h
  | .tuple items, hp, hb, h => madeAll_of_plain items hp hb h
  | .map entries, hp, hb, h => madeEntries_of_plain entries hp hb h
  | .object _ _, hp, _, _ => by cases hp
  | .shared x, _, _, h => h x (List.mem_singleton_self x)
  | .encoded _, _, hb, _ => hb
  | .null, _, _, _ | .bool _, _, _, _ | .int _, _, _, _ | .float _ _, _, _, _ | .text _, _, _, _
  | .time _, _, _, _ => trivial

theorem madeAll_of_plain : (vs : List Value) → Value.isPlainAll vs = true →
    Value.haveBlankBytes vs = false → (∀ x ∈ Value.refsAll vs, x < s.size) → s.MadeAll lists vs
  | [], _, _, _ => trivial
  | v :: vs, hp, hb, h => by
    rw [Value.isPlainAll, Bool.and_eq_true] at hp
    rw [Value.haveBlankBytes, Bool.or_eq_false_iff] at hb
    exact ⟨made_of_plain v hp.1 hb.1 fun x hx => h x (List.mem_append_left _ hx),
      madeAll_of_plain vs hp.2 hb.2 fun x hx => h x (List.mem_append_right _ hx)⟩

theorem madeEntries_of_plain : (es : List (Key × Value)) → Value.isPlainEntries es = true →
    Value.entriesHaveBlankBytes es = false → (∀ x ∈ Value.refsEntries es, x < s.size) →
    s.MadeEntries lists es
  | [], _, _, _ => trivial
  | (_, v) :: es, hp, hb, h => by
    rw [Value.isPlainEntries, Bool.and_eq_true] at hp
    rw [Value.entriesHaveBlankBytes, Bool.or_eq_false_iff] at hb
    exact ⟨made_of_plain v hp.1 hb.1 fun x hx => h x (List.mem_append_left _ hx),
      madeEntries_of_plain es hp.2 hb.2 fun x hx => h x (List.mem_append_right _ hx)⟩
end

/-! ## Later stores -/

theorem Onward.refl (s : Store) (lists : ListKinds) : s.Onward lists s lists where
  size := Nat.le_refl _
  maps := fun _ _ h => h
  times := fun _ _ h => h
  objects := fun _ _ fields h => ⟨fields, h⟩
  known := fun _ _ h => h

theorem Onward.trans (h : s.Onward lists t more) (k : t.Onward more u most) :
    s.Onward lists u most where
  size := Nat.le_trans h.size k.size
  maps := fun x es hx => k.maps x es (h.maps x es hx)
  times := fun x c hx => k.times x c (h.times x c hx)
  objects := fun x l fields hx => by
    obtain ⟨later, hl⟩ := h.objects x l fields hx
    exact k.objects x l later hl
  known := fun x l hx => k.known x l (h.known x l hx)

theorem Onward.of_extends (h : s.Extends t) (hl : ∀ x k, lists x = some k → more x = some k) :
    s.Onward lists t more := by
  have same : ∀ {x v}, v ≠ .null → s.cell x = v → t.cell x = v := by
    intro x v hv hx
    rw [h.cell (lt_size_of_cell hx hv), hx]
  exact ⟨List.IsPrefix.length_le h, fun x es => same (by simp), fun x c => same (by simp),
    fun x k fields hx => ⟨fields, same (by simp) hx⟩, hl⟩

theorem Onward.kind? (h : s.Onward lists t more) (hv : s.kind? v = some k) :
    t.kind? v = some k := by
  obtain ⟨fields, hhead⟩ := kind?_eq_some.1 hv
  cases v with
  | shared x => exact kind?_eq_some.2 (h.objects x k fields hhead)
  | _ => exact kind?_eq_some.2 ⟨fields, hhead⟩

theorem Onward.isOf (h : s.Onward lists t more) (hv : s.isOf k v = true) : t.isOf k v = true := by
  obtain ⟨l, hl, hlk⟩ := (Option.any_eq_true _ _).1 hv
  exact (Option.any_eq_true _ _).2 ⟨l, h.kind? hl, hlk⟩

theorem Onward.isTimestamp (h : s.Onward lists t more) (hv : s.isTimestamp v = true) :
    t.isTimestamp v = true := by
  obtain ⟨c, hc⟩ := isTimestamp_iff.1 hv
  cases v with
  | shared x => exact isTimestamp_iff.2 ⟨c, h.times x c hc⟩
  | _ => exact hv

theorem Onward.isMapOf (h : s.Onward lists t more) {test : Value → Bool}
    (hv : s.isMapOf test v = true) : t.isMapOf test v = true := by
  obtain ⟨es, he, hall⟩ := isMapOf_iff.1 hv
  cases v with
  | shared x => exact isMapOf_iff.2 ⟨es, h.maps x es he, hall⟩
  | _ => exact hv

theorem IsListing.onward (h : s.Onward lists t more) (hv : s.IsListing lists k v) :
    t.IsListing more k v := by
  cases v with
  | list items => exact fun i hi => h.isOf (hv i hi)
  | shared x => exact h.known x k hv
  | _ => exact hv

theorem Fits.onward (h : s.Onward lists t more) {r : Rule} (hv : s.Fits lists r v) :
    t.Fits more r v := by
  induction r with
  | timestamp => exact h.isTimestamp hv
  | properties => exact h.isMapOf hv
  | counts => exact h.isMapOf hv
  | one k => exact h.isOf hv
  | many k => exact IsListing.onward h hv
  | contents => exact IsListing.onward h hv
  | messages => exact IsListing.onward h hv
  | optional r ih => exact hv.imp id ih
  | _ => exact hv

theorem Suits.onward (h : s.Onward lists t more) {fields : List Value}
    (hf : s.Suits lists k fields) : t.Suits more k fields := by
  unfold Suits at hf ⊢
  split
  · next hk =>
    rw [if_pos hk] at hf
    obtain ⟨coalesce, n, response, notes, he, hr⟩ := hf
    exact ⟨coalesce, n, response, notes, he, h.isOf hr⟩
  · next hk =>
    rw [if_neg hk] at hf
    exact hf.imp fun f v hv => hv.onward h

mutual
/-- **What is made well** stays so. -/
theorem Made.onward (h : s.Onward lists t more) : (v : Value) → s.Made lists v → t.Made more v
  | .list items, hv => MadeAll.onward h items hv
  | .tuple items, hv => MadeAll.onward h items hv
  | .map entries, hv => MadeEntries.onward h entries hv
  | .object _ fields, hv => ⟨hv.1.onward h, MadeAll.onward h fields hv.2⟩
  | .shared _, hv => Nat.lt_of_lt_of_le hv h.size
  | .encoded _, hv => hv
  | .null, _ | .bool _, _ | .int _, _ | .float _ _, _ | .text _, _ | .time _, _ => trivial

theorem MadeAll.onward (h : s.Onward lists t more) :
    (vs : List Value) → s.MadeAll lists vs → t.MadeAll more vs
  | [], _ => trivial
  | v :: vs, hv => ⟨Made.onward h v hv.1, MadeAll.onward h vs hv.2⟩

theorem MadeEntries.onward (h : s.Onward lists t more) :
    (es : List (Key × Value)) → s.MadeEntries lists es → t.MadeEntries more es
  | [], _ => trivial
  | (_, v) :: es, hv => ⟨Made.onward h v hv.1, MadeEntries.onward h es hv.2⟩
end

/-! ## Tidy stores -/

namespace Tidy

theorem sound (h : s.Tidy lists) : s.Sound [] where
  inside := fun _ hx => absurd hx List.not_mem_nil
  shareable := fun x hx _ => h.shareable x hx
  closed := fun x hx _ => (h.made x hx).holds

theorem head (h : s.Tidy lists) (hv : s.Made lists v) : s.Made lists (s.head v) := by
  cases v with
  | shared x => exact h.made x hv
  | _ => exact hv

theorem inherits (h : s.Tidy lists) : s.Inherits (s.Made lists) :=
  ⟨made_null, h.head, made_list, made_map, fun hv => (made_object.1 hv).2⟩

theorem known_lt (h : s.Tidy lists) {x : Nat} (hx : lists x = some k) : x < s.size :=
  (h.known x k hx).1

/-- **A new cell.** If it holds a list, what the list is known for may be settled. -/
theorem push (h : s.Tidy lists) (hv : s.Made lists v) (hs : v.isShareable = true)
    (kind : Option Kind)
    (hk : ∀ k, kind = some k → ∃ items, v = .list items ∧ ∀ i ∈ items, s.isOf k i = true) :
    s.Onward lists (s.push v).1 (lists.with s.size kind) ∧
      (s.push v).1.Tidy (lists.with s.size kind) := by
  have onward : s.Onward lists (s.push v).1 (lists.with s.size kind) := by
    refine .of_extends (extends_push s v) fun x k hx => ?_
    have hlt := h.known_lt hx
    rw [ListKinds.with, if_neg (by omega)]
    exact hx
  have cells : ∀ x, x < (s.push v).1.size →
      (x < s.size ∧ (s.push v).1.cell x = s.cell x) ∨ (x = s.size ∧ (s.push v).1.cell x = v) := by
    intro x hx
    rw [show (s.push v).1.size = s.size + 1 by simp [Store.push, size]] at hx
    by_cases hlt : x < s.size
    · exact Or.inl ⟨hlt, (extends_push s v).cell hlt⟩
    · have he : x = s.size := by omega
      exact Or.inr ⟨he, by simp [he, Store.push, cell, size]⟩
  refine ⟨onward, Nat.le_trans h.room onward.size, fun x hx => ?_, fun x hx => ?_, fun x k hx => ?_⟩
  · rcases cells x hx with ⟨hlt, hc⟩ | ⟨-, hc⟩ <;> rw [hc]
    · exact h.shareable x hlt
    · exact hs
  · rcases cells x hx with ⟨hlt, hc⟩ | ⟨-, hc⟩ <;> rw [hc]
    · exact Made.onward onward _ (h.made x hlt)
    · exact Made.onward onward _ hv
  · by_cases hn : x = s.size
    · rw [ListKinds.with, if_pos hn] at hx
      obtain ⟨items, rfl, hi⟩ := hk k hx
      refine ⟨by simp [hn, Store.push, size], items, ?_, fun i him => onward.isOf (hi i him)⟩
      simp [hn, Store.push, cell, size]
    · rw [ListKinds.with, if_neg hn] at hx
      obtain ⟨hlt, items, hc, hi⟩ := h.known x k hx
      refine ⟨Nat.lt_of_lt_of_le hlt onward.size, items, ?_, fun i him => onward.isOf (hi i him)⟩
      rw [(extends_push s v).cell hlt, hc]

/-- What is written to a cell must be well made, and the cell must stay what it is known for. -/
theorem write {x : Nat} (h : s.Tidy lists) (onward : s.Onward lists (s.write (.shared x) v) lists)
    (hx : x < s.size) (hv : s.Made lists v) (hs : v.isShareable = true)
    (hk : ∀ k, lists x = some k → ∃ items, v = .list items ∧ ∀ i ∈ items, s.isOf k i = true) :
    (s.write (.shared x) v).Tidy lists := by
  have hsize := s.size_write (.shared x) v
  have other : ∀ y, y ≠ x → (s.write (.shared x) v).cell y = s.cell y := fun y hy =>
    s.cell_write_of_ne fun e => hy (Value.shared.inj e).symm
  have self : (s.write (.shared x) v).cell x = v := s.cell_write_self hx
  refine ⟨hsize ▸ h.room, fun y hy => ?_, fun y hy => ?_, fun y k hy => ?_⟩
  · by_cases he : y = x
    · rw [he, self]
      exact hs
    · rw [other y he]
      exact h.shareable y (hsize ▸ hy)
  · refine Made.onward onward _ ?_
    by_cases he : y = x
    · rw [he, self]
      exact hv
    · rw [other y he]
      exact h.made y (hsize ▸ hy)
  · rw [hsize]
    by_cases he : y = x
    · obtain ⟨items, rfl, hi⟩ := hk k (he ▸ hy)
      exact ⟨he ▸ hx, items, he ▸ self, fun i him => onward.isOf (hi i him)⟩
    · obtain ⟨hlt, items, hc, hi⟩ := h.known y k hy
      exact ⟨hlt, items, (other y he).trans hc, fun i him => onward.isOf (hi i him)⟩

/-- **Other fields** are written to an object. -/
theorem writeObject {x : Nat} {fields later : List Value} (h : s.Tidy lists)
    (hx : s.cell x = .object k fields) (hv : s.Made lists (.object k later)) :
    s.Onward lists (s.write (.shared x) (.object k later)) lists ∧
      (s.write (.shared x) (.object k later)).Tidy lists := by
  have hlt : x < s.size := lt_size_of_cell hx (by simp)
  have onward : s.Onward lists (s.write (.shared x) (.object k later)) lists := by
    refine ⟨Nat.le_of_eq (s.size_write _ _).symm,
      fun y es hy => cell_write_of_other hx hy (by simp),
      fun y c hy => cell_write_of_other hx hy (by simp), fun y l fs hy => ?_, fun y l hy => hy⟩
    by_cases he : y = x
    · subst he
      rw [hx, Value.object.injEq] at hy
      exact ⟨later, hy.1 ▸ s.cell_write_self hlt⟩
    · exact ⟨fs, (s.cell_write_of_ne fun e => he (Value.shared.inj e).symm).trans hy⟩
  refine ⟨onward, h.write onward hlt hv rfl fun l hl => ?_⟩
  obtain ⟨-, items, hc, -⟩ := h.known x l hl
  rw [hx] at hc
  cases hc

/-- **Other items** are written to a list. They must be what the list is known for. -/
theorem writeList {x : Nat} {items : List Value} (later : List Value) (h : s.Tidy lists)
    (hx : s.cell x = .list items) (hv : ∀ i ∈ later, s.Made lists i)
    (hk : ∀ k, lists x = some k → ∀ i ∈ later, s.isOf k i = true) :
    s.Onward lists (s.write (.shared x) (.list later)) lists ∧
      (s.write (.shared x) (.list later)).Tidy lists := by
  have hlt : x < s.size := lt_size_of_cell hx (by simp)
  have onward : s.Onward lists (s.write (.shared x) (.list later)) lists :=
    ⟨Nat.le_of_eq (s.size_write _ _).symm, fun y es hy => cell_write_of_other hx hy (by simp),
      fun y c hy => cell_write_of_other hx hy (by simp),
      fun y l fs hy => ⟨fs, cell_write_of_other hx hy (by simp)⟩, fun y l hy => hy⟩
  exact ⟨onward, h.write onward hlt (made_list.2 hv) rfl fun k hxk => ⟨later, rfl, hk k hxk⟩⟩

end Tidy

/-! ## To the bottom -/

theorem target_ne_accumulator (k : Kind) :
    ∀ f ∈ k.fields, f.rule.target? ≠ some .accumulator := by
  cases k <;> decide

theorem IsListing.items (ht : s.Tidy lists) (hv : s.Made lists v) (h : s.IsListing lists k v) :
    ∃ items, s.head v = .list items ∧ ∀ i ∈ items, s.isOf k i = true ∧ s.Made lists i := by
  have made : ∀ {items}, s.head v = .list items → ∀ i ∈ items, s.Made lists i :=
    fun hh => made_list.1 (hh ▸ ht.head hv)
  cases v with
  | list items => exact ⟨items, rfl, fun i hi => ⟨h i hi, made rfl i hi⟩⟩
  | shared x =>
    obtain ⟨-, items, hc, hi⟩ := ht.known x k h
    exact ⟨items, hc, fun i him => ⟨hi i him, made hc i him⟩⟩
  | _ => exact h.elim

theorem obeys_of_fits_of_objects (ht : s.Tidy lists) {r : Rule}
    (objects : ∀ k, r.target? = some k → ∀ v, s.Made lists v → s.isOf k v = true →
      s.formed k v = true) (hv : s.Made lists v) (h : s.Fits lists r v) : s.obeys r v = true := by
  have list : ∀ {k}, r.target? = some k → s.IsListing lists k v →
      s.isListOf (s.formed k) v = true := by
    intro k hk hl
    obtain ⟨items, hhead, hi⟩ := IsListing.items ht hv hl
    exact isListOf_iff.2 ⟨items, hhead, fun i him => objects k hk i (hi i him).2 (hi i him).1⟩
  induction r with
  | anything => rfl
  | text => exact obeys_text.2 h
  | textOrEmpty => exact obeys_textOrEmpty.2 h
  | label => exact h
  | author => exact obeys_author.2 (h.imp id isLabel_iff.1)
  | integer => exact h
  | timestamp => exact h
  | properties => exact h
  | counts => exact h
  | one k => exact objects k rfl v hv h
  | many k => exact list rfl h
  | contents => exact list rfl h
  | messages => exact list rfl h
  | optional r ih => exact obeys_optional.2 (h.imp id fun h => ih objects h list)

/-- **In a tidy store** an object that is made well obeys its rules to the bottom. -/
theorem formed_of_made (ht : s.Tidy lists) (hk : k ≠ .accumulator) (hv : s.Made lists v)
    (h : s.isOf k v = true) : s.formed k v = true := by
  -- the objects in an object of a kind are of smaller depth
  induction hd : k.depth using Nat.strongRecOn generalizing k v with
  | ind depth ih =>
    obtain ⟨l, fields, hhead, hl⟩ := isOf_iff.1 h
    obtain ⟨hsuits, hparts⟩ := made_object.1 (hhead ▸ ht.head hv)
    have hlk : l ≠ .accumulator := by
      rintro rfl
      cases k <;> first | exact hk rfl | cases hl
    rw [suits_iff hlk, List.forall₂_iff_zip] at hsuits
    refine formed_iff.2 ⟨l, fields, hhead, hl,
      List.forall₂_iff_zip.2 ⟨hsuits.1, fun {f x} hm => ?_⟩⟩
    obtain ⟨hf, hx⟩ := List.of_mem_zip hm
    refine obeys_of_fits_of_objects ht (fun j hj w hw hobj => ?_) (hparts x hx) (hsuits.2 hm)
    have hdepth := l.depth_target f hf j hj
    rw [depth_of_isA hl, hd] at hdepth
    exact ih j.depth hdepth (fun e => target_ne_accumulator l f hf (e ▸ hj)) hw hobj rfl

end

end Store

end Reassembly
