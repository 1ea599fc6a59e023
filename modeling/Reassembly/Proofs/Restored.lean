import Reassembly.Proofs.WrittenOut
import Reassembly.Session

/-!
# What comes back of a dump

A dump of an object can be validated again. What comes back is the object, but for three things.
What the maker of an object has left in it for itself is gone. Where a field declares content items,
annotations or regions, what comes back is of the declared kind and no more special one. And with
the special kind go the fields that only it has.

* `Value.restored`: what comes back.
* `Store.Whole`: an object that is written out in full, with plain data in all properties.
* `construct_eq`: what a constructor makes, field by field.
* `validate_dump`: the dump of a whole object validates, to what should come back.
* `whole_restored`, `restored_restored`: that is whole again, and all of it comes back of its dump.
-/
namespace Reassembly

open Checked Text

/-! ## What comes back -/

namespace Value

mutual
/-- What comes back of a value where objects of the kind are declared, or none. -/
def restored (declared : Option Kind) : Value → Value
  | .list items => .list (restoredAll declared items)
  | .object l fields =>
    match declared with
    | some k => .object k (restoredFields k.fields fields)
    | none => .object l fields
  | .null => .null
  | .bool b => .bool b
  | .int n => .int n
  | .float m e => .float m e
  | .text t => .text t
  | .encoded t => .encoded t
  | .time t => .time t
  | .tuple items => .tuple items
  | .map entries => .map entries
  | .shared ref => .shared ref

def restoredAll (declared : Option Kind) : List Value → List Value
  | [] => []
  | v :: vs => v.restored declared :: restoredAll declared vs

/-- The declared fields. The raw one is null. -/
def restoredFields : List Field → List Value → List Value
  | f :: fs, v :: vs =>
    (if f.isRaw then .null else v.restored f.rule.target?) :: restoredFields fs vs
  | _, _ => []
end

mutual
/-- The properties of all objects in the value are plain data, but for those that are not dumped. -/
def hasPlainProperties : Value → Bool
  | .list items => havePlainProperties items
  | .object k fields => fieldsPlain k.fields fields
  | _ => true

def havePlainProperties : List Value → Bool
  | [] => true
  | v :: vs => v.hasPlainProperties && havePlainProperties vs

def fieldsPlain : List Field → List Value → Bool
  | f :: fs, v :: vs =>
    (f.isRaw ||
      if f.rule = propertiesField.rule then v.isPlain else v.hasPlainProperties) &&
        fieldsPlain fs vs
  | _, _ => true
end

theorem restoredAll_eq_map (k : Option Kind) (vs : List Value) :
    restoredAll k vs = vs.map (restored k) := by
  induction vs with
  | nil => rfl
  | cons v vs ih => rw [restoredAll, ih, List.map_cons]

theorem havePlainProperties_iff {vs : List Value} :
    havePlainProperties vs = true ↔ ∀ v ∈ vs, v.hasPlainProperties = true := by
  induction vs with
  | nil => simp [havePlainProperties]
  | cons v vs ih => simp [havePlainProperties, ih]

theorem dumpAll_eq_map (vs : List Value) : dumpAll vs = vs.map dump := by
  induction vs with
  | nil => rfl
  | cons v vs ih => rw [dumpAll, ih, List.map_cons]

mutual
theorem dump_of_isPlain : (v : Value) → v.isPlain = true → v.dump = v
  | .list items, h => by rw [dump, dumpAll_of_isPlain items h]
  | .tuple items, h => by rw [dump, dumpAll_of_isPlain items h]
  | .map entries, h => by rw [dump, dumpEntries_of_isPlain entries h]
  | .object _ _, h => by cases h
  | .null, _ | .bool _, _ | .int _, _ | .float _ _, _ | .text _, _ | .encoded _, _ | .time _, _
  | .shared _, _ => rfl

theorem dumpAll_of_isPlain : (vs : List Value) → isPlainAll vs = true → dumpAll vs = vs
  | [], _ => rfl
  | v :: vs, h => by
    rw [isPlainAll, Bool.and_eq_true] at h
    rw [dumpAll, dump_of_isPlain v h.1, dumpAll_of_isPlain vs h.2]

theorem dumpEntries_of_isPlain :
    (es : List (Key × Value)) → isPlainEntries es = true → dumpEntries es = es
  | [], _ => rfl
  | (_, v) :: es, h => by
    rw [isPlainEntries, Bool.and_eq_true] at h
    rw [dumpEntries, dump_of_isPlain v h.1, dumpEntries_of_isPlain es h.2]
end

theorem isPlainEntries_of_integers {es : Entries Value} (h : ∀ e ∈ es, e.2.isInteger = true) :
    isPlainEntries es = true := by
  induction es with
  | nil => rfl
  | cons e es ih =>
    obtain ⟨he, hes⟩ := List.forall_mem_cons.1 h
    have hplain : e.2.isPlain = true := by
      cases hv : e.2 <;> first | rfl | (rw [hv] at he; cases he)
    rw [isPlainEntries, hplain, ih hes]
    rfl

mutual
theorem hasPlainProperties_of_isPlain : (v : Value) → v.isPlain = true → v.hasPlainProperties = true
  | .list items, h => havePlainProperties_of_isPlain items h
  | .object _ _, h => by cases h
  | .null, _ | .bool _, _ | .int _, _ | .float _ _, _ | .text _, _ | .encoded _, _ | .time _, _
  | .tuple _, _ | .map _, _ | .shared _, _ => rfl

theorem havePlainProperties_of_isPlain :
    (vs : List Value) → isPlainAll vs = true → havePlainProperties vs = true
  | [], _ => rfl
  | v :: vs, h => by
    rw [isPlainAll, Bool.and_eq_true] at h
    rw [havePlainProperties, hasPlainProperties_of_isPlain v h.1,
      havePlainProperties_of_isPlain vs h.2]
    rfl
end

mutual
theorem restored_none : (v : Value) → v.restored none = v
  | .list items => by rw [restored, restoredAll_none items]
  | .null | .bool _ | .int _ | .float _ _ | .text _ | .encoded _ | .time _ | .tuple _ | .map _
  | .object _ _ | .shared _ => rfl

theorem restoredAll_none : (vs : List Value) → restoredAll none vs = vs
  | [] => rfl
  | v :: vs => by rw [restoredAll, restored_none v, restoredAll_none vs]
end

mutual
/-- What has come back once comes back as it is. -/
theorem restored_restored (k : Option Kind) :
    (v : Value) → (v.restored k).restored k = v.restored k
  | .list items => by rw [restored, restored, restoredAll_restoredAll k items]
  | .object l fields => by
    cases k with
    | none => rfl
    | some k => rw [restored, restored, restoredFields_restoredFields k.fields fields]
  | .null | .bool _ | .int _ | .float _ _ | .text _ | .encoded _ | .time _ | .tuple _ | .map _
  | .shared _ => rfl

theorem restoredAll_restoredAll (k : Option Kind) :
    (vs : List Value) → restoredAll k (restoredAll k vs) = restoredAll k vs
  | [] => rfl
  | v :: vs => by
    rw [restoredAll, restoredAll, restored_restored k v, restoredAll_restoredAll k vs]

theorem restoredFields_restoredFields :
    (fs : List Field) → (vs : List Value) →
      restoredFields fs (restoredFields fs vs) = restoredFields fs vs
  | [], vs => by simp only [restoredFields]
  | _ :: _, [] => by simp only [restoredFields]
  | f :: fs, v :: vs => by
    rw [restoredFields, restoredFields, restoredFields_restoredFields fs vs]
    split
    · rfl
    · rw [restored_restored f.rule.target? v]
end

end Value

/-! ## What fields declare -/

/-- All values that obey the rule are plain data. -/
def Rule.isFlat : Rule → Bool
  | .text | .textOrEmpty | .label | .author | .integer | .timestamp | .counts => true
  | .optional r => r.isFlat
  | _ => false

namespace Kind

theorem flat_field {k : Kind} (hk : k ≠ .accumulator) : ∀ f ∈ k.fields, f.isRaw = false →
    f.rule ≠ propertiesField.rule → f.rule.target? = none → f.rule.isFlat = true := by
  cases k <;> first | exact absurd rfl hk | decide

theorem raw_field (k : Kind) : ∀ f ∈ k.fields, f.isRaw = true → f = rawField := by
  cases k <;> decide

theorem names_nodup (k : Kind) : (k.fields.map (·.name)).Nodup := by
  cases k <;> decide

/-- Of the declared fields only the counters of a usage item and the text of a finish reason have
something to put in the place of null. -/
theorem whenNull_field {k : Kind} (hu : k ≠ .usage) (hf : k ≠ .finish) :
    ∀ f ∈ k.fields, f.whenNull = none := by
  cases k <;> first | exact absurd rfl hu | exact absurd rfl hf | decide

theorem target_field (k : Kind) : ∀ f ∈ k.fields, ∀ l, f.rule.target? = some l →
    l ≠ .usage ∧ l ≠ .accumulator := by
  cases k <;> decide +revert

/-- A more special kind has all fields of the kind, and they come first. -/
theorem fields_prefix {k l : Kind} (h : l.isA k = true) : k.fields <+: l.fields := by
  cases k <;> cases l <;>
    first
    | exact List.prefix_refl _
    | exact ⟨_, rfl⟩
    | cases h

end Kind

/-! ## Constructors, field by field -/

namespace Store

section
variable {s : Store} {k : Kind} {v : Value}

theorem checkOne_congr {c d : Kind → Entries Value → Checked Value} (h : ∀ es, c k es = d k es) :
    checkOne s c k = checkOne s d k := by
  funext v
  simp only [checkOne, h]

theorem constructTo_succ (depth : Nat) : ∀ k, k.depth ≤ depth → ∀ given,
    constructTo s (depth + 1) k given = constructTo s depth k given := by
  induction depth with
  | zero =>
    intro k hk given
    rw [constructTo, constructTo]
    congr 2
    refine List.map_congr_left fun f hf => ?_
    have none : ∀ l, f.rule.target? = some l →
        checkOne s (constructTo s 0) l = fun _ => fail .notObject := fun l hl => by
      have := k.depth_target f hf l hl
      omega
    rw [funext (checkRule_congr s f.rule none)]
  | succ depth ih =>
    intro k hk given
    rw [constructTo, constructTo]
    congr 2
    refine List.map_congr_left fun f hf => ?_
    have same : ∀ l, f.rule.target? = some l →
        checkOne s (constructTo s (depth + 1)) l = checkOne s (constructTo s depth) l :=
      fun l hl => checkOne_congr (ih l (by
        have := k.depth_target f hf l hl
        omega))
    rw [funext (checkRule_congr s f.rule same)]

theorem constructTo_eq {depth : Nat} (h : k.depth ≤ depth) (given : Entries Value) :
    constructTo s depth k given = construct s k given := by
  induction h with
  | refl => rfl
  | step h ih => rw [constructTo_succ _ k h, ih]

/-- **What a constructor makes**, field by field. -/
theorem construct_eq (s : Store) (k : Kind) (given : Entries Value) :
    construct s k given =
      (collect (k.fields.map fun f =>
        within f.name ((f.take given).bind (checkRule s (validate s) f.rule)))).map
        (.object k) := by
  rw [← constructTo_eq (Nat.le_succ k.depth), constructTo]
  congr 2
  refine List.map_congr_left fun f hf => ?_
  have same : ∀ l, f.rule.target? = some l →
      checkOne s (constructTo s k.depth) l = validate s l := fun l hl =>
    checkOne_congr (constructTo_eq (Nat.le_of_lt (k.depth_target f hf l hl)))
  rw [funext (checkRule_congr s f.rule same)]

/-! ## Whole objects -/

/-- An object that obeys its rules, written out in full, with plain data in all properties. -/
structure Whole (s : Store) (k : Kind) (v : Value) : Prop where
  formed : s.formed k v = true
  written : v.refs = []
  plain : v.hasPlainProperties = true

/-- What can stand in a field of a whole object that is dumped. -/
structure WholeAs (s : Store) (r : Rule) (v : Value) : Prop where
  obeys : s.obeys r v = true
  written : v.refs = []
  plain : if r.target? = none then v.isPlain = true else v.hasPlainProperties = true

theorem WholeAs.hasPlainProperties {r : Rule} (h : s.WholeAs r v) :
    v.hasPlainProperties = true := by
  have hplain := h.plain
  split at hplain
  · exact Value.hasPlainProperties_of_isPlain v hplain
  · exact hplain

theorem head_of_written (hv : v.refs = []) : s.head v = v := by
  cases v <;> first | rfl | cases hv

theorem written_of_mem {vs : List Value} (h : Value.refsAll vs = []) : ∀ v ∈ vs, v.refs = [] := by
  intro v hv
  refine List.eq_nil_iff_forall_not_mem.2 fun x hx => ?_
  exact List.eq_nil_iff_forall_not_mem.1 h x (Value.mem_refsAll.2 ⟨v, hv, hx⟩)

theorem refsAll_eq_nil {vs : List Value} (h : ∀ v ∈ vs, v.refs = []) : Value.refsAll vs = [] := by
  refine List.eq_nil_iff_forall_not_mem.2 fun x hx => ?_
  obtain ⟨v, hv, hxv⟩ := Value.mem_refsAll.1 hx
  rw [h v hv] at hxv
  cases hxv

theorem whole_items (h : s.isListOf (s.formed k) v = true) (hw : v.refs = [])
    (hp : v.hasPlainProperties = true) : ∃ items, v = .list items ∧ ∀ i ∈ items, s.Whole k i := by
  obtain ⟨items, hitems, hi⟩ := isListOf_iff.1 h
  rw [head_of_written hw] at hitems
  subst hitems
  exact ⟨items, rfl, fun i him =>
    ⟨hi i him, written_of_mem hw i him, Value.havePlainProperties_iff.1 hp i him⟩⟩

theorem whole_list {items : List Value} (h : ∀ i ∈ items, s.Whole k i) :
    s.isListOf (s.formed k) (.list items) = true ∧ (Value.list items).refs = [] ∧
      (Value.list items).hasPlainProperties = true :=
  ⟨isListOf_iff.2 ⟨items, rfl, fun i hi => (h i hi).formed⟩,
    refsAll_eq_nil fun i hi => (h i hi).written,
    Value.havePlainProperties_iff.2 fun i hi => (h i hi).plain⟩

/-! ## The fields of a whole object -/

theorem fieldsPlain_iff {fs : List Field} {vs : List Value} :
    Value.fieldsPlain fs vs = true ↔ ∀ p ∈ fs.zip vs, p.1.isRaw = false →
      if p.1.rule = propertiesField.rule then p.2.isPlain = true
        else p.2.hasPlainProperties = true := by
  induction fs generalizing vs with
  | nil => simp [Value.fieldsPlain]
  | cons f fs ih =>
    cases vs with
    | nil => simp [Value.fieldsPlain]
    | cons v vs =>
      rw [Value.fieldsPlain, Bool.and_eq_true, ih, List.zip_cons_cons, List.forall_mem_cons,
        Bool.or_eq_true]
      refine and_congr_left' ?_
      cases f.isRaw <;> split <;> simp_all

theorem isPlain_of_flat {r : Rule} (hr : r.isFlat = true) (h : s.obeys r v = true)
    (hw : v.refs = []) : v.isPlain = true := by
  induction r with
  | text =>
    obtain ⟨t, rfl⟩ := obeys_text.1 h
    rfl
  | textOrEmpty =>
    obtain ⟨t, rfl⟩ := obeys_textOrEmpty.1 h
    rfl
  | label =>
    obtain ⟨t, rfl, -⟩ := isLabel_iff.1 h
    rfl
  | author => rcases obeys_author.1 h with rfl | ⟨t, rfl, -⟩ <;> rfl
  | integer => cases v <;> first | rfl | cases h
  | timestamp =>
    obtain ⟨t, ht⟩ := isTimestamp_iff.1 h
    rw [head_of_written hw] at ht
    rw [ht]
    rfl
  | counts =>
    obtain ⟨es, hes, hall⟩ := isMapOf_iff.1 h
    rw [head_of_written hw] at hes
    subst hes
    exact Value.isPlainEntries_of_integers fun e he => (hall e he).2
  | optional r ih =>
    rcases obeys_optional.1 h with rfl | h
    · rfl
    · exact ih hr h
  | _ => cases hr

/-- **The fields of a whole object**: those that are dumped hold whole values. -/
theorem Whole.fields (h : s.Whole k v) (hk : k ≠ .accumulator) :
    ∃ l fields, v = .object l fields ∧ l.isA k = true ∧ l.fields.length = fields.length ∧
      ∀ f x, (f, x) ∈ l.fields.zip fields → f.isRaw = false → s.WholeAs f.rule x := by
  obtain ⟨l, fields, hhead, hl, hall⟩ := formed_iff.1 h.formed
  rw [head_of_written h.written] at hhead
  subst hhead
  obtain ⟨hlength, hobeys⟩ := List.forall₂_iff_zip.1 hall
  refine ⟨l, fields, rfl, hl, hlength, fun f x hfx hraw => ?_⟩
  have hf := (List.of_mem_zip hfx).1
  have hwritten : x.refs = [] := written_of_mem h.written x (List.of_mem_zip hfx).2
  refine ⟨hobeys hfx, hwritten, ?_⟩
  have hplain := fieldsPlain_iff.1 h.plain (f, x) hfx hraw
  have hla : l ≠ .accumulator := by
    rintro rfl
    cases k <;> first | exact hk rfl | cases hl
  split at hplain
  · next hrule => rwa [if_pos (by rw [hrule]; rfl)]
  · next hrule =>
    split
    · next hnone =>
      exact isPlain_of_flat (Kind.flat_field hla f hf hraw hrule hnone) (hobeys hfx) hwritten
    · exact hplain

theorem forall₂_restoredFields {p : Field → Value → Prop} :
    ∀ (fs : List Field) (vs : List Value), fs.length ≤ vs.length →
      (∀ f x, (f, x) ∈ fs.zip vs →
        p f (if f.isRaw then .null else x.restored f.rule.target?)) →
      List.Forall₂ p fs (Value.restoredFields fs vs)
  | [], vs, _, _ => by
    rw [Value.restoredFields]
    · exact .nil
    · simp
  | _ :: _, [], h, _ => by simp at h
  | f :: fs, v :: vs, h, hp => by
    rw [Value.restoredFields]
    refine .cons (hp f v (by simp)) (forall₂_restoredFields fs vs (by simpa using h) ?_)
    exact fun g x hgx => hp g x (by simp [hgx])

theorem mem_zip_of_prefix {α β : Type} {as bs : List α} {vs : List β} (h : as <+: bs) {p : α × β}
    (hp : p ∈ as.zip vs) : p ∈ bs.zip vs := by
  obtain ⟨more, rfl⟩ := h
  induction as generalizing vs with
  | nil => cases hp
  | cons a as ih =>
    cases vs with
    | nil => cases hp
    | cons v vs =>
      rw [List.zip_cons_cons, List.mem_cons] at hp
      rw [List.cons_append, List.zip_cons_cons, List.mem_cons]
      exact hp.imp id ih

/-! ## Dumping and validating -/

theorem get?_dumpFields {fs : List Field} {vs : List Value} (hn : (fs.map (·.name)).Nodup)
    {f : Field} (hf : (f, v) ∈ fs.zip vs) :
    Entries.get? (.text f.name) (Value.dumpFields fs vs) =
      if f.isRaw then none else some v.dump := by
  -- a name that none of the fields has is not in the dump
  have absent : ∀ (fs : List Field) (vs : List Value) name, name ∉ fs.map (·.name) →
      Entries.get? (.text name) (Value.dumpFields fs vs) = none := by
    intro fs
    induction fs with
    | nil => exact fun vs name _ => by simp [Value.dumpFields, Entries.get?]
    | cons g gs ih =>
      intro vs name hname
      rw [List.map_cons, List.mem_cons, not_or] at hname
      cases vs with
      | nil => simp [Value.dumpFields, Entries.get?]
      | cons w ws =>
        rw [Value.dumpFields]
        split
        · exact ih ws name hname.2
        · rw [Entries.get?, if_neg (by simpa using Ne.symm hname.1)]
          exact ih ws name hname.2
  induction fs generalizing vs with
  | nil => cases hf
  | cons g gs ih =>
    rw [List.map_cons, List.nodup_cons] at hn
    cases vs with
    | nil => cases hf
    | cons w ws =>
      rw [List.zip_cons_cons, List.mem_cons] at hf
      rw [Value.dumpFields]
      rcases hf with he | hf
      · cases he
        split
        · exact absent gs ws _ hn.1
        · rw [Entries.get?, if_pos rfl]
      · have hname : g.name ≠ f.name := fun e =>
          hn.1 (e ▸ List.mem_map_of_mem (List.of_mem_zip hf).1)
        have hrest := ih hn.2 hf
        split
        · exact hrest
        · rw [Entries.get?, if_neg (by simpa using hname), hrest]

theorem dump_ne_null (hv : v ≠ .null) : v.dump ≠ .null := by
  cases v with
  | null => exact absurd rfl hv
  | object k fields =>
    unfold Value.dump
    split <;> simp_all
  | _ => simp [Value.dump]

theorem copied_of_written {r : Rule} (hr : r.target? = none) (h : s.obeys r v = true)
    (hw : v.refs = []) : r.copied s v = v := by
  have map : ∀ test, s.isMapOf test v = true → .map ((s.entries? v).getD []) = v := by
    intro test hm
    obtain ⟨es, hes, -⟩ := isMapOf_iff.1 hm
    rw [head_of_written hw] at hes
    subst hes
    rfl
  induction r with
  | properties => exact map (fun _ => true) h
  | counts => exact map Value.isInteger h
  | optional r ih =>
    by_cases hn : v = .null
    · rw [Rule.copied, if_pos hn, hn]
    · rw [Rule.copied, if_neg hn]
      exact ih hr ((obeys_optional.1 h).resolve_left hn)
  | many => cases hr
  | contents => cases hr
  | messages => cases hr
  | _ => rfl

theorem checkRule_dump_of_plain {r : Rule} (hr : r.target? = none) (h : s.WholeAs r v) :
    checkRule s (validate s) r v.dump = .ok v := by
  have hplain := h.plain
  rw [if_pos hr] at hplain
  have hcheck := checkRule_of_obeys (construct s) h.obeys
  rw [copied_of_written hr h.obeys h.written] at hcheck
  rw [Value.dump_of_isPlain v hplain]
  exact hcheck

theorem checkList_dump {items : List Value}
    (objects : ∀ i ∈ items, validate s k i.dump = .ok (i.restored (some k))) :
    checkList s (validate s k) (Value.list items).dump =
      .ok ((Value.list items).restored (some k)) := by
  have hall : collectFrom (validate s k) 0 (items.map Value.dump) =
      .ok (items.map (Value.restored (some k))) := by
    rw [collectFrom_ok_iff, List.forall₂_map_left_iff, List.forall₂_map_right_iff,
      List.forall₂_same]
    exact objects
  rw [Value.dump, Value.dumpAll_eq_map, Value.restored, Value.restoredAll_eq_map, checkList]
  simp only [listed?, head, elements?, hall]
  rfl

/-- What a check makes of the dump of a whole value, if that is known for the objects in it. -/
theorem checkRule_dump {r : Rule} (h : s.WholeAs r v)
    (objects : ∀ k, r.target? = some k → ∀ x, s.Whole k x →
      validate s k x.dump = .ok (x.restored (some k))) :
    checkRule s (validate s) r v.dump = .ok (v.restored r.target?) := by
  cases ht : r.target? with
  | none =>
    rw [Value.restored_none]
    exact checkRule_dump_of_plain ht h
  | some k =>
    obtain ⟨hobeys, hwritten, hplain⟩ := h
    rw [if_neg (by simp [ht])] at hplain
    have list : ∀ {l}, r.target? = some l → s.isListOf (s.formed l) v = true →
        ∃ items, v = .list items ∧
          checkList s (validate s l) v.dump = .ok (v.restored (some l)) := by
      intro l hl hlist
      obtain ⟨items, rfl, hi⟩ := whole_items hlist hwritten hplain
      exact ⟨items, rfl, checkList_dump fun i him => objects l hl i (hi i him)⟩
    induction r with
    | one l =>
      cases ht
      exact objects k rfl v ⟨hobeys, hwritten, hplain⟩
    | many l =>
      cases ht
      obtain ⟨-, -, hcheck⟩ := list rfl hobeys
      exact hcheck
    | contents =>
      cases ht
      obtain ⟨items, rfl, hcheck⟩ := list rfl hobeys
      exact hcheck
    | messages =>
      cases ht
      obtain ⟨items, rfl, hcheck⟩ := list rfl hobeys
      exact hcheck
    | optional r ih =>
      by_cases hv : v = .null
      · rw [hv]
        rfl
      · rw [checkRule_optional r (dump_ne_null hv)]
        exact ih objects ht ((obeys_optional.1 hobeys).resolve_left hv) list
    | _ => cases ht

/-- The dump of a label is its text, of which the same label is made. -/
theorem validate_dump_label (hk : k.isFrozen = true) (h : s.formed k v = true)
    (hw : v.refs = []) : validate s k v.dump = .ok (v.restored (some k)) := by
  obtain ⟨t, hhead, hblank⟩ := formed_label hk h
  rw [head_of_written hw] at hhead
  subst hhead
  have hcheck : checkLabel (.text t) = .ok (.text t) := by simp [checkLabel, hblank]
  have hmade : construct s k [(.text "value", .text t)] = .ok (.object k [.text t]) := by
    rw [construct_eq]
    cases k <;>
      first
      | exact absurd hk (by decide)
      | simp [Kind.fields, Field.take, Entries.get?, checkRule, hcheck, within, Except.bind, collect,
          both, Except.map]
  cases k <;> first | exact absurd hk (by decide) | exact hmade

/-- **The dump of a whole object** validates, and what should come back comes back. -/
theorem validate_dump (hu : k ≠ .usage) (ha : k ≠ .accumulator) (h : s.Whole k v) :
    validate s k v.dump = .ok (v.restored (some k)) := by
  induction hd : k.depth using Nat.strongRecOn generalizing k v with
  | ind depth ih =>
    by_cases hk : k.isFrozen = true
    · exact validate_dump_label hk h.formed h.written
    obtain ⟨l, fields, rfl, hl, hlength, hparts⟩ := h.fields ha
    have hdump : (Value.object l fields).dump = .map (Value.dumpFields l.fields fields) := by
      rw [← isFrozen_of_isA hl] at hk
      cases l <;> first | rfl | exact absurd rfl hk
    have hprefix := Kind.fields_prefix hl
    have hfields : List.Forall₂
        (fun f w => within f.name ((f.take (Value.dumpFields l.fields fields)).bind
          (checkRule s (validate s) f.rule)) = .ok w)
        k.fields (Value.restoredFields k.fields fields) := by
      refine forall₂_restoredFields _ _ (hlength ▸ hprefix.length_le) fun f x hfx => ?_
      have hf := (List.of_mem_zip hfx).1
      have hfx := mem_zip_of_prefix hprefix hfx
      have hget := get?_dumpFields l.names_nodup hfx
      rw [within_ok_iff]
      cases hraw : f.isRaw with
      | true =>
        obtain rfl := k.raw_field f hf hraw
        rw [hraw] at hget
        rw [take_of_missing hget rfl]
        rfl
      | false =>
        rw [hraw] at hget
        have hnull : f.whenNull = none :=
          Kind.whenNull_field hu (by rintro rfl; exact hk rfl) f hf
        rw [take_of_get? hget fun _ => hnull]
        refine checkRule_dump (hparts f x hfx hraw) fun t ht y hy => ?_
        obtain ⟨htu, hta⟩ := k.target_field f hf t ht
        exact ih _ (hd ▸ k.depth_target f hf t ht) htu hta hy rfl
    have hall := collect_map_ok_iff.2 hfields
    rw [hdump]
    show construct s k (Value.dumpFields l.fields fields) = _
    rw [construct_eq, hall]
    rfl

/-! ## What has come back -/

theorem wholeAs_restored {r : Rule} (h : s.WholeAs r v)
    (objects : ∀ k, r.target? = some k → ∀ x, s.Whole k x → s.Whole k (x.restored (some k))) :
    s.WholeAs r (v.restored r.target?) := by
  cases ht : r.target? with
  | none => rwa [Value.restored_none]
  | some k =>
    obtain ⟨hobeys, hwritten, hplain⟩ := h
    rw [if_neg (by simp [ht])] at hplain
    suffices s.obeys r (v.restored (some k)) = true ∧ (v.restored (some k)).refs = [] ∧
        (v.restored (some k)).hasPlainProperties = true from
      ⟨this.1, this.2.1, by rw [if_neg (by simp [ht])]; exact this.2.2⟩
    have list : s.isListOf (s.formed k) v = true →
        s.isListOf (s.formed k) (v.restored (some k)) = true ∧ (v.restored (some k)).refs = [] ∧
          (v.restored (some k)).hasPlainProperties = true := by
      intro hlist
      obtain ⟨items, rfl, hi⟩ := whole_items hlist hwritten hplain
      rw [Value.restored, Value.restoredAll_eq_map]
      exact whole_list (List.forall_mem_map.2 fun i him => objects k ht i (hi i him))
    induction r with
    | one l =>
      cases ht
      obtain ⟨hf, hw, hp⟩ := objects k rfl v ⟨hobeys, hwritten, hplain⟩
      exact ⟨hf, hw, hp⟩
    | many l =>
      cases ht
      exact list hobeys
    | contents =>
      cases ht
      exact list hobeys
    | messages =>
      cases ht
      exact list hobeys
    | optional r ih =>
      rcases obeys_optional.1 hobeys with rfl | hobeys
      · exact ⟨rfl, rfl, rfl⟩
      · obtain ⟨ho, hrest⟩ := ih objects ht hobeys
        exact ⟨obeys_optional.2 (Or.inr ho), hrest⟩
    | _ => cases ht

/-- **What has come back** is a whole object again. -/
theorem whole_restored (ha : k ≠ .accumulator) (h : s.Whole k v) :
    s.Whole k (v.restored (some k)) := by
  induction hd : k.depth using Nat.strongRecOn generalizing k v with
  | ind depth ih =>
    obtain ⟨l, fields, rfl, hl, hlength, hparts⟩ := h.fields ha
    have hprefix := Kind.fields_prefix hl
    have hfields : List.Forall₂
        (fun f w => s.obeys f.rule w = true ∧ w.refs = [] ∧ (f.isRaw = false →
          if f.rule = propertiesField.rule then w.isPlain = true else w.hasPlainProperties = true))
        k.fields (Value.restoredFields k.fields fields) := by
      refine forall₂_restoredFields _ _ (hlength ▸ hprefix.length_le) fun f x hfx => ?_
      have hf := (List.of_mem_zip hfx).1
      have hfx := mem_zip_of_prefix hprefix hfx
      cases hraw : f.isRaw with
      | true =>
        obtain rfl := k.raw_field f hf hraw
        exact ⟨rfl, rfl, nofun⟩
      | false =>
        have hwhole := wholeAs_restored (hparts f x hfx hraw) fun t ht y hy =>
          ih _ (hd ▸ k.depth_target f hf t ht) (k.target_field f hf t ht).2 hy rfl
        refine ⟨hwhole.obeys, hwhole.written, fun _ => ?_⟩
        split
        · next hrule =>
          have hplain := hwhole.plain
          rwa [if_pos (by rw [hrule]; rfl)] at hplain
        · exact hwhole.hasPlainProperties
    refine ⟨formed_iff.2 ⟨k, _, rfl, by cases k <;> rfl, hfields.imp fun f w h => h.1⟩, ?_, ?_⟩
    · refine refsAll_eq_nil fun w hw => ?_
      obtain ⟨f, -, h⟩ := exists_mem_of_forall₂ hfields hw
      exact h.2.1
    · exact fieldsPlain_iff.2 fun p hp => ((List.forall₂_iff_zip.1 hfields).2 hp).2.2

end

end Store

end Reassembly
