import Mathlib.Data.List.Forall2
import Reassembly.Response.Updates

/-!
# Objects that obey the rules of their kind

A constructor leaves an object each of whose fields obeys the rule that its kind declares, and so do
the objects in it. `Store.formed` says so of a value of a store, without a constructor, and can be
computed.

* `Rule.accepts`, `Store.obeys`: a value obeys a rule.
* `Store.formed`, `formed_iff`: an object of a kind whose fields obey their rules. Declared
  objects nest a few levels only (`Kind.depth`), so the recursion ends.
* `checkRule_of_obeys`: a check finds nothing wrong with a value that obeys the rule, and makes no
  more of it than a copy of its outermost list or map (`Rule.copied`).
* `construct_of_obeys`: so a constructor that is given such values succeeds.
-/
namespace Reassembly

open Reassembly.Text Checked

def Value.isInteger : Value → Bool
  | .int _ => true
  | _ => false

/-- The text, if it is one, is not blank. -/
def Value.isLabel (v : Value) : Bool := v.text?.any fun t => !isBlankText t

def Store.isTimestamp (s : Store) (v : Value) : Bool :=
  match s.head v with
  | .time _ => true
  | _ => false

/-- A list all of whose items pass a test. -/
def Store.isListOf (s : Store) (test : Value → Bool) (v : Value) : Bool :=
  match s.head v with
  | .list items => items.all test
  | _ => false

/-- A map with text keys all of whose values pass a test. -/
def Store.isMapOf (s : Store) (test : Value → Bool) (v : Value) : Bool :=
  match s.head v with
  | .map entries => entries.all fun e => e.1.isText && test e.2
  | _ => false

/-- The value obeys the rule, given a test for the objects in it. -/
def Rule.accepts (s : Store) (object : Kind → Value → Bool) : Rule → Value → Bool
  | .anything, _ => true
  | .text, v | .textOrEmpty, v => v.text?.isSome
  | .label, v => v.isLabel
  | .author, v => v == .null || v.isLabel
  | .integer, v => v.isInteger
  | .timestamp, v => s.isTimestamp v
  | .properties, v => s.isMapOf (fun _ => true) v
  | .counts, v => s.isMapOf Value.isInteger v
  | .one k, v => object k v
  | .many k, v => s.isListOf (object k) v
  | .contents, v => s.isListOf (object .content) v
  | .messages, v => s.isListOf (object .message) v
  | .optional r, v => v == .null || r.accepts s object v

/-- What a check makes of a value that obeys the rule: lists and maps are copied. -/
def Rule.copied (s : Store) : Rule → Value → Value
  | .properties, v | .counts, v => .map ((s.entries? v).getD [])
  | .many _, v | .contents, v | .messages, v => .list (s.items v)
  | .optional r, v => if v = .null then .null else r.copied s v
  | _, v => v

namespace Store

/-- An object of the kind, or of a more special one, whose fields obey the rules of their kind. -/
def formedWith (s : Store) (object : Kind → Value → Bool) (k : Kind) (v : Value) : Bool :=
  match s.head v with
  | .object l fields =>
    l.isA k && fields.length == l.fields.length &&
      (l.fields.zip fields).all fun p => p.1.rule.accepts s object p.2
  | _ => false

/-- As `formedWith`, with objects nested at most so deep in it. -/
def formedTo (s : Store) : Nat → Kind → Value → Bool
  | 0 => s.formedWith fun _ _ => false
  | depth + 1 => s.formedWith (s.formedTo depth)

/-- The value is an object of the kind as its constructor leaves it. -/
def formed (s : Store) (k : Kind) (v : Value) : Bool := s.formedTo k.depth k v

/-- The value obeys the rule, and so do the parts of the objects in it. -/
def obeys (s : Store) (r : Rule) (v : Value) : Bool := r.accepts s s.formed v

/-! ## The depth does not matter -/

theorem accepts_congr (s : Store) {f g : Kind → Value → Bool} (r : Rule)
    (h : ∀ k, r.target? = some k → f k = g k) : r.accepts s f = r.accepts s g := by
  induction r with
  | one k => funext v; simp only [Rule.accepts, h k rfl]
  | many k => funext v; simp only [Rule.accepts, h k rfl]
  | contents => funext v; simp only [Rule.accepts, h .content rfl]
  | messages => funext v; simp only [Rule.accepts, h .message rfl]
  | optional r ih => funext v; simp only [Rule.accepts, ih h]
  | _ => rfl

theorem depth_of_isA {k l : Kind} (h : l.isA k = true) : l.depth = k.depth := by
  cases k <;> cases l <;> first | rfl | cases h

theorem formedWith_congr (s : Store) {f g : Kind → Value → Bool} {k : Kind}
    (h : ∀ l, l.depth < k.depth → f l = g l) (v : Value) :
    s.formedWith f k v = s.formedWith g k v := by
  unfold formedWith
  split
  · next l fields _ =>
    cases hl : l.isA k with
    | false => rfl
    | true =>
      have hall : ∀ p ∈ l.fields.zip fields,
          p.1.rule.accepts s f p.2 = p.1.rule.accepts s g p.2 := by
        intro p hp
        have hf := (List.of_mem_zip hp).1
        rw [accepts_congr s p.1.rule fun t ht =>
          h t (by rw [← depth_of_isA hl]; exact l.depth_target p.1 hf t ht)]
      congr 1
      exact Bool.eq_iff_iff.2 (by
        simp only [List.all_eq_true]
        exact forall₂_congr fun p hp => by rw [hall p hp])
  · rfl

theorem formedTo_succ (s : Store) (depth : Nat) :
    ∀ k, k.depth ≤ depth → ∀ v, s.formedTo (depth + 1) k v = s.formedTo depth k v := by
  induction depth with
  | zero => exact fun k hk v => s.formedWith_congr (fun l hl => by omega) v
  | succ depth ih =>
    intro k hk v
    exact s.formedWith_congr (fun l hl => funext (ih l (by omega))) v

theorem formedTo_eq (s : Store) {k : Kind} {depth : Nat} (h : k.depth ≤ depth) (v : Value) :
    s.formedTo depth k v = s.formed k v := by
  induction h with
  | refl => rfl
  | step h ih => rw [formedTo_succ s _ k h v, ih]

theorem formed_eq (s : Store) (k : Kind) (v : Value) :
    s.formed k v = s.formedWith s.formed k v := by
  rw [← formedTo_eq s (Nat.le_succ k.depth)]
  exact s.formedWith_congr (fun l hl => funext (formedTo_eq s (Nat.le_of_lt hl))) v

/-- **What a formed object is.** -/
theorem formed_iff {s : Store} {k : Kind} {v : Value} :
    s.formed k v = true ↔ ∃ l fields, s.head v = .object l fields ∧ l.isA k = true ∧
      List.Forall₂ (fun f x => s.obeys f.rule x = true) l.fields fields := by
  rw [formed_eq, formedWith]
  constructor
  · intro h
    split at h
    · next l fields hv =>
      simp only [Bool.and_eq_true, beq_iff_eq, List.all_eq_true] at h
      refine ⟨l, fields, hv, h.1.1, List.forall₂_iff_zip.2 ⟨h.1.2.symm, fun {f x} hm => ?_⟩⟩
      exact h.2 (f, x) hm
    · cases h
  · intro h
    obtain ⟨l, fields, hv, hl, hf⟩ := h
    rw [hv]
    obtain ⟨hlen, hall⟩ := List.forall₂_iff_zip.1 hf
    simp only [Bool.and_eq_true, beq_iff_eq, List.all_eq_true]
    exact ⟨⟨hl, hlen.symm⟩, fun p hp => hall hp⟩

/-! ## What the rules say -/

section
variable {s : Store} {v : Value}

theorem isListOf_iff {test : Value → Bool} :
    s.isListOf test v = true ↔ ∃ items, s.head v = .list items ∧ ∀ i ∈ items, test i = true := by
  unfold isListOf
  cases h : s.head v <;> simp

theorem isMapOf_iff {test : Value → Bool} :
    s.isMapOf test v = true ↔ ∃ entries, s.head v = .map entries ∧
      ∀ e ∈ entries, e.1.isText = true ∧ test e.2 = true := by
  unfold isMapOf
  cases h : s.head v <;> simp

theorem isTimestamp_iff : s.isTimestamp v = true ↔ ∃ t, s.head v = .time t := by
  unfold isTimestamp
  cases h : s.head v <;> simp

theorem obeys_optional {r : Rule} :
    s.obeys (.optional r) v = true ↔ v = .null ∨ s.obeys r v = true := by
  simp [obeys, Rule.accepts]

theorem obeys_text : s.obeys .text v = true ↔ ∃ t, v = .text t := by
  cases v <;> simp [obeys, Rule.accepts, Value.text?]

theorem obeys_textOrEmpty : s.obeys .textOrEmpty v = true ↔ ∃ t, v = .text t := by
  cases v <;> simp [obeys, Rule.accepts, Value.text?]

theorem isLabel_iff : v.isLabel = true ↔ ∃ t, v = .text t ∧ isBlankText t = false := by
  cases v <;> simp [Value.isLabel, Value.text?]

theorem obeys_author :
    s.obeys .author v = true ↔ v = .null ∨ ∃ t, v = .text t ∧ isBlankText t = false := by
  rw [← isLabel_iff]
  simp [obeys, Rule.accepts]

/-- An author that keeps the rule is kept as it is. -/
theorem credited_of_obeys (h : s.obeys .author v = true) : credited v = v := by
  rcases obeys_author.1 h with rfl | ⟨t, rfl, ht⟩
  · rfl
  · simp [credited, ht]

theorem obeys_properties : s.obeys (.optional .properties) v = true ↔
    v = .null ∨ ∃ entries, s.head v = .map entries ∧ ∀ e ∈ entries, e.1.isText = true := by
  have h : s.obeys .properties v = s.isMapOf (fun _ => true) v := rfl
  rw [obeys_optional, h, isMapOf_iff]
  simp

theorem obeys_copied (h : s.obeys (.optional .properties) v = true) :
    s.obeys (.optional .properties) ((Rule.optional .properties).copied s v) = true := by
  rcases obeys_properties.1 h with rfl | ⟨es, hes, hkeys⟩
  · exact h
  · have hn : v ≠ .null := by
      rintro rfl
      cases hes
    have hentries : s.entries? v = some es := by simp only [Store.entries?, hes]
    rw [Rule.copied, if_neg hn, Rule.copied, hentries]
    exact obeys_properties.2 (Or.inr ⟨es, rfl, hkeys⟩)

theorem obeys_newer {r : Rule} {new old : Value} (hn : s.obeys r new = true)
    (ho : s.obeys r old = true) : s.obeys r (newer new old) = true := by
  unfold newer
  split
  · exact ho
  · exact hn

end

/-! ## Checking what obeys -/

theorem collectFrom_ok {check : Value → Checked Value} {items : List Value}
    (h : ∀ i ∈ items, check i = .ok i) (start : Nat) :
    collectFrom check start items = .ok items := by
  induction items generalizing start with
  | nil => rfl
  | cons i is ih =>
    have hi := h i (by simp)
    have his := ih (fun j hj => h j (List.mem_cons_of_mem i hj)) (start + 1)
    rw [collectFrom, his, hi]
    rfl

theorem checkOne_of_formed {s : Store} {c : Kind → Entries Value → Checked Value} {k : Kind}
    {v : Value} (h : s.formed k v = true) : checkOne s c k v = .ok v := by
  obtain ⟨l, fields, hv, hl, -⟩ := formed_iff.1 h
  exact checkOne_of_isA hv hl

theorem checkList_of_formed {s : Store} {c : Kind → Entries Value → Checked Value} {k : Kind}
    {v : Value} (h : s.isListOf (s.formed k) v = true) :
    checkList s (checkOne s c k) v = .ok (.list (s.items v)) := by
  obtain ⟨members, hv, hi⟩ := isListOf_iff.1 h
  have hl : listed? s v = some members := by simp [listed?, elements?, hv]
  have hs : s.items v = members := by simp [items, hv]
  have hall := collectFrom_ok (fun i hm => checkOne_of_formed (c := c) (hi i hm)) 0
  rw [checkList, hl, hs]
  simp only [hall]
  rfl

theorem checkMap_ok {s : Store} {check : Value → Checked Value} {test : Value → Bool} {v : Value}
    (h : s.isMapOf test v = true) (hc : ∀ w, test w = true → check w = .ok w) :
    checkMap s check v = .ok (.map ((s.entries? v).getD [])) := by
  obtain ⟨entries, hv, he⟩ := isMapOf_iff.1 h
  have hs : s.entries? v = some entries := by simp [entries?, hv]
  have hall : collect (entries.map (checkEntry check)) = .ok entries := by
    rw [collect_ok_iff]
    refine List.map_congr_left fun e hm => ?_
    obtain ⟨hk, ht⟩ := he e hm
    simp [checkEntry, hk, hc e.2 ht, within]
  rw [checkMap, hs]
  simp only [hall]
  rfl

/-- **A check keeps what obeys the rule**, but for the outermost list or map, which it copies. -/
theorem checkRule_of_obeys {s : Store} (c : Kind → Entries Value → Checked Value) {r : Rule}
    {v : Value} (h : s.obeys r v = true) :
    checkRule s (checkOne s c) r v = .ok (r.copied s v) := by
  induction r with
  | anything => rfl
  | text =>
    obtain ⟨t, rfl⟩ := obeys_text.1 h
    rfl
  | textOrEmpty =>
    obtain ⟨t, rfl⟩ := obeys_textOrEmpty.1 h
    rfl
  | label =>
    obtain ⟨t, rfl, ht⟩ := isLabel_iff.1 h
    simp [checkRule, checkLabel, ht, Rule.copied]
  | author =>
    rcases obeys_author.1 h with rfl | ⟨t, rfl, ht⟩
    · rfl
    · simp [checkRule, credited, ht, Rule.copied]
  | integer =>
    cases v with
    | int n => rfl
    | _ => cases h
  | timestamp =>
    obtain ⟨t, ht⟩ := isTimestamp_iff.1 h
    simp [checkRule, checkTimestamp, ht, Rule.copied]
  | properties =>
    have h : s.isMapOf (fun _ => true) v = true := h
    exact checkMap_ok h fun _ _ => rfl
  | counts =>
    refine checkMap_ok h fun w hw => ?_
    cases w with
    | int n => rfl
    | _ => cases hw
  | one k => exact checkOne_of_formed h
  | many k => exact checkList_of_formed h
  | contents =>
    have hl := checkList_of_formed (c := c) h
    obtain ⟨items, hv, -⟩ := isListOf_iff.1 h
    cases v <;> first | exact hl | cases hv
  | messages =>
    have hl := checkList_of_formed (c := c) h
    obtain ⟨items, hv, -⟩ := isListOf_iff.1 h
    have hk : s.kind? v ≠ some .message := by simp [kind?, hv]
    cases v <;> first | exact (if_neg hk).trans hl | cases hv
  | optional r ih =>
    by_cases hn : v = .null
    · rw [hn]; rfl
    · have ih := ih ((obeys_optional.1 h).resolve_left hn)
      rw [Rule.copied, if_neg hn, ← ih]
      cases v <;> first | exact absurd rfl hn | rfl

theorem checkRule_congr (s : Store) {f g : Kind → Value → Checked Value} (r : Rule)
    (h : ∀ k, r.target? = some k → f k = g k) (v : Value) :
    checkRule s f r v = checkRule s g r v := by
  induction r with
  | one k => simp only [checkRule, h k rfl]
  | many k => simp only [checkRule, h k rfl]
  | contents => cases v <;> simp only [checkRule, h .content rfl]
  | messages => cases v <;> simp only [checkRule, h .message rfl]
  | optional r ih => cases v <;> first | rfl | exact ih h
  | _ => cases v <;> rfl

theorem collect_fields {s : Store} {object : Kind → Value → Checked Value} {given : Entries Value}
    {fields : List Field} {values : List Value}
    (h : List.Forall₂ (fun f v => f.take given = .ok v ∧
      checkRule s object f.rule v = .ok (f.rule.copied s v)) fields values) :
    collect (fields.map fun f =>
        within f.name ((f.take given).bind (checkRule s object f.rule))) =
      .ok (List.zipWith (fun f v => f.rule.copied s v) fields values) := by
  rw [collect_ok_iff]
  induction h with
  | nil => rfl
  | @cons f v fields values hf _ ih =>
    have hv : within f.name ((f.take given).bind (checkRule s object f.rule)) =
        .ok (f.rule.copied s v) := by
      rw [within_ok_iff, hf.1]
      exact hf.2
    rw [List.map_cons, List.zipWith_cons_cons, List.map_cons, ih, hv]

/-- **A constructor that is given values that obey the rules** makes an object of them. -/
theorem construct_of_obeys {s : Store} {k : Kind} {given : Entries Value} {values : List Value}
    (h : List.Forall₂ (fun f v => f.take given = .ok v ∧ s.obeys f.rule v = true) k.fields values) :
    construct s k given =
      .ok (.object k (List.zipWith (fun f v => f.rule.copied s v) k.fields values)) := by
  have target : ∀ f ∈ k.fields, ∀ l, f.rule.target? = some l → l.depth < k.depth := k.depth_target
  unfold construct
  cases hd : k.depth with
  | zero =>
    have hall : List.Forall₂ (fun f v => f.take given = .ok v ∧
        checkRule s (fun _ _ => fail .notObject) f.rule v = .ok (f.rule.copied s v))
        k.fields values := by
      rw [List.forall₂_iff_zip] at h ⊢
      refine ⟨h.1, fun {f v} hm => ⟨(h.2 hm).1, ?_⟩⟩
      have hf := (List.of_mem_zip hm).1
      rw [← checkRule_of_obeys (construct s) (h.2 hm).2]
      exact checkRule_congr s f.rule (fun l hl => by have := target f hf l hl; omega) v
    rw [constructTo, collect_fields hall]
    rfl
  | succ depth =>
    have hall := h.imp fun f v hf => And.intro hf.1 (checkRule_of_obeys (constructTo s depth) hf.2)
    rw [constructTo, collect_fields hall]
    rfl

theorem take_of_get? {f : Field} {given : Entries Value} {v : Value}
    (h : given.get? (.text f.name) = some v) (hn : v = .null → f.whenNull = none) :
    f.take given = .ok v := by
  unfold Field.take
  rw [h]
  by_cases hv : v = .null
  · rw [hv, hn hv]; rfl
  · cases v <;> first | exact absurd rfl hv | rfl

theorem take_of_missing {f : Field} {given : Entries Value} {v : Value}
    (h : given.get? (.text f.name) = none) (hd : f.default = some v) : f.take given = .ok v := by
  unfold Field.take
  rw [h, hd]

end Store

end Reassembly
