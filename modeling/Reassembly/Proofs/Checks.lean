import Reassembly.Proofs.Tidy

/-!
# What comes through a check

A check that finds nothing wrong gives a value that suits the rule, whatever it was given: an object
that is there already, or one that it has made of a map, a list of them, a text. So constructors and
validation make objects that obey their rules, and assignments keep them so.

* `collectFrom_ok_iff`, `checkList_ok`, `checkMap_ok_iff`: lists and maps are checked part by part.
* `made_of_checkMap`, `made_of_checkList`, `made_of_checkRule`: a value that has passed a rule suits
  it.
* `made_of_construct`, `made_of_validate`: what a constructor or validation makes is an object of
  the kind.
* `formed_of_construct`, `formed_of_validate`: so it obeys its rules.
-/
namespace Reassembly

open Checked

namespace Store

/-! ## Part by part -/

section
variable {s : Store}

theorem collectFrom_ok_iff {α β : Type} {check : α → Checked β} {start : Nat} {as : List α}
    {bs : List β} :
    collectFrom check start as = .ok bs ↔ List.Forall₂ (fun a b => check a = .ok b) as bs := by
  induction as generalizing start bs with
  | nil => simp [collectFrom, eq_comm]
  | cons a as ih =>
    rw [collectFrom, both_ok_iff, List.forall₂_cons_left_iff]
    constructor
    · rintro ⟨b, cs, rfl, hb, hcs⟩
      exact ⟨b, cs, (within_ok_iff _ _ _).1 hb, ih.1 hcs, rfl⟩
    · rintro ⟨b, cs, hb, hcs, rfl⟩
      exact ⟨b, cs, rfl, (within_ok_iff _ _ _).2 hb, ih.2 hcs⟩

theorem collect_map_ok_iff {α β : Type} {check : α → Checked β} {as : List α} {bs : List β} :
    collect (as.map check) = .ok bs ↔ List.Forall₂ (fun a b => check a = .ok b) as bs := by
  rw [collect_ok_iff, ← List.forall₂_eq_eq_eq, List.forall₂_map_left_iff,
    List.forall₂_map_right_iff]

theorem map_ok {α β : Type} {c : Checked α} {f : α → β} {b : β} (h : c.map f = .ok b) :
    ∃ a, c = .ok a ∧ f a = b := by
  cases c with
  | ok a => exact ⟨a, rfl, Except.ok.inj h⟩
  | error ps => cases h

theorem bind_ok {α β : Type} {c : Checked α} {f : α → Checked β} {b : β}
    (h : c.bind f = .ok b) : ∃ a, c = .ok a ∧ f a = .ok b := by
  cases c with
  | ok a => exact ⟨a, rfl, h⟩
  | error ps => cases h

theorem checkEntry_ok_iff {check : Value → Checked Value} {e f : Key × Value} :
    checkEntry check e = .ok f ↔ e.1.isText = true ∧ f.1 = e.1 ∧ check e.2 = .ok f.2 := by
  obtain ⟨key, v⟩ := e
  obtain ⟨later, w⟩ := f
  cases hk : key.isText <;> cases hc : check v <;> simp [checkEntry, hk, hc, within, fail, eq_comm]

theorem checkMap_ok_iff {check : Value → Checked Value} {v w : Value} :
    checkMap s check v = .ok w ↔ ∃ es fs, s.entries? v = some es ∧ w = .map fs ∧
      List.Forall₂ (fun e f => e.1.isText = true ∧ f.1 = e.1 ∧ check e.2 = .ok f.2) es fs := by
  unfold checkMap
  cases s.entries? v with
  | none => simp [fail]
  | some es =>
    simp only [Option.some.injEq, exists_and_left, exists_eq_left', ← checkEntry_ok_iff,
      ← collect_map_ok_iff]
    constructor
    · intro h
      obtain ⟨fs, hfs, rfl⟩ := map_ok h
      exact ⟨fs, rfl, hfs⟩
    · rintro ⟨fs, rfl, hfs⟩
      rw [hfs]
      rfl

theorem checkList_ok {check : Value → Checked Value} {v w : Value}
    (h : checkList s check v = .ok w) : ∃ items others, listed? s v = some items ∧
      w = .list others ∧ List.Forall₂ (fun i o => check i = .ok o) items others := by
  unfold checkList at h
  split at h
  · next items hl =>
    obtain ⟨others, ho, rfl⟩ := map_ok h
    exact ⟨items, others, hl, rfl, collectFrom_ok_iff.1 ho⟩
  · cases h

end

/-! ## Rule by rule -/

section
variable {s : Store} {lists : ListKinds} {v w : Value} {k : Kind}

theorem text_of_checkText (h : checkText v = .ok w) : ∃ t, w = .text t := by
  cases v <;> cases h <;> exact ⟨_, rfl⟩

theorem int_of_checkInteger (h : checkInteger v = .ok w) : ∃ n, w = .int n := by
  unfold checkInteger at h
  split at h <;> (try split at h) <;> (try split at h) <;> cases h <;> exact ⟨_, rfl⟩

theorem isLabel_of_checkLabel (h : checkLabel v = .ok w) : w.isLabel = true := by
  have clear : ∀ {t : String}, (if Text.isBlankText t then fail .blankLabel
      else .ok (.text t) : Checked Value) = .ok w → w.isLabel = true := by
    intro t ht
    split at ht
    · cases ht
    · next hb =>
      cases ht
      simp [Value.isLabel, Value.text?, hb]
  cases v with
  | text t => exact clear h
  | encoded t => exact clear h
  | _ => cases h

theorem timestamp_of_checkTimestamp (hv : s.Made lists v) (h : checkTimestamp s v = .ok w) :
    s.Made lists w ∧ s.isTimestamp w = true := by
  unfold checkTimestamp at h
  split at h
  · next t ht =>
    cases h
    exact ⟨hv, isTimestamp_iff.2 ⟨t, ht⟩⟩
  · split at h <;> cases h
    exact ⟨trivial, rfl⟩
  · split at h <;> cases h
    exact ⟨trivial, rfl⟩
  · split at h <;> cases h
    exact ⟨trivial, rfl⟩
  · split at h
    · split at h <;> cases h
      exact ⟨trivial, rfl⟩
    · cases h
  · cases h

theorem made_listed (ht : s.Tidy lists) (hv : s.Made lists v) {items : List Value}
    (h : listed? s v = some items) : ∀ i ∈ items, s.Made lists i := by
  have hh := ht.head hv
  unfold listed? elements? at h
  cases hhead : s.head v <;> rw [hhead] at h hh <;> simp only [reduceCtorEq, Option.some.injEq] at h
  case list others => exact h ▸ made_list.1 hh
  case tuple others => exact h ▸ made_tuple.1 hh
  case object l fields =>
    have he : (l.fields.zip fields).map (fun p => Value.tuple [.text p.1.name, p.2]) = items := by
      cases l <;> first | exact Option.some.inj h | cases h
    intro i hi
    rw [← he] at hi
    obtain ⟨p, hp, rfl⟩ := List.mem_map.1 hi
    simp [(made_object.1 hh).2 p.2 (List.of_mem_zip hp).2]

theorem made_plainText (t : String) : s.Made lists (plainText t) := by
  refine made_object.2 ⟨(suits_iff (by decide)).2 ?_, by simp⟩
  exact .cons (Or.inl rfl) (.cons trivial (.cons (Or.inl rfl) (.cons ⟨t, rfl⟩ .nil)))

theorem isOf_plainText (t : String) : s.isOf .content (plainText t) = true := rfl

theorem made_of_checkMap (ht : s.Tidy lists) {check : Value → Checked Value} {test : Value → Bool}
    (checked : ∀ x y, s.Made lists x → check x = .ok y → s.Made lists y ∧ test y = true)
    (hv : s.Made lists v) (h : checkMap s check v = .ok w) :
    s.Made lists w ∧ s.isMapOf test w = true := by
  obtain ⟨es, fs, he, rfl, hall⟩ := checkMap_ok_iff.1 h
  have entry : ∀ f ∈ fs, f.1.isText = true ∧ s.Made lists f.2 ∧ test f.2 = true := by
    intro f hf
    obtain ⟨e, hem, hk, hkey, hcheck⟩ := exists_mem_of_forall₂ hall hf
    exact ⟨hkey ▸ hk, checked e.2 f.2 (ht.inherits.entries hv he e hem) hcheck⟩
  exact ⟨made_map.2 fun f hf => (entry f hf).2.1,
    isMapOf_iff.2 ⟨fs, rfl, fun f hf => ⟨(entry f hf).1, (entry f hf).2.2⟩⟩⟩

theorem made_of_checkList (ht : s.Tidy lists) {check : Value → Checked Value}
    (checked : ∀ x y, s.Made lists x → check x = .ok y → s.Made lists y ∧ s.isOf k y = true)
    (hv : s.Made lists v) (h : checkList s check v = .ok w) :
    s.Made lists w ∧ s.IsListing lists k w := by
  obtain ⟨items, others, hi, rfl, hall⟩ := checkList_ok h
  have item : ∀ o ∈ others, s.Made lists o ∧ s.isOf k o = true := by
    intro o ho
    obtain ⟨i, him, hcheck⟩ := exists_mem_of_forall₂ hall ho
    exact checked i o (made_listed ht hv hi i him) hcheck
  exact ⟨made_list.2 fun o ho => (item o ho).1, fun o ho => (item o ho).2⟩

section
variable {object : Kind → Value → Checked Value}

theorem checkRule_optional (r : Rule) (hv : v ≠ .null) :
    checkRule s object (.optional r) v = checkRule s object r v := by
  cases v <;> first | rfl | exact absurd rfl hv

theorem text_of_textOrEmpty (h : checkRule s object .textOrEmpty v = .ok w) :
    ∃ t, w = .text t := by
  cases v <;> cases h <;> exact ⟨_, rfl⟩

/-- A blank author is none, unless it is given as bytes. -/
theorem isLabel_of_author (hv : s.Made lists v) (h : checkRule s object .author v = .ok w) :
    w = .null ∨ w.isLabel = true := by
  cases v <;> simp only [checkRule, checkText, fail, reduceCtorEq, Except.ok.injEq] at h
  case null => exact Or.inl h.symm
  case encoded t =>
    have hb : Text.isBlankText t = false := hv
    exact Or.inr (by simp [← h, Value.isLabel, Value.text?, hb])
  case text t =>
    rw [← h, credited]
    split
    · exact Or.inl rfl
    · next hb => exact Or.inr (by simp [Value.isLabel, Value.text?, hb])

/-- Nothing stands for no contents, and a text for an item with this text. -/
theorem contents_ok (h : checkRule s object .contents v = .ok w) :
    w = .list [] ∨ (∃ t, w = .list [plainText t]) ∨ checkList s (object .content) v = .ok w := by
  by_cases hn : v = .null
  · subst hn
    cases h
    exact Or.inl rfl
  · by_cases htext : ∃ t, v = .text t
    · obtain ⟨t, rfl⟩ := htext
      cases h
      exact Or.inr (Or.inl ⟨t, rfl⟩)
    · have hrule : checkRule s object .contents v = checkList s (object .content) v := by
        cases v <;> first | rfl | exact absurd rfl hn | exact absurd ⟨_, rfl⟩ htext
      exact Or.inr (Or.inr (hrule ▸ h))

/-- Nothing stands for no messages, and a message for a list of it. -/
theorem messages_ok (h : checkRule s object .messages v = .ok w) :
    w = .list [] ∨ (s.kind? v = some .message ∧ w = .list [v]) ∨
      checkList s (object .message) v = .ok w := by
  by_cases hn : v = .null
  · subst hn
    cases h
    exact Or.inl rfl
  · have hrule : checkRule s object .messages v =
        if s.kind? v = some .message then .ok (.list [v])
        else checkList s (object .message) v := by
      cases v <;> first | rfl | exact absurd rfl hn
    rw [hrule] at h
    split at h
    · next hk =>
      cases h
      exact Or.inr (Or.inl ⟨hk, rfl⟩)
    · exact Or.inr (Or.inr h)

/-- **A value that has passed a rule** suits it, if that is so for the objects in it. -/
theorem made_of_checkRule (ht : s.Tidy lists) {r : Rule}
    (objects : ∀ k, r.target? = some k → ∀ v w, s.Made lists v → object k v = .ok w →
      s.Made lists w ∧ s.isOf k w = true)
    (hv : s.Made lists v) (h : checkRule s object r v = .ok w) :
    s.Made lists w ∧ s.Fits lists r w := by
  induction r with
  | anything =>
    cases h
    exact ⟨hv, trivial⟩
  | text =>
    obtain ⟨t, rfl⟩ := text_of_checkText h
    exact ⟨trivial, t, rfl⟩
  | textOrEmpty =>
    obtain ⟨t, rfl⟩ := text_of_textOrEmpty h
    exact ⟨trivial, t, rfl⟩
  | label =>
    have hl := isLabel_of_checkLabel h
    obtain ⟨t, rfl, -⟩ := isLabel_iff.1 hl
    exact ⟨trivial, hl⟩
  | author =>
    rcases isLabel_of_author hv h with rfl | hl
    · exact ⟨trivial, Or.inl rfl⟩
    · obtain ⟨t, rfl, -⟩ := isLabel_iff.1 hl
      exact ⟨trivial, Or.inr hl⟩
  | integer =>
    obtain ⟨n, rfl⟩ := int_of_checkInteger h
    exact ⟨trivial, rfl⟩
  | timestamp => exact timestamp_of_checkTimestamp hv h
  | properties =>
    refine made_of_checkMap ht (fun x y hx hxy => ?_) hv h
    cases hxy
    exact ⟨hx, rfl⟩
  | counts =>
    refine made_of_checkMap ht (fun x y _ hxy => ?_) hv h
    obtain ⟨n, rfl⟩ := int_of_checkInteger hxy
    exact ⟨trivial, rfl⟩
  | one k => exact objects k rfl v w hv h
  | many k => exact made_of_checkList ht (objects k rfl) hv h
  | contents =>
    rcases contents_ok h with rfl | ⟨t, rfl⟩ | hl
    · exact ⟨by simp, fun i hi => by cases hi⟩
    · exact ⟨by simp [made_plainText], fun i hi => List.mem_singleton.1 hi ▸ isOf_plainText t⟩
    · exact made_of_checkList ht (objects .content rfl) hv hl
  | messages =>
    rcases messages_ok h with rfl | ⟨hk, rfl⟩ | hl
    · exact ⟨by simp, fun i hi => by cases hi⟩
    · refine ⟨by simp [hv], fun i hi => ?_⟩
      rw [List.mem_singleton.1 hi, isOf, hk]
      rfl
    · exact made_of_checkList ht (objects .message rfl) hv hl
  | optional r ih =>
    by_cases hn : v = .null
    · subst hn
      cases h
      exact ⟨trivial, Or.inl rfl⟩
    · rw [checkRule_optional r hn] at h
      obtain ⟨hw, hf⟩ := ih objects h
      exact ⟨hw, Or.inr hf⟩

end

/-! ## Constructors -/

theorem made_of_checkOne (ht : s.Tidy lists) {c : Kind → Entries Value → Checked Value}
    (constructs : ∀ es w, (∀ e ∈ es, s.Made lists e.2) → c k es = .ok w →
      s.Made lists w ∧ s.isOf k w = true)
    (hv : s.Made lists v) (h : checkOne s c k v = .ok w) :
    s.Made lists w ∧ s.isOf k w = true := by
  unfold checkOne at h
  split at h
  · next l fields hhead =>
    split at h
    · next hl =>
      cases h
      exact ⟨hv, isOf_of_head hhead hl⟩
    · cases h
  · next es hhead => exact constructs es w (made_map.1 (hhead ▸ ht.head hv)) h
  · split at h
    · exact constructs _ w (by simp) h
    · cases h
  · cases h

theorem made_default (ht : s.Tidy lists) (k : Kind) : ∀ f ∈ k.fields,
    (∀ v, f.default = some v → s.Made lists v) ∧ ∀ v, f.whenNull = some v → s.Made lists v := by
  have user : s.Made lists userRole := Nat.lt_of_lt_of_le (by decide : 2 < empty.size) ht.room
  have details : s.Made lists noDetails := by
    refine made_object.2 ⟨(suits_iff (by decide)).2 ?_, by simp⟩
    exact .cons (Or.inl rfl) (.cons (Or.inl rfl) (.cons (Or.inl rfl) (.cons (Or.inl rfl) .nil)))
  cases k <;>
    simp [Kind.fields, contentFields, annotationFields, rawField, propertiesField, textField,
      countField, timeField, authorField, reasonField, contentsField, user, details]

theorem made_take (ht : s.Tidy lists) {f : Field} (hf : f ∈ k.fields) {given : Entries Value}
    (hg : ∀ e ∈ given, s.Made lists e.2) (h : f.take given = .ok v) : s.Made lists v := by
  obtain ⟨hdefault, hnull⟩ := made_default ht k f hf
  unfold Field.take at h
  split at h
  · cases h
    cases hw : f.whenNull with
    | none => exact made_null
    | some w => exact hnull w hw
  · next x _ hx =>
    cases h
    exact hg _ (Entries.mem_of_get? hx)
  · next x _ hd =>
    cases h
    exact hdefault _ hd
  · cases h

theorem made_of_fields (ht : s.Tidy lists) (hk : k ≠ .accumulator)
    {object : Kind → Value → Checked Value}
    (objects : ∀ l, l ≠ .accumulator → ∀ v w, s.Made lists v → object l v = .ok w →
      s.Made lists w ∧ s.isOf l w = true)
    {given : Entries Value} (hg : ∀ e ∈ given, s.Made lists e.2)
    (h : (collect (k.fields.map fun f =>
      within f.name ((f.take given).bind (checkRule s object f.rule)))).map (.object k) = .ok w) :
    s.Made lists w ∧ s.isOf k w = true := by
  obtain ⟨values, hvalues, rfl⟩ := map_ok h
  have hall := collect_map_ok_iff.1 hvalues
  have each : ∀ f ∈ k.fields, ∀ x,
      within f.name ((f.take given).bind (checkRule s object f.rule)) = .ok x →
      s.Made lists x ∧ s.Fits lists f.rule x := by
    intro f hf x hx
    obtain ⟨y, hy, hxy⟩ := bind_ok ((within_ok_iff _ _ _).1 hx)
    refine made_of_checkRule ht (fun l hl => objects l fun e => ?_) (made_take ht hf hg hy) hxy
    exact target_ne_accumulator k f hf (e ▸ hl)
  rw [List.forall₂_iff_zip] at hall
  have hfits : s.Suits lists k values := (suits_iff hk).2 (List.forall₂_iff_zip.2
    ⟨hall.1, fun {f x} hm => (each f (List.of_mem_zip hm).1 x (hall.2 hm)).2⟩)
  refine ⟨made_object.2 ⟨hfits, fun x hx => ?_⟩, isOf_of_head rfl (by cases k <;> rfl)⟩
  obtain ⟨f, hf, hfx⟩ := exists_mem_of_forall₂ (List.forall₂_iff_zip.2 hall) hx
  exact (each f hf x hfx).1

theorem made_of_constructTo (ht : s.Tidy lists) (depth : Nat) :
    ∀ k, k ≠ .accumulator → ∀ given w, (∀ e ∈ given, s.Made lists e.2) →
      constructTo s depth k given = .ok w → s.Made lists w ∧ s.isOf k w = true := by
  induction depth with
  | zero =>
    exact fun k hk given w hg h => made_of_fields ht hk (fun l _ v w _ hw => by cases hw) hg h
  | succ depth ih =>
    intro k hk given w hg h
    exact made_of_fields ht hk
      (fun l hl v w hv hw => made_of_checkOne ht (fun es x => ih l hl es x) hv hw) hg h

/-- **A constructor** makes an object of the kind. -/
theorem made_of_construct (ht : s.Tidy lists) (hk : k ≠ .accumulator) {given : Entries Value}
    (hg : ∀ e ∈ given, s.Made lists e.2) (h : construct s k given = .ok w) :
    s.Made lists w ∧ s.isOf k w = true :=
  made_of_constructTo ht k.depth k hk given w hg h

/-- **Validation** gives an object of the kind. -/
theorem made_of_validate (ht : s.Tidy lists) (hk : k ≠ .accumulator) (hv : s.Made lists v)
    (h : validate s k v = .ok w) : s.Made lists w ∧ s.isOf k w = true :=
  made_of_checkOne ht (fun _ _ hg => made_of_construct ht hk hg) hv h

/-- **An assignment** that is checked leaves a value that suits the field. -/
theorem made_of_checkField (ht : s.Tidy lists) {f : Field} (hf : f ∈ k.fields)
    (hv : s.Made lists v) (h : checkField s f v = .ok w) :
    s.Made lists w ∧ s.Fits lists f.rule w := by
  refine made_of_checkRule ht (fun l hl x y hx hy => ?_) hv ((within_ok_iff _ _ _).1 h)
  exact made_of_validate ht (fun e => target_ne_accumulator k f hf (e ▸ hl)) hx hy

theorem formed_of_construct (ht : s.Tidy lists) (hk : k ≠ .accumulator) {given : Entries Value}
    (hg : ∀ e ∈ given, s.Made lists e.2) (h : construct s k given = .ok w) :
    s.formed k w = true := by
  obtain ⟨hw, ho⟩ := made_of_construct ht hk hg h
  exact formed_of_made ht hk hw ho

theorem formed_of_validate (ht : s.Tidy lists) (hk : k ≠ .accumulator) (hv : s.Made lists v)
    (h : validate s k v = .ok w) : s.formed k w = true := by
  obtain ⟨hw, ho⟩ := made_of_validate ht hk hv h
  exact formed_of_made ht hk hw ho

end

end Store

end Reassembly
