import Reassembly.Proofs.Carried
import Reassembly.Proofs.Tidy

/-!
# Putting values into a tidy store

A value that is made well may be put into a tidy store, copied within it and settled in it. The
store is tidy afterwards, and what was known of its cells is still true; the value in its new place
suits every rule that it did before.

* `Rule.part`, `Rule.listed?`: what a rule says of the parts of a list or a map.
* `Store.Placed`, `Store.PlacedAll`: what comes of putting values into a store.
* `placed_intern`: interning, one case for each shape of a value.
* `Store.Moves`, `made_bind`: values whose cells have moved; `placed_copy`: copying.
* `placed_settle`, `placed_settleAll`: settling.
-/
namespace Reassembly

/-- What the rule says of the parts of a list or a map. -/
def Rule.part : Rule → Rule
  | .many k => .one k
  | .contents => .one .content
  | .messages => .one .message
  | .counts => .integer
  | .optional r => r.part
  | _ => .anything

/-- The kind of the objects in a list that obeys the rule. -/
def Rule.listed? : Rule → Option Kind
  | .many k => some k
  | .contents => some .content
  | .messages => some .message
  | .optional r => r.listed?
  | _ => none

theorem Rule.part_of_listed? {r : Rule} {k : Kind} (h : r.listed? = some k) : r.part = .one k := by
  induction r with
  | many l => exact congrArg Rule.one (Option.some.inj h)
  | contents => exact congrArg Rule.one (Option.some.inj h)
  | messages => exact congrArg Rule.one (Option.some.inj h)
  | optional r ih => exact ih h
  | _ => cases h

namespace Store

/-- A value that has come of one that suits the rule, put into the store `s`, which is now `t`. -/
def Placed (s : Store) (lists : ListKinds) (r : Rule) (t : Store) (w : Value) : Prop :=
  ∃ more, s.Onward lists t more ∧ t.Tidy more ∧ t.Made more w ∧ t.Fits more r w

/-- The same for some values, each with a rule of its own. -/
def PlacedAll (s : Store) (lists : ListKinds) (rs : List Rule) (t : Store) (ws : List Value) :
    Prop :=
  ∃ more, s.Onward lists t more ∧ t.Tidy more ∧ (∀ w ∈ ws, t.Made more w) ∧
    List.Forall₂ (t.Fits more) rs ws

/-! ## The same shape -/

section
variable {s t : Store} {lists more : ListKinds} {v w : Value} {k : Kind} {r : Rule}

theorem fits_part_list {items : List Value} (h : s.Fits lists r (.list items)) :
    ∀ i ∈ items, s.Fits lists r.part i := by
  induction r with
  | many k => exact h
  | contents => exact h
  | messages => exact h
  | counts => cases h
  | optional r ih => exact ih (h.resolve_left nofun)
  | _ => exact fun _ _ => trivial

theorem fits_part_map {es : Entries Value} (h : s.Fits lists r (.map es)) :
    ∀ e ∈ es, s.Fits lists r.part e.2 := by
  induction r with
  | many k => exact h.elim
  | contents => exact h.elim
  | messages => exact h.elim
  | counts =>
    obtain ⟨fs, hfs, hall⟩ := isMapOf_iff.1 h
    cases hfs
    exact fun e he => (hall e he).2
  | optional r ih => exact ih (h.resolve_left nofun)
  | _ => exact fun _ _ => trivial

/-- What takes the place of a value suits the rules that the value does if it is the same text or
number, or shows the same kind of thing. -/
theorem Fits.transfer (h : s.Fits lists r v)
    (atom : (v = .null ∨ (∃ c, v = .text c) ∨ ∃ n, v = .int n) → w = v)
    (time : s.isTimestamp v = true → t.isTimestamp w = true)
    (properties : s.isMapOf (fun _ => true) v = true → t.isMapOf (fun _ => true) w = true)
    (counts : r.part = .integer → s.isMapOf Value.isInteger v = true →
      t.isMapOf Value.isInteger w = true)
    (one : ∀ k, s.isOf k v = true → t.isOf k w = true)
    (listing : ∀ k, r.listed? = some k → s.IsListing lists k v → t.IsListing more k w) :
    t.Fits more r w := by
  induction r with
  | anything => trivial
  | text =>
    obtain ⟨c, hc⟩ := h
    exact ⟨c, (atom (Or.inr (Or.inl ⟨c, hc⟩))).trans hc⟩
  | textOrEmpty =>
    obtain ⟨c, hc⟩ := h
    exact ⟨c, (atom (Or.inr (Or.inl ⟨c, hc⟩))).trans hc⟩
  | label =>
    obtain ⟨c, hc, -⟩ := isLabel_iff.1 h
    rw [atom (Or.inr (Or.inl ⟨c, hc⟩))]
    exact h
  | author =>
    rcases h with hn | hl
    · exact Or.inl ((atom (Or.inl hn)).trans hn)
    · obtain ⟨c, hc, -⟩ := isLabel_iff.1 hl
      exact Or.inr (atom (Or.inr (Or.inl ⟨c, hc⟩)) ▸ hl)
  | integer =>
    have hi : ∃ n, v = .int n := by
      cases v <;> first | exact ⟨_, rfl⟩ | cases h
    rw [atom (Or.inr (Or.inr hi))]
    exact h
  | timestamp => exact time h
  | properties => exact properties h
  | counts => exact counts rfl h
  | one k => exact one k h
  | many k => exact listing k rfl h
  | contents => exact listing .content rfl h
  | messages => exact listing .message rfl h
  | optional r ih =>
    rcases h with hn | h
    · exact Or.inl ((atom (Or.inl hn)).trans hn)
    · exact Or.inr (ih h counts listing)

theorem fits_shared_list {items : List Value} {x : Nat} (h : s.Fits lists r (.list items))
    (hx : more x = r.listed?) : t.Fits more r (.shared x) :=
  h.transfer (by simp) nofun nofun (fun _ => nofun) (fun _ => nofun) fun _ hk _ => hx.trans hk

theorem fits_map {es fs : Entries Value} (h : s.Fits lists r (.map es)) (hw : t.head w = .map fs)
    (hkeys : fs.map (·.1) = es.map (·.1)) (hparts : ∀ f ∈ fs, t.Fits more r.part f.2) :
    t.Fits more r w := by
  have text : ∀ {test : Value → Bool}, s.isMapOf test (.map es) = true →
      ∀ f ∈ fs, f.1.isText = true := by
    intro test hm f hf
    obtain ⟨es', hes, hall⟩ := isMapOf_iff.1 hm
    cases hes
    have hkey : f.1 ∈ es.map (·.1) := hkeys ▸ List.mem_map_of_mem hf
    obtain ⟨e, he, hef⟩ := List.mem_map.1 hkey
    exact hef ▸ (hall e he).1
  refine h.transfer (by simp) nofun (fun hm => ?_) (fun hpart hm => ?_) (fun _ => nofun)
    fun _ _ => nofun
  · exact isMapOf_iff.2 ⟨fs, hw, fun f hf => ⟨text hm f hf, rfl⟩⟩
  · rw [hpart] at hparts
    exact isMapOf_iff.2 ⟨fs, hw, fun f hf => ⟨text hm f hf, hparts f hf⟩⟩

theorem fits_object {fields later : List Value} (h : s.Fits lists r (.object k fields))
    (hw : t.head w = .object k later) : t.Fits more r w :=
  h.transfer (by simp) nofun nofun (fun _ => nofun) (fun _ hl => isOf_of_head hw hl)
    fun _ _ => nofun

theorem fits_time {c : Time.Timestamp} (h : s.Fits lists r (.time c)) (hw : t.head w = .time c) :
    t.Fits more r w :=
  h.transfer (by simp) (fun _ => isTimestamp_iff.2 ⟨c, hw⟩) nofun (fun _ => nofun) (fun _ => nofun)
    fun _ _ => nofun

/-- Only where anything goes may there be a tuple. -/
theorem fits_tuple {items : List Value} (h : s.Fits lists r (.tuple items)) : t.Fits more r w :=
  h.transfer (fun hv => by simp at hv) nofun nofun (fun _ => nofun) (fun _ => nofun)
    fun _ _ => nofun

end

/-! ## Interning -/

section
variable {s t u : Store} {lists more : ListKinds} {v w : Value} {r : Rule}

theorem Placed.refl (ht : s.Tidy lists) (hv : s.Made lists v) (h : s.Fits lists r v) :
    s.Placed lists r s v :=
  ⟨lists, .refl s lists, ht, hv, h⟩

/-- A new cell for a value that is in the store but for this. -/
theorem Placed.push (onward : s.Onward lists t more) (ht : t.Tidy more) (hv : t.Made more v)
    (hs : v.isShareable = true) (kind : Option Kind)
    (hk : ∀ k, kind = some k → ∃ items, v = .list items ∧ ∀ i ∈ items, t.isOf k i = true)
    (fits : (t.push v).1.Fits (more.with t.size kind) r (.shared t.size)) :
    s.Placed lists r (t.push v).1 (t.push v).2 := by
  obtain ⟨hpush, htidy⟩ := ht.push hv hs kind hk
  refine ⟨_, onward.trans hpush, htidy, ?_, fits⟩
  simp [Store.push, size]

theorem head_push (t : Store) (v : Value) : (t.push v).1.head (.shared t.size) = v := by
  simp [head, Store.push, cell, size]

mutual
/-- **Interning** puts a value into the store as it is. -/
theorem placed_intern {s : Store} {lists : ListKinds} (ht : s.Tidy lists) :
    (v : Value) → s.Made lists v → (r : Rule) → s.Fits lists r v →
      s.Placed lists r (s.intern v).1 (s.intern v).2
  | .list items, hv, r, h => by
    simp only [intern]
    obtain ⟨more, onward, htidy, hmade, hfits⟩ :=
      placed_internAll ht items (made_list.1 hv) (items.map fun _ => r.part)
        (List.forall₂_map_left_iff.2 (List.forall₂_same.2 (fits_part_list h)))
    have hparts : ∀ i ∈ (s.internAll items).2, (s.internAll items).1.Fits more r.part i := by
      intro i hi
      obtain ⟨q, hq, hfit⟩ := exists_mem_of_forall₂ hfits hi
      obtain ⟨-, -, rfl⟩ := List.mem_map.1 hq
      exact hfit
    refine .push onward htidy (made_list.2 hmade) rfl r.listed? (fun k hk => ⟨_, rfl, ?_⟩)
      (fits_shared_list h (if_pos rfl))
    intro i hi
    have hpart := hparts i hi
    rw [Rule.part_of_listed? hk] at hpart
    exact hpart
  | .tuple items, hv, r, h => by
    simp only [intern]
    obtain ⟨more, onward, htidy, hmade, -⟩ :=
      placed_internAll ht items (made_tuple.1 hv) (items.map fun _ => .anything)
        (List.forall₂_map_left_iff.2 (List.forall₂_same.2 fun _ _ => trivial))
    exact .push onward htidy (made_tuple.2 hmade) rfl none nofun (fits_tuple h)
  | .map entries, hv, r, h => by
    simp only [intern]
    obtain ⟨more, onward, htidy, hmade, hfits, hkeys⟩ :=
      placed_internEntries ht entries (made_map.1 hv) r.part (fits_part_map h)
    refine .push onward htidy (made_map.2 hmade) rfl none nofun
      (fits_map h (head_push _ _) hkeys fun f hf => ?_)
    exact (hfits f hf).onward (htidy.push (made_map.2 hmade) rfl none nofun).1
  | .object kind fields, hv, r, h => by
    obtain ⟨hsuits, hparts⟩ := made_object.1 hv
    simp only [intern]
    split
    · next hk =>
      rw [Suits, if_pos hk] at hsuits
      obtain ⟨coalesce, n, response, notes, rfl, hresponse⟩ := hsuits
      simp only [List.forall_mem_cons] at hparts
      obtain ⟨more, onward, htidy, hmade, -⟩ :=
        placed_intern ht coalesce hparts.1 .anything trivial
      refine .push onward htidy (made_object.2 ⟨?_, ?_⟩) rfl none nofun
        (fits_object h (head_push _ _))
      · rw [Suits, if_pos hk]
        exact ⟨_, n, response, notes, rfl, onward.isOf hresponse⟩
      · simp only [internFirst, List.forall_mem_cons]
        exact ⟨hmade, trivial, Made.onward onward _ hparts.2.2.1,
          Made.onward onward _ hparts.2.2.2.1, by simp⟩
    · next hk =>
      obtain ⟨more, onward, htidy, hmade, hfits⟩ :=
        placed_internAll ht fields hparts (kind.fields.map (·.rule))
          (List.forall₂_map_left_iff.2 ((suits_iff hk).1 hsuits))
      refine .push onward htidy (made_object.2 ⟨?_, hmade⟩) rfl none nofun
        (fits_object h (head_push _ _))
      exact (suits_iff hk).2 (List.forall₂_map_left_iff.1 hfits)
  | .time _, hv, _, h => .push (.refl s lists) ht hv rfl none nofun (fits_time h (head_push _ _))
  | .shared _, hv, _, h | .null, hv, _, h | .bool _, hv, _, h | .int _, hv, _, h
  | .float _ _, hv, _, h | .text _, hv, _, h | .encoded _, hv, _, h => .refl ht hv h

theorem placed_internAll {s : Store} {lists : ListKinds} (ht : s.Tidy lists) :
    (vs : List Value) → (∀ v ∈ vs, s.Made lists v) → (rs : List Rule) →
      List.Forall₂ (s.Fits lists) rs vs →
      s.PlacedAll lists rs (s.internAll vs).1 (s.internAll vs).2
  | [], _, rs, h => ⟨lists, .refl s lists, ht, by simp [internAll], h⟩
  | v :: vs, hv, rs, h => by
    obtain ⟨hfirst, hrest⟩ := List.forall_mem_cons.1 hv
    obtain ⟨r, rs, hr, hrs, rfl⟩ := List.forall₂_cons_right_iff.1 h
    obtain ⟨more, onward, htidy, hmade, hfits⟩ := placed_intern ht v hfirst r hr
    obtain ⟨most, onward', htidy', hmade', hfits'⟩ := placed_internAll htidy vs
      (fun w hw => Made.onward onward w (hrest w hw)) rs (hrs.imp fun _ _ hw => hw.onward onward)
    simp only [internAll]
    refine ⟨most, onward.trans onward', htidy', ?_, .cons (hfits.onward onward') hfits'⟩
    exact List.forall_mem_cons.2 ⟨Made.onward onward' _ hmade, hmade'⟩

theorem placed_internEntries {s : Store} {lists : ListKinds} (ht : s.Tidy lists) :
    (es : Entries Value) → (∀ e ∈ es, s.Made lists e.2) → (r : Rule) →
      (∀ e ∈ es, s.Fits lists r e.2) →
      ∃ more, s.Onward lists (s.internEntries es).1 more ∧ (s.internEntries es).1.Tidy more ∧
        (∀ e ∈ (s.internEntries es).2, (s.internEntries es).1.Made more e.2) ∧
        (∀ e ∈ (s.internEntries es).2, (s.internEntries es).1.Fits more r e.2) ∧
        (s.internEntries es).2.map (·.1) = es.map (·.1)
  | [], _, _, _ => ⟨lists, .refl s lists, ht, by simp [internEntries]⟩
  | (key, v) :: es, hv, r, h => by
    obtain ⟨hfirst, hrest⟩ := List.forall_mem_cons.1 hv
    obtain ⟨hr, hrs⟩ := List.forall_mem_cons.1 h
    obtain ⟨more, onward, htidy, hmade, hfits⟩ := placed_intern ht v hfirst r hr
    obtain ⟨most, onward', htidy', hmade', hfits', hkeys⟩ := placed_internEntries htidy es
      (fun e he => Made.onward onward e.2 (hrest e he)) r fun e he => (hrs e he).onward onward
    simp only [internEntries]
    refine ⟨most, onward.trans onward', htidy', ?_, ?_, by simp [hkeys]⟩
    · exact List.forall_mem_cons.2 ⟨Made.onward onward' _ hmade, hmade'⟩
    · exact List.forall_mem_cons.2 ⟨hfits.onward onward', hfits'⟩
end

end

/-! ## Copying -/

/-- The references that `p` is true of lead to cells of `s`, and `f` puts in their place references
to cells of `t` with the same content, in which the references have moved likewise. -/
structure Moves (s : Store) (lists : ListKinds) (t : Store) (more : ListKinds) (f : Nat → Value)
    (p : Nat → Prop) : Prop where
  place : ∀ x, p x → ∃ y, f x = .shared y ∧ y < t.size ∧ t.cell y = (s.cell x).bind f
  known : ∀ x y k, p x → f x = .shared y → lists x = some k → more y = some k

section
variable {s t : Store} {lists more : ListKinds} {f : Nat → Value} {p : Nat → Prop} {v : Value}
  {k : Kind}

theorem Moves.head (m : s.Moves lists t more f p) (hv : ∀ x ∈ v.refs, p x) :
    t.head (v.bind f) = (s.head v).bind f := by
  cases v with
  | shared x =>
    obtain ⟨y, hy, -, hc⟩ := m.place x (hv x (List.mem_singleton_self x))
    show t.head (f x) = _
    rw [hy]
    exact hc
  | _ => rfl

theorem Moves.isOf (m : s.Moves lists t more f p) (hv : ∀ x ∈ v.refs, p x)
    (h : s.isOf k v = true) : t.isOf k (v.bind f) = true := by
  obtain ⟨l, fields, hhead, hl⟩ := isOf_iff.1 h
  exact isOf_of_head ((m.head hv).trans (congrArg (Value.bind f) hhead)) hl

theorem Moves.isMapOf (m : s.Moves lists t more f p) (hv : ∀ x ∈ v.refs, p x)
    {test : Value → Bool} (ht : ∀ w, test w = true → test (w.bind f) = true)
    (h : s.isMapOf test v = true) : t.isMapOf test (v.bind f) = true := by
  obtain ⟨es, hes, hall⟩ := isMapOf_iff.1 h
  refine isMapOf_iff.2 ⟨_, (m.head hv).trans (congrArg (Value.bind f) hes), fun e he => ?_⟩
  rw [Value.bindEntries_eq_map] at he
  obtain ⟨e', he', rfl⟩ := List.mem_map.1 he
  exact ⟨(hall e' he').1, ht _ (hall e' he').2⟩

theorem Moves.isListing (m : s.Moves lists t more f p) (hv : ∀ x ∈ v.refs, p x)
    (h : s.IsListing lists k v) : t.IsListing more k (v.bind f) := by
  cases v with
  | list items =>
    intro i hi
    rw [Value.bindAll_eq_map] at hi
    obtain ⟨j, hj, rfl⟩ := List.mem_map.1 hi
    exact m.isOf (fun x hx => hv x (Value.mem_refsAll.2 ⟨j, hj, hx⟩)) (h j hj)
  | shared x =>
    have hx := hv x (List.mem_singleton_self x)
    obtain ⟨y, hy, -, -⟩ := m.place x hx
    show t.IsListing more k (f x)
    rw [hy]
    exact m.known x y k hx hy h
  | _ => exact h

theorem Moves.fits (m : s.Moves lists t more f p) {r : Rule} (hv : ∀ x ∈ v.refs, p x)
    (h : s.Fits lists r v) : t.Fits more r (v.bind f) := by
  refine h.transfer ?_ (fun ht => ?_) (m.isMapOf hv fun _ _ => rfl)
    (fun _ => m.isMapOf hv fun w hw => ?_) (fun _ => m.isOf hv) fun _ _ => m.isListing hv
  · rintro (rfl | ⟨c, rfl⟩ | ⟨n, rfl⟩) <;> rfl
  · obtain ⟨c, hc⟩ := isTimestamp_iff.1 ht
    exact isTimestamp_iff.2 ⟨c, (m.head hv).trans (congrArg (Value.bind f) hc)⟩
  · obtain ⟨n, rfl⟩ := isInteger_iff.1 hw
    rfl

theorem Moves.suits (m : s.Moves lists t more f p) {fields : List Value}
    (hv : ∀ x ∈ Value.refsAll fields, p x) (h : s.Suits lists k fields) :
    t.Suits more k (Value.bindAll f fields) := by
  have part : ∀ w ∈ fields, ∀ x ∈ w.refs, p x :=
    fun w hw x hx => hv x (Value.mem_refsAll.2 ⟨w, hw, hx⟩)
  unfold Suits at h ⊢
  split
  · next hk =>
    rw [if_pos hk] at h
    obtain ⟨coalesce, n, response, notes, rfl, hresponse⟩ := h
    exact ⟨_, n, _, _, rfl, m.isOf (part response (by simp)) hresponse⟩
  · next hk =>
    rw [if_neg hk, List.forall₂_iff_zip] at h
    rw [Value.bindAll_eq_map, List.forall₂_map_right_iff, List.forall₂_iff_zip]
    exact ⟨h.1, fun {g w} hm => m.fits (part w (List.of_mem_zip hm).2) (h.2 hm)⟩

mutual
/-- **A value whose cells have moved** is made as well as it was. -/
theorem made_bind (m : s.Moves lists t more f p) : (v : Value) → (∀ x ∈ v.refs, p x) →
    s.Made lists v → t.Made more (v.bind f)
  | .list items, hv, h => madeAll_bind m items hv h
  | .tuple items, hv, h => madeAll_bind m items hv h
  | .map entries, hv, h => madeEntries_bind m entries hv h
  | .object _ fields, hv, h => ⟨m.suits hv h.1, madeAll_bind m fields hv h.2⟩
  | .shared x, hv, _ => by
    obtain ⟨y, hy, hlt, -⟩ := m.place x (hv x (List.mem_singleton_self x))
    show t.Made more (f x)
    rw [hy]
    exact hlt
  | .encoded _, _, hb => hb
  | .null, _, _ | .bool _, _, _ | .int _, _, _ | .float _ _, _, _ | .text _, _, _ | .time _, _, _ =>
    trivial

theorem madeAll_bind (m : s.Moves lists t more f p) : (vs : List Value) →
    (∀ x ∈ Value.refsAll vs, p x) → s.MadeAll lists vs → t.MadeAll more (Value.bindAll f vs)
  | [], _, _ => trivial
  | v :: vs, hv, h =>
    ⟨made_bind m v (fun x hx => hv x (List.mem_append_left _ hx)) h.1,
      madeAll_bind m vs (fun x hx => hv x (List.mem_append_right _ hx)) h.2⟩

theorem madeEntries_bind (m : s.Moves lists t more f p) : (es : List (Key × Value)) →
    (∀ x ∈ Value.refsEntries es, p x) → s.MadeEntries lists es →
      t.MadeEntries more (Value.bindEntries f es)
  | [], _, _ => trivial
  | (_, v) :: es, hv, h =>
    ⟨made_bind m v (fun x hx => hv x (List.mem_append_left _ hx)) h.1,
      madeEntries_bind m es (fun x hx => hv x (List.mem_append_right _ hx)) h.2⟩
end

end

/-- What is known of the cells of a copy is what was known of the copied ones. -/
def copyKinds (s : Store) (lists : ListKinds) (v : Value) : ListKinds := fun x =>
  if x < s.size then lists x else ((s.reachedBy v)[x - s.size]?).bind lists

section
variable {s : Store} {lists : ListKinds} {v w : Value} {r : Rule}

theorem moves_copy (s : Store) (lists : ListKinds) (v : Value) :
    s.Moves lists (s.copy v).1 (s.copyKinds lists v) (s.newPlace (s.reachedBy v))
      (· ∈ s.reachedBy v) where
  place := fun x hx => by
    have hlt := List.idxOf_lt_length_of_mem hx
    refine ⟨_, rfl, by rw [size_copy]; omega, ?_⟩
    rw [cell_copy s v hlt, List.getElem_idxOf hlt]
  known := fun x y k hx hy hk => by
    have hlt := List.idxOf_lt_length_of_mem hx
    cases hy
    rw [copyKinds, if_neg (by omega), Nat.add_sub_cancel_left, List.getElem?_eq_getElem hlt,
      List.getElem_idxOf hlt]
    exact hk

/-- **Copying** puts another value like it into the store. -/
theorem placed_copy (ht : s.Tidy lists) (hv : s.Made lists v) (h : s.Fits lists r v) :
    s.Placed lists r (s.copy v).1 (s.copy v).2 := by
  obtain ⟨inside, start, closed⟩ := reachedBy_region ht.sound hv.holds
  have m := moves_copy s lists v
  have onward : s.Onward lists (s.copy v).1 (s.copyKinds lists v) := by
    refine .of_extends (s.extends_copy v) fun x k hx => ?_
    rw [copyKinds, if_pos (ht.known_lt hx)]
    exact hx
  -- a cell of the store is an old one or the copy of one
  have cells : ∀ y, y < (s.copy v).1.size → (y < s.size ∧ (s.copy v).1.cell y = s.cell y) ∨
      ∃ x ∈ s.reachedBy v, (s.reachedBy v)[y - s.size]? = some x ∧ s.size ≤ y ∧
        (s.copy v).1.cell y = (s.cell x).bind (s.newPlace (s.reachedBy v)) := by
    intro y hy
    rw [size_copy] at hy
    by_cases hlt : y < s.size
    · exact Or.inl ⟨hlt, (s.extends_copy v).cell hlt⟩
    · obtain ⟨i, rfl⟩ : ∃ i, y = s.size + i := ⟨y - s.size, by omega⟩
      have hi : i < (s.reachedBy v).length := by omega
      refine Or.inr ⟨_, List.getElem_mem hi, ?_, by omega, cell_copy s v hi⟩
      rw [Nat.add_sub_cancel_left, List.getElem?_eq_getElem hi]
  refine ⟨s.copyKinds lists v, onward, ⟨Nat.le_trans ht.room onward.size, fun y hy => ?_,
    fun y hy => ?_, fun y k hy => ?_⟩, made_bind m v start hv, m.fits start h⟩
  · rcases cells y hy with ⟨hlt, hc⟩ | ⟨x, hx, -, -, hc⟩ <;> rw [hc]
    · exact ht.shareable y hlt
    · exact Value.isShareable_bind (ht.shareable x (inside x hx).1)
  · rcases cells y hy with ⟨hlt, hc⟩ | ⟨x, hx, -, -, hc⟩ <;> rw [hc]
    · exact Made.onward onward _ (ht.made y hlt)
    · exact made_bind m _ (closed x hx) (ht.made x (inside x hx).1)
  · have hsize : y < (s.copy v).1.size := by
      unfold copyKinds at hy
      split at hy
      · exact Nat.lt_of_lt_of_le ‹_› onward.size
      · obtain ⟨x, hx, -⟩ := Option.bind_eq_some_iff.1 hy
        have hlt := (List.getElem?_eq_some_iff.1 hx).1
        rw [size_copy]
        omega
    refine ⟨hsize, ?_⟩
    rcases cells y hsize with ⟨hlt, hc⟩ | ⟨x, hx, hget, hle, hc⟩
    · rw [copyKinds, if_pos hlt] at hy
      obtain ⟨-, items, hcell, hi⟩ := ht.known y k hy
      exact ⟨items, hc.trans hcell, fun i him => onward.isOf (hi i him)⟩
    · rw [copyKinds, if_neg (by omega), hget] at hy
      obtain ⟨-, items, hcell, hi⟩ := ht.known x k hy
      rw [hcell] at hc
      refine ⟨_, hc, fun i him => ?_⟩
      rw [Value.bindAll_eq_map] at him
      obtain ⟨j, hj, rfl⟩ := List.mem_map.1 him
      refine m.isOf (fun z hz => closed x hx z ?_) (hi j hj)
      rw [hcell]
      exact Value.mem_refsAll.2 ⟨j, hj, hz⟩

/-! ## Settling -/

theorem Placed.trans {t u : Store} {x : Value}
    (h : s.Placed lists r t w)
    (k : ∀ more, t.Tidy more → t.Made more w → t.Fits more r w → t.Placed more r u x) :
    s.Placed lists r u x := by
  obtain ⟨more, onward, htidy, hmade, hfits⟩ := h
  obtain ⟨most, onward', rest⟩ := k more htidy hmade hfits
  exact ⟨most, onward.trans onward', rest⟩

theorem placed_settle (ht : s.Tidy lists) (hv : s.Made lists v) (h : s.Fits lists r v) :
    s.Placed lists r (s.settle v).1 (s.settle v).2 := by
  have both : s.Placed lists r ((s.copy v).1.intern (s.copy v).2).1
      ((s.copy v).1.intern (s.copy v).2).2 :=
    (placed_copy ht hv h).trans fun more htidy hmade hfits => placed_intern htidy _ hmade r hfits
  cases v <;> first | exact .refl ht hv h | exact both

theorem placed_settleAll {vs : List Value} (ht : s.Tidy lists)
    (hv : ∀ v ∈ vs, s.Made lists v ∧ s.isOf .content v = true) :
    ∃ more, s.Onward lists (s.settleAll vs).1 more ∧ (s.settleAll vs).1.Tidy more ∧
      ∀ w ∈ (s.settleAll vs).2, (s.settleAll vs).1.Made more w ∧
        (s.settleAll vs).1.isOf .content w = true := by
  induction vs generalizing s lists with
  | nil => exact ⟨lists, .refl s lists, ht, by simp [settleAll]⟩
  | cons v vs ih =>
    obtain ⟨hfirst, hrest⟩ := List.forall_mem_cons.1 hv
    obtain ⟨more, onward, htidy, hmade, hfits⟩ :=
      placed_settle (r := .one .content) ht hfirst.1 hfirst.2
    obtain ⟨most, onward', htidy', hall⟩ := ih htidy fun w hw =>
      ⟨Made.onward onward w (hrest w hw).1, onward.isOf (hrest w hw).2⟩
    exact ⟨most, onward.trans onward', htidy',
      List.forall_mem_cons.2 ⟨⟨Made.onward onward' _ hmade, hfits.onward onward'⟩, hall⟩⟩

end

end Store

end Reassembly
