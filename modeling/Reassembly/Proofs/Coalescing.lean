import Mathlib.Data.List.TakeWhile
import Reassembly.Proofs.Stretches

/-!
# Coalescing, item by item

Two passes with holes between them make one list. The same list comes out if the items are put in
front of it one after the other, from the last to the first, each merging with the item it meets if
both are text of one kind. This form has laws that the passes do not show.

* `mergePass_eq`, `coalesce_eq_joined`: passes and coalescing as right folds, for items that can be
  merged (`Mergeable`).
* `join_mergedItem`: to put a merged item in front is to put its two parts there.
* `joined_joined_append`, `joined_joined`: a list may be coalesced before others come behind it, and
  coalesced again.
-/
namespace Reassembly

/-- The kind of text as which the item may merge. -/
def mergeKind? (s : Store) (v : Value) : Option Kind :=
  if mergeable s .text v then some .text
  else if mergeable s .reasoning v then some .reasoning
  else none

/-- Puts an item in front of a list; it merges with the first one there if it can. -/
def join (s : Store) (v : Value) : List Value → List Value
  | [] => [v]
  | w :: ws =>
    match mergeKind? s v with
    | some k => if mergeKind? s w = some k then mergedItem s k v [w] :: ws else v :: w :: ws
    | none => v :: w :: ws

/-- The items, put together one by one. -/
def joined (s : Store) (items : List Value) : List Value := items.foldr (join s) []

/-- The properties of the item may be those of a merged item. -/
def Mergeable (s : Store) (v : Value) : Prop :=
  ∀ k, ∃ p, checkField s propertiesField (itemProperties s k v) = .ok p

/-! ## Merged items -/

section
variable (s : Store) (k : Kind) (v : Value) (ws : List Value)

theorem textItem?_mergedItem :
    s.textItem? k (mergedItem s k v ws) =
      some ⟨.null, .null, itemProperties s k v,
        String.join (itemText s k v :: ws.map (itemText s k))⟩ :=
  s.textItem?_toValue k _

theorem textItem?_mergedItem_of_ne {l : Kind} (h : k ≠ l) :
    s.textItem? l (mergedItem s k v ws) = none := by
  simp [mergedItem, Store.textItem?, TextItem.toValue, Store.head, h]

theorem itemText_mergedItem :
    itemText s k (mergedItem s k v ws) = String.join (itemText s k v :: ws.map (itemText s k)) := by
  rw [itemText, textItem?_mergedItem]
  rfl

theorem itemProperties_mergedItem :
    itemProperties s k (mergedItem s k v ws) = itemProperties s k v := by
  rw [itemProperties, textItem?_mergedItem]
  rfl

theorem mergeable_mergedItem : mergeable s k (mergedItem s k v ws) = true := by
  rw [mergeable, textItem?_mergedItem]
  rfl

theorem mergeable_mergedItem_of_ne {l : Kind} (h : k ≠ l) :
    mergeable s l (mergedItem s k v ws) = false := by
  rw [mergeable, textItem?_mergedItem_of_ne s k v ws h]

theorem mergedItem_ne_null : mergedItem s k v ws ≠ .null := by
  simp [mergedItem, TextItem.toValue]

theorem mergedItem_cons_mergedItem (w : Value) (us : List Value) :
    mergedItem s k v (mergedItem s k w ws :: us) = mergedItem s k v (w :: ws ++ us) := by
  have ht : String.join (itemText s k v :: (mergedItem s k w ws :: us).map (itemText s k)) =
      String.join (itemText s k v :: (w :: ws ++ us).map (itemText s k)) := by
    rw [List.map_cons, itemText_mergedItem]
    simp [String.append_assoc]
  rw [mergedItem, ht, mergedItem]

/-- A merged item has the properties of its first part, and takes in more behind it. -/
theorem mergedItem_mergedItem (us : List Value) :
    mergedItem s k (mergedItem s k v ws) us = mergedItem s k v (ws ++ us) := by
  have ht : String.join (itemText s k (mergedItem s k v ws) :: us.map (itemText s k)) =
      String.join (itemText s k v :: (ws ++ us).map (itemText s k)) := by
    rw [itemText_mergedItem]
    simp [String.append_assoc]
  rw [mergedItem, ht, itemProperties_mergedItem, mergedItem]

end

theorem head_of_textItem? {s : Store} {k : Kind} {v : Value} {i : TextItem}
    (h : s.textItem? k v = some i) : s.head v = i.toValue k := by
  unfold Store.textItem? at h
  split at h
  · next hv =>
    split at h
    · next hl =>
      cases h
      rw [hv, hl, TextItem.toValue]
    · cases h
  · cases h

theorem mergeable_null (s : Store) (k : Kind) : mergeable s k .null = false := rfl

theorem mergeable_exclusive {s : Store} {k l : Kind} {v : Value} (hk : mergeable s k v = true)
    (hl : mergeable s l v = true) : k = l := by
  have shape : ∀ {j}, mergeable s j v = true → ∃ fields, s.head v = .object j fields := by
    intro j hj
    unfold mergeable at hj
    split at hj
    · next i hi => exact ⟨_, head_of_textItem? hi⟩
    · cases hj
  obtain ⟨as, ha⟩ := shape hk
  obtain ⟨bs, hb⟩ := shape hl
  rw [ha] at hb
  exact (Value.object.inj hb).1

theorem mergeable_of_ne {s : Store} {k l : Kind} {v : Value} (hk : mergeable s k v = true)
    (h : k ≠ l) : mergeable s l v = false := by
  cases hl : mergeable s l v with
  | true => exact absurd (mergeable_exclusive hk hl) h
  | false => rfl

theorem mergeKind?_of_text {s : Store} {v : Value} (h : mergeable s .text v = true) :
    mergeKind? s v = some .text := if_pos h

theorem mergeKind?_of_reasoning {s : Store} {v : Value} (h : mergeable s .reasoning v = true) :
    mergeKind? s v = some .reasoning := by
  have ht : mergeable s .text v = false := mergeable_of_ne h (by decide)
  simp [mergeKind?, ht, h]

theorem mergeKind?_cases {s : Store} {v : Value} {k : Kind} (h : mergeKind? s v = some k) :
    k = .text ∨ k = .reasoning := by
  unfold mergeKind? at h
  split at h
  · exact Or.inl (Option.some.inj h).symm
  · split at h
    · exact Or.inr (Option.some.inj h).symm
    · cases h

theorem mergeable_of_mergeKind? {s : Store} {v : Value} {k : Kind} (h : mergeKind? s v = some k) :
    mergeable s k v = true := by
  unfold mergeKind? at h
  split at h
  · next ht => cases h; exact ht
  · split at h
    · next hr => cases h; exact hr
    · cases h

theorem mergeKind?_mergedItem {s : Store} {v : Value} {k : Kind} (h : mergeKind? s v = some k)
    (ws : List Value) : mergeKind? s (mergedItem s k v ws) = some k := by
  have hm := mergeable_mergedItem s k v ws
  unfold mergeKind? at h
  split at h
  · cases h; exact mergeKind?_of_text hm
  · split at h
    · cases h; exact mergeKind?_of_reasoning hm
    · cases h

/-! ## The laws of putting in front -/

theorem join_of_same {s : Store} {k : Kind} {v w : Value} (hv : mergeKind? s v = some k)
    (hw : mergeKind? s w = some k) (ws : List Value) :
    join s v (w :: ws) = mergedItem s k v [w] :: ws := by
  simp [join, hv, hw]

theorem join_of_ne {s : Store} {v w : Value}
    (h : ∀ k, mergeKind? s v = some k → mergeKind? s w ≠ some k) (ws : List Value) :
    join s v (w :: ws) = v :: w :: ws := by
  cases hv : mergeKind? s v with
  | none => simp [join, hv]
  | some k => simp [join, hv, h k hv]

theorem join_cases (s : Store) (v : Value) (vs : List Value) :
    join s v vs = v :: vs ∨
      ∃ k w ws, vs = w :: ws ∧ mergeKind? s v = some k ∧ mergeKind? s w = some k ∧
        join s v vs = mergedItem s k v [w] :: ws := by
  cases vs with
  | nil => exact Or.inl rfl
  | cons w ws =>
    by_cases h : ∃ k, mergeKind? s v = some k ∧ mergeKind? s w = some k
    · obtain ⟨k, hv, hw⟩ := h
      exact Or.inr ⟨k, w, ws, rfl, hv, hw, join_of_same hv hw ws⟩
    · exact Or.inl (join_of_ne (fun k hv hw => h ⟨k, hv, hw⟩) ws)

/-- What meets the first item of a list meets an item of the same kind when another item of that
kind has been merged into it. -/
theorem join_mergedItem {s : Store} {k : Kind} {v w : Value} (hv : mergeKind? s v = some k)
    (hw : mergeKind? s w = some k) (xs : List Value) :
    join s (mergedItem s k v [w]) xs = join s v (join s w xs) := by
  have hm := mergeKind?_mergedItem hv [w]
  rcases join_cases s w xs with he | ⟨l, x, ys, rfl, hl, hx, he⟩
  · rw [he, join_of_same hv hw]
    rcases join_cases s (mergedItem s k v [w]) xs with hj | ⟨l, x, ys, rfl, hl, hx, -⟩
    · exact hj
    · rw [hm] at hl
      cases hl
      rw [join_of_same hw hx] at he
      simp only [List.cons.injEq] at he
      exact absurd (congrArg List.length he.2) (by simp)
  · rw [hw] at hl
    cases hl
    rw [he, join_of_same hm hx, join_of_same hv (mergeKind?_mergedItem hw [x])]
    rw [mergedItem_mergedItem, mergedItem_cons_mergedItem]
    rfl

theorem joined_cons (s : Store) (v : Value) (vs : List Value) :
    joined s (v :: vs) = join s v (joined s vs) := rfl

theorem joined_append (s : Store) (xs ys : List Value) :
    joined s (xs ++ ys) = xs.foldr (join s) (joined s ys) := by
  simp [joined]

theorem foldr_join_join (s : Store) (v : Value) (xs zs : List Value) :
    (join s v xs).foldr (join s) zs = join s v (xs.foldr (join s) zs) := by
  rcases join_cases s v xs with he | ⟨k, w, ws, rfl, hv, hw, he⟩
  · rw [he, List.foldr_cons]
  · rw [he, List.foldr_cons, List.foldr_cons, join_mergedItem hv hw]

theorem foldr_join_joined (s : Store) (xs zs : List Value) :
    (joined s xs).foldr (join s) zs = xs.foldr (join s) zs := by
  induction xs with
  | nil => rfl
  | cons x xs ih => rw [joined_cons, foldr_join_join, ih, List.foldr_cons]

/-- **Coalescing in pieces.** Coalescing a list before others come behind it changes nothing. -/
theorem joined_joined_append (s : Store) (xs ys : List Value) :
    joined s (joined s xs ++ ys) = joined s (xs ++ ys) := by
  rw [joined_append, foldr_join_joined, ← joined_append]

theorem joined_joined (s : Store) (xs : List Value) : joined s (joined s xs) = joined s xs := by
  have h := joined_joined_append s xs []
  simpa using h

/-- What merged items inherit from their first part holds of all items that come out. -/
theorem forall_mem_joined {s : Store} {p : Value → Prop}
    (hm : ∀ {k v}, mergeKind? s v = some k → p v → ∀ ws, p (mergedItem s k v ws))
    {items : List Value} (h : ∀ v ∈ items, p v) : ∀ v ∈ joined s items, p v := by
  induction items with
  | nil => exact h
  | cons v vs ih =>
    obtain ⟨hv, hvs⟩ := List.forall_mem_cons.1 h
    have ih := ih hvs
    rw [joined_cons]
    rcases join_cases s v (joined s vs) with he | ⟨k, w, ws, hw, hk, -, he⟩
    · rw [he]
      exact List.forall_mem_cons.2 ⟨hv, ih⟩
    · rw [hw] at ih
      rw [he]
      exact List.forall_mem_cons.2 ⟨hm hk hv [w], fun x hx => ih x (List.mem_cons_of_mem w hx)⟩

/-! ## One pass -/

/-- Puts an item in front of the places that a pass has left; a merged item has a hole behind it. -/
def passJoin (s : Store) (k : Kind) (v : Value) : List Value → List Value
  | [] => [v]
  | w :: ws =>
    if mergeable s k v && mergeable s k w then mergedItem s k v [w] :: .null :: ws
    else v :: w :: ws

theorem passJoin_of_same {s : Store} {k : Kind} {v w : Value} (hv : mergeable s k v = true)
    (hw : mergeable s k w = true) (ws : List Value) :
    passJoin s k v (w :: ws) = mergedItem s k v [w] :: .null :: ws := by
  simp [passJoin, hv, hw]

theorem passJoin_of_ne {s : Store} {k : Kind} {v w : Value}
    (h : ¬(mergeable s k v = true ∧ mergeable s k w = true)) (ws : List Value) :
    passJoin s k v (w :: ws) = v :: w :: ws := by
  rw [passJoin, if_neg]
  rwa [Bool.and_eq_true]

theorem passJoin_of_not {s : Store} {k : Kind} {v : Value} (h : mergeable s k v = false)
    (ws : List Value) : passJoin s k v ws = v :: ws := by
  cases ws with
  | nil => rfl
  | cons w ws => exact passJoin_of_ne (by simp [h]) ws

theorem passJoin_of_head {s : Store} {k : Kind} (v : Value) {ws : List Value}
    (h : ∀ w ∈ ws.head?, mergeable s k w = false) : passJoin s k v ws = v :: ws := by
  cases ws with
  | nil => rfl
  | cons w ws => exact passJoin_of_ne (by simp [h w rfl]) ws

theorem foldr_passJoin_run {s : Store} {k : Kind} {places : List Value}
    (hp : ∀ w ∈ places.head?, mergeable s k w = false) (v : Value) (run : List Value)
    (hv : mergeable s k v = true) (hr : ∀ w ∈ run, mergeable s k w = true) :
    (v :: run).foldr (passJoin s k) places = mergedStretch s k (v :: run) ++ places := by
  induction run generalizing v with
  | nil => exact passJoin_of_head v hp
  | cons w run ih =>
    have hw := hr w (by simp)
    have ih := ih w hw fun x hx => hr x (List.mem_cons_of_mem _ hx)
    rw [List.foldr_cons, ih]
    cases run with
    | nil => exact passJoin_of_same hv hw places
    | cons x run =>
      have hm := mergeable_mergedItem s k w (x :: run)
      simp only [mergedStretch, List.cons_append]
      rw [passJoin_of_same hv hm, mergedItem_cons_mergedItem, List.append_nil]
      rfl

theorem stretchProblems_of_mergeable {s : Store} {k : Kind} {stretch : List Value}
    (h : ∀ v ∈ stretch, Mergeable s v) : stretchProblems s k stretch = [] := by
  unfold stretchProblems
  split
  · next first _ _ =>
    obtain ⟨p, hp⟩ := h first (by simp) k
    rw [runProblems, hp]
  · rfl

theorem mergeStretches_of_mergeable {s : Store} {k : Kind} {stretch : List Value}
    (rest : List (List Value)) (h : ∀ v ∈ stretch, Mergeable s v) :
    mergeStretches s k (stretch :: rest) =
      (mergeStretches s k rest).map (mergedStretch s k stretch ++ ·) := by
  rw [mergeStretches, stretchProblems_of_mergeable h]

/-- What stands in the first place after a pass merges as what stood there before. -/
theorem foldr_passJoin_cons (s : Store) (k : Kind) (v : Value) (vs : List Value) :
    ∃ x xs, (v :: vs).foldr (passJoin s k) [] = x :: xs ∧
      (∀ l, mergeable s l x = mergeable s l v) ∧ (v ≠ .null → x ≠ .null) := by
  rw [List.foldr_cons]
  generalize vs.foldr (passJoin s k) [] = places
  cases places with
  | nil => exact ⟨v, [], rfl, fun _ => rfl, id⟩
  | cons w ws =>
    by_cases h : mergeable s k v = true ∧ mergeable s k w = true
    · refine ⟨mergedItem s k v [w], .null :: ws, passJoin_of_same h.1 h.2 ws, fun l => ?_,
        fun _ => mergedItem_ne_null s k v [w]⟩
      by_cases hl : k = l
      · rw [← hl, mergeable_mergedItem, h.1]
      · rw [mergeable_mergedItem_of_ne s k v [w] hl, mergeable_of_ne h.1 hl]
    · exact ⟨v, w :: ws, passJoin_of_ne h ws, fun _ => rfl, id⟩

theorem head_foldr_passJoin {s : Store} (k : Kind) {places : List Value}
    (h : ∀ w ∈ places.head?, mergeable s k w = false) :
    ∀ w ∈ (places.foldr (passJoin s k) []).head?, mergeable s k w = false := by
  cases places with
  | nil => exact h
  | cons v vs =>
    obtain ⟨x, xs, hx, hm, -⟩ := foldr_passJoin_cons s k v vs
    rw [hx]
    intro w hw
    cases hw
    rw [hm, h v rfl]

/-- One pass is a right fold over the places. -/
theorem mergePass_eq {s : Store} (k : Kind) {places : List Value}
    (h : ∀ v ∈ places, Mergeable s v) :
    mergePass s k places = .done (places.foldr (passJoin s k) []) := by
  rw [mergePass_eq_mergeStretches]
  fun_induction stretches s k places with
  | case1 => rfl
  | case2 v vs hv ih =>
    have hrun : ∀ w ∈ v :: vs.takeWhile (mergeable s k), Mergeable s w := fun w hw =>
      h w (List.cons_subset_cons v (List.takeWhile_subset _) hw)
    have hrest : ∀ w ∈ vs.dropWhile (mergeable s k), Mergeable s w := fun w hw =>
      h w (List.mem_cons_of_mem v ((List.dropWhile_sublist _).subset hw))
    have hhead : ∀ w ∈ (vs.dropWhile (mergeable s k)).head?, mergeable s k w = false := by
      intro w hw
      have := List.head?_dropWhile_not (mergeable s k) vs
      rw [hw] at this
      simpa using this
    rw [mergeStretches_of_mergeable _ hrun, ih hrest]
    have hfold := foldr_passJoin_run (head_foldr_passJoin k hhead) v
      (vs.takeWhile (mergeable s k)) hv fun w hw => List.mem_takeWhile_imp hw
    conv => rhs; rw [← List.takeWhile_append_dropWhile (p := mergeable s k) (l := vs)]
    rw [← List.cons_append, List.foldr_append, hfold]
    rfl
  | case3 v vs hv ih =>
    have hrest : ∀ w ∈ vs, Mergeable s w := fun w hw => h w (List.mem_cons_of_mem v hw)
    have hone : ∀ w ∈ [v], Mergeable s w := fun w hw =>
      h w (List.mem_cons.2 (Or.inl (List.mem_singleton.1 hw)))
    rw [mergeStretches_of_mergeable _ hone, ih hrest, List.foldr_cons,
      passJoin_of_not (by simpa using hv)]
    rfl

/-! ## Two passes -/

theorem withoutHoles_cons {v : Value} (h : v ≠ .null) (vs : List Value) :
    withoutHoles (v :: vs) = v :: withoutHoles vs := by
  simp [withoutHoles, h]

theorem withoutHoles_hole (vs : List Value) : withoutHoles (.null :: vs) = withoutHoles vs := by
  simp [withoutHoles]

/-- The places that the pass over reasoning items leaves of those that the pass over text items has
left. -/
def twoPasses (s : Store) (items : List Value) : List Value :=
  (items.foldr (passJoin s .text) []).foldr (passJoin s .reasoning) []

section
variable {s : Store} {v x y : Value} {xs ys : List Value}
  (hy : (x :: xs).foldr (passJoin s .reasoning) [] = y :: ys)

include hy

/-- A hole follows the item that was merged there, which is no reasoning item; so no hole comes
between two reasoning items that were neighbours. -/
theorem secondPass_of_text (ht : mergeable s .text v = true)
    (hym : mergeable s .text y = mergeable s .text x) (hv : v ≠ .null) (hyn : y ≠ .null) :
    withoutHoles ((passJoin s .text v (x :: xs)).foldr (passJoin s .reasoning) []) =
      join s v (withoutHoles (y :: ys)) := by
  have htk := mergeKind?_of_text ht
  by_cases hxt : mergeable s .text x = true
  · -- the merged text item and its hole stay as they are in the second pass
    have hxr : mergeable s .reasoning x = false := mergeable_of_ne hxt (by decide)
    have hmr := mergeable_mergedItem_of_ne s .text v [x] (l := .reasoning) (by decide)
    rw [List.foldr_cons, passJoin_of_not hxr] at hy
    obtain ⟨rfl, rfl⟩ := List.cons.inj hy
    rw [passJoin_of_same ht hxt, List.foldr_cons, List.foldr_cons, passJoin_of_not hmr,
      passJoin_of_not (mergeable_null s .reasoning),
      withoutHoles_cons (mergedItem_ne_null s .text v [x]), withoutHoles_hole,
      withoutHoles_cons hyn, join_of_same htk (mergeKind?_of_text hxt)]
  · have hvr : mergeable s .reasoning v = false := mergeable_of_ne ht (by decide)
    have hp := passJoin_of_ne (v := v) (fun h => hxt h.2) xs
    have hne : ∀ k, mergeKind? s v = some k → mergeKind? s y ≠ some k := by
      intro k hk hyk
      rw [htk] at hk
      cases hk
      exact hxt (by rw [← hym]; exact mergeable_of_mergeKind? hyk)
    rw [hp, List.foldr_cons, hy, passJoin_of_not hvr, withoutHoles_cons hv,
      withoutHoles_cons hyn, join_of_ne hne]

/-- The first pass leaves an item alone that is no text; the second one decides. -/
theorem secondPass_of_not_text (ht : mergeable s .text v = false) (hv : v ≠ .null)
    (hyn : y ≠ .null) :
    withoutHoles ((passJoin s .text v (x :: xs)).foldr (passJoin s .reasoning) []) =
      join s v (withoutHoles (y :: ys)) := by
  rw [passJoin_of_not ht, List.foldr_cons, hy, withoutHoles_cons hyn]
  by_cases hr : mergeable s .reasoning v = true ∧ mergeable s .reasoning y = true
  · rw [passJoin_of_same hr.1 hr.2, withoutHoles_cons (mergedItem_ne_null s .reasoning v [y]),
      withoutHoles_hole,
      join_of_same (mergeKind?_of_reasoning hr.1) (mergeKind?_of_reasoning hr.2)]
  · have hne : ∀ k, mergeKind? s v = some k → mergeKind? s y ≠ some k := by
      intro k hk hyk
      have hvm := mergeable_of_mergeKind? hk
      have hym := mergeable_of_mergeKind? hyk
      rcases mergeKind?_cases hk with rfl | rfl
      · rw [ht] at hvm
        cases hvm
      · exact hr ⟨hvm, hym⟩
    rw [passJoin_of_ne hr, withoutHoles_cons hv, withoutHoles_cons hyn, join_of_ne hne]

end

theorem twoPasses_cons (s : Store) {v w : Value} (vs : List Value) (hv : v ≠ .null)
    (hw : w ≠ .null) :
    withoutHoles (twoPasses s (v :: w :: vs)) =
      join s v (withoutHoles (twoPasses s (w :: vs))) := by
  obtain ⟨x, xs, hx, -, hxn⟩ := foldr_passJoin_cons s .text w vs
  obtain ⟨y, ys, hy, hym, hyn⟩ := foldr_passJoin_cons s .reasoning x xs
  have hyn := hyn (hxn hw)
  have hlast : twoPasses s (w :: vs) = y :: ys := by rw [twoPasses, hx, hy]
  rw [hlast, twoPasses, List.foldr_cons, hx]
  cases ht : mergeable s .text v with
  | true => exact secondPass_of_text hy ht (hym .text) hv hyn
  | false => exact secondPass_of_not_text hy ht hv hyn

theorem withoutHoles_twoPasses (s : Store) {items : List Value} (h : ∀ v ∈ items, v ≠ .null) :
    withoutHoles (twoPasses s items) = joined s items := by
  induction items with
  | nil => rfl
  | cons v vs ih =>
    have hv := h v (by simp)
    have ih := ih fun w hw => h w (List.mem_cons_of_mem v hw)
    cases vs with
    | nil => exact withoutHoles_cons hv []
    | cons w vs =>
      rw [twoPasses_cons s vs hv (h w (by simp)), ih]
      rfl

theorem mergeable_props_mergedItem {s : Store} {v : Value} (h : Mergeable s v) (k : Kind)
    (ws : List Value) : Mergeable s (mergedItem s k v ws) := by
  intro l
  by_cases hl : k = l
  · rw [← hl, itemProperties_mergedItem]
    exact h k
  · rw [itemProperties, textItem?_mergedItem_of_ne s k v ws hl]
    exact ⟨.null, rfl⟩

theorem mergeable_of_mem_passJoin {s : Store} {k : Kind} {places : List Value}
    (h : ∀ v ∈ places, Mergeable s v) :
    ∀ v ∈ places.foldr (passJoin s k) [], Mergeable s v := by
  induction places with
  | nil => exact h
  | cons v vs ih =>
    have hv := h v (by simp)
    have ih := ih fun w hw => h w (List.mem_cons_of_mem v hw)
    rw [List.foldr_cons]
    generalize vs.foldr (passJoin s k) [] = places at ih ⊢
    cases places with
    | nil => simpa [passJoin] using hv
    | cons w ws =>
      by_cases hm : mergeable s k v = true ∧ mergeable s k w = true
      · rw [passJoin_of_same hm.1 hm.2]
        have hws := fun u hu => ih u (List.mem_cons_of_mem w hu)
        simpa [mergeable_props_mergedItem hv] using ⟨fun l => ⟨.null, rfl⟩, hws⟩
      · rw [passJoin_of_ne hm]
        exact List.forall_mem_cons.2 ⟨hv, ih⟩

/-- **Coalescing.** Two passes and the removal of the holes put the items together one by one. -/
theorem coalesce_eq_joined {s : Store} {items : List Value} (h : ∀ v ∈ items, Mergeable s v)
    (hn : ∀ v ∈ items, v ≠ .null) : coalesce s items = .done (joined s items) := by
  rw [coalesce]
  split
  · next hlt =>
    match items, hlt with
    | [], _ => rfl
    | [v], _ => rfl
  · rw [mergePass_eq .text h, Attempt.andThen_done,
      mergePass_eq .reasoning (mergeable_of_mem_passJoin h), Attempt.andThen_done,
      ← withoutHoles_twoPasses s hn]
    rfl

end Reassembly
