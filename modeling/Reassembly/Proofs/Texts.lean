import Reassembly.Proofs.Metadata
import Reassembly.Proofs.Rechunk

/-!
# The text of a stream

Text stands in the items of a stream, and each way to read it joins the texts of some items in their
order. Items without a text add nothing to it, so usage items may go; and an item that stands for a
run has the text of the run. What a message says is therefore what the updates of its segment say,
whether items are put together or not, and reasoning has no part in it.

* `textOfKind`: the texts of the items of one kind.
* `textOfKind_joined`: putting items together keeps it.
* `textOfKind_messages`: **what each message says**, told by the segments of the stream.
* `Update.SameButReasoning`: updates that say the same, whatever their reasoning is.
* `joinLines_append`, `joinLines_concat`: lines joined in two steps.
-/
namespace Reassembly

open Store Response

theorem map_eq_map_iff_forall₂ {α β γ : Type} {f : α → γ} {g : β → γ} {as : List α}
    {bs : List β} : as.map f = bs.map g ↔ List.Forall₂ (fun a b => f a = g b) as bs := by
  rw [← List.forall₂_eq_eq_eq, List.forall₂_map_left_iff, List.forall₂_map_right_iff]

/-! ## Items -/

/-- The texts of the items of a kind, one after the other. -/
def textOfKind (s : Store) (k : Kind) (items : List Value) : String :=
  String.join (items.map (itemText s k))

theorem concatText_eq (s : Store) (items : List Value) :
    concatText s items = textOfKind s .text items := by
  rw [concatText, textOfKind]
  induction items with
  | nil => rfl
  | cons v vs ih =>
    rw [List.map_cons, String.join_cons, ← ih, itemText]
    cases h : s.textItem? .text v with
    | none =>
      rw [List.filterMap_cons_none (by rw [h]; rfl)]
      exact (String.empty_append).symm
    | some item =>
      rw [List.filterMap_cons_some (by rw [h]; rfl), String.join_cons]
      rfl

section
variable {s : Store} {k : Kind}

theorem textOfKind_cons (v : Value) (vs : List Value) :
    textOfKind s k (v :: vs) = itemText s k v ++ textOfKind s k vs := String.join_cons

theorem textOfKind_append (vs ws : List Value) :
    textOfKind s k (vs ++ ws) = textOfKind s k vs ++ textOfKind s k ws := by
  rw [textOfKind, List.map_append, String.join_append]
  rfl

theorem itemText_of_none {v : Value} (h : s.textItem? k v = none) : itemText s k v = "" := by
  rw [itemText, h]
  rfl

theorem itemText_of_usage (hk : k = .text ∨ k = .reasoning) {v : Value} (h : s.isUsage v = true) :
    itemText s k v = "" := by
  refine itemText_of_none ?_
  cases hv : s.textItem? k v with
  | none => rfl
  | some item =>
    rw [isUsage_of_textItem? hk (head_of_textItem? hv)] at h
    cases h

theorem textOfKind_kept (hk : k = .text ∨ k = .reasoning) (u : Update) :
    textOfKind s k (kept s u) = textOfKind s k u.contents := by
  rw [kept]
  induction u.contents with
  | nil => rfl
  | cons v vs ih =>
    rw [textOfKind_cons, ← ih]
    cases hv : s.isUsage v with
    | true =>
      rw [List.filter_cons_of_neg (by simp [hv]), itemText_of_usage hk hv]
      exact (String.empty_append).symm
    | false => rw [List.filter_cons_of_pos (by simp [hv]), textOfKind_cons]

theorem textItem?_of_mergeKind?_ne {l : Kind} {v : Value} (hv : mergeKind? s v = some l)
    (h : l ≠ k) : s.textItem? k v = none := by
  have hm := mergeable_of_mergeKind? hv
  unfold mergeable at hm
  split at hm
  · next item hi => simp [Store.textItem?, head_of_textItem? hi, TextItem.toValue, h]
  · cases hm

theorem textOfKind_join (v : Value) (vs : List Value) :
    textOfKind s k (join s v vs) = itemText s k v ++ textOfKind s k vs := by
  rcases join_cases s v vs with he | ⟨l, w, ws, rfl, hv, hw, he⟩
  · rw [he, textOfKind_cons]
  · rw [he, textOfKind_cons, textOfKind_cons, ← String.append_assoc]
    congr 1
    by_cases hl : l = k
    · rw [hl, itemText_mergedItem, List.map_singleton, String.join_cons, String.join_cons,
        String.join_nil, String.append_empty]
    · rw [itemText_of_none (textItem?_mergedItem_of_ne s l v [w] hl),
        itemText_of_none (textItem?_of_mergeKind?_ne hv hl),
        itemText_of_none (textItem?_of_mergeKind?_ne hw hl)]
      rfl

/-- **Putting items together** keeps the text of each kind. -/
theorem textOfKind_joined (items : List Value) :
    textOfKind s k (joined s items) = textOfKind s k items := by
  induction items with
  | nil => rfl
  | cons v vs ih => rw [joined_cons, textOfKind_join, ih, textOfKind_cons]

end

/-! ## Messages -/

/-- The reasoning in a message. -/
def Message.reasoning (s : Store) (m : Message) : String := textOfKind s .reasoning m.contents

/-- The reasoning in an update. -/
def Update.reasoning (s : Store) (u : Update) : String := textOfKind s .reasoning u.contents

section
variable {s : Store} {k : Kind} {us : List Update}

theorem textOfKind_flatMap (f : Update → List Value) (us : List Update) :
    textOfKind s k (us.flatMap f) = String.join (us.map fun u => textOfKind s k (f u)) := by
  induction us with
  | nil => rfl
  | cons u us ih =>
    rw [List.flatMap_cons, textOfKind_append, ih, List.map_cons, String.join_cons]

/-- The text of a segment, in one kind. -/
def segmentText (s : Store) (k : Kind) (seg : List Update) : String :=
  String.join (seg.map fun u => textOfKind s k u.contents)

theorem MadeOf.textOfKind {m : Message} {seg : List Update} (h : MadeOf s m seg)
    (hk : k = .text ∨ k = .reasoning) : textOfKind s k m.contents = segmentText s k seg := by
  rw [h.contents, textOfKind_flatMap]
  simp only [textOfKind_kept hk]
  rfl

theorem textOfKind_settled (wanted : Bool) (m : Message) :
    textOfKind s k (m.settled s wanted).contents = textOfKind s k m.contents := by
  cases wanted with
  | false => rfl
  | true => exact textOfKind_joined m.contents

/-- **What each message says** is what the updates of its segment say. -/
theorem textOfKind_messages (hk : k = .text ∨ k = .reasoning) (us : List Update) (wanted : Bool) :
    ((feedAll s .empty us).settled s wanted).messages.map (fun m => textOfKind s k m.contents) =
      (segments us).map (segmentText s k) := by
  have hmade := (segmented_feedAll s us).made
  rw [Response.settled, List.map_map]
  simp only [Function.comp_def, textOfKind_settled]
  exact map_eq_map_iff_forall₂.2 (hmade.imp fun _ _ h => h.textOfKind hk)

theorem join_flatten (texts : List (List String)) :
    String.join (texts.map String.join) = String.join texts.flatten := by
  induction texts with
  | nil => rfl
  | cons xs xss ih =>
    rw [List.map_cons, String.join_cons, ih, List.flatten_cons, String.join_append]

theorem join_textOfKind_messages (hk : k = .text ∨ k = .reasoning) (us : List Update)
    (wanted : Bool) :
    String.join (((feedAll s .empty us).settled s wanted).messages.map
        fun m => textOfKind s k m.contents) =
      String.join (us.map fun u => textOfKind s k u.contents) := by
  have hcut : (segments us).map (segmentText s k) =
      ((segments us).map (List.map fun u => textOfKind s k u.contents)).map String.join := by
    rw [List.map_map]
    rfl
  rw [textOfKind_messages hk, hcut, join_flatten, ← List.map_flatten, flatten_segments]

theorem text_eq_textOfKind (s : Store) :
    (Message.text s) = fun m => textOfKind s .text m.contents :=
  funext fun m => concatText_eq s m.contents

theorem update_text_eq_textOfKind (s : Store) :
    (Update.text s) = fun u => textOfKind s .text u.contents :=
  funext fun u => concatText_eq s u.contents

end

/-! ## Streams that differ in their reasoning -/

/-- Both items are reasoning, whatever it is, or the items are the same. -/
def Store.SameButReasoning (s t : Store) (v w : Value) : Prop :=
  ((s.textItem? .reasoning v).isSome = true ∧ (t.textItem? .reasoning w).isSome = true) ∨
    s.head v = t.head w

/-- Both updates are for the same message, and differ in nothing else of what they say than their
reasoning. -/
structure Update.SameButReasoning (s t : Store) (u v : Update) : Prop where
  messageId : u.messageId = v.messageId
  contents : List.Forall₂ (s.SameButReasoning t) u.contents v.contents

section
variable {s t : Store} {us vs : List Update}

theorem textItem?_of_reasoning {v : Value} (h : (s.textItem? .reasoning v).isSome = true) :
    s.textItem? .text v = none := by
  obtain ⟨item, hi⟩ := Option.isSome_iff_exists.1 h
  simp [Store.textItem?, head_of_textItem? hi, TextItem.toValue]

theorem Store.SameButReasoning.itemText {v w : Value} (h : s.SameButReasoning t v w) :
    itemText s .text v = itemText t .text w := by
  rcases h with ⟨hv, hw⟩ | hsame
  · rw [itemText_of_none (textItem?_of_reasoning hv), itemText_of_none (textItem?_of_reasoning hw)]
  · simp only [Reassembly.itemText, Store.textItem?, hsame]

theorem Update.SameButReasoning.text {u v : Update} (h : u.SameButReasoning s t v) :
    textOfKind s .text u.contents = textOfKind t .text v.contents := by
  rw [textOfKind, textOfKind]
  congr 1
  exact map_eq_map_iff_forall₂.2 (h.contents.imp fun _ _ hvw => hvw.itemText)

/-- Where messages begin depends on the ids that are named and on nothing else. -/
theorem starts_congr (h : us.map (·.named) = vs.map (·.named)) : starts us = starts vs := by
  have hlength : us.length = vs.length := by simpa using congrArg List.length h
  have hnamed : ∀ j : Nat, us[j]?.map (·.named) = vs[j]?.map (·.named) := by
    intro j
    rw [← List.getElem?_map, ← List.getElem?_map, h]
  rw [starts, starts, hlength]
  refine List.filter_congr fun j hj => ?_
  have hj : j < vs.length := List.mem_range.1 hj
  have hj' : j < us.length := by omega
  have hone := hnamed j
  have hbefore : (us.take j).map (·.named) = (vs.take j).map (·.named) := by
    rw [List.map_take, List.map_take, h]
  have hpast : lastNamed (us.take j) = lastNamed (vs.take j) := by
    rw [lastNamed, lastNamed, namedIds, namedIds]
    exact congrArg (fun ids => (ids.filter (· ≠ .null)).getLast?.getD .null) hbefore
  have hempty : (us.take j).isEmpty = (vs.take j).isEmpty := by
    have hmap := congrArg List.isEmpty hbefore
    rwa [List.isEmpty_map, List.isEmpty_map] at hmap
  rw [List.getElem?_eq_getElem hj, List.getElem?_eq_getElem hj'] at hone ⊢
  have hone : us[j].named = vs[j].named := Option.some.inj hone
  simp only [Option.any_some, begins, hempty, hpast, hone]

theorem map_segments {α : Type} {f g : Update → α} (hn : us.map (·.named) = vs.map (·.named))
    (h : us.map f = vs.map g) :
    (segments us).map (List.map f) = (segments vs).map (List.map g) := by
  have hlength : us.length = vs.length := by simpa using congrArg List.length h
  rw [segments, segments, starts_congr hn, List.map_map, List.map_map]
  refine List.map_congr_left fun i _ => ?_
  simp only [Function.comp_apply, segment, starts_congr hn, hlength, List.extract_eq_take_drop,
    List.map_take, List.map_drop]
  rw [h]

/-- **Reasoning has no part** in what the messages say. -/
theorem texts_of_sameButReasoning (h : List.Forall₂ (Update.SameButReasoning s t) us vs)
    (wanted wanted' : Bool) :
    ((feedAll s .empty us).settled s wanted).messages.map (·.text s) =
      ((feedAll t .empty vs).settled t wanted').messages.map (·.text t) := by
  have hnamed : us.map (·.named) = vs.map (·.named) :=
    map_eq_map_iff_forall₂.2 (h.imp fun _ _ huv => congrArg real huv.messageId)
  have htexts : us.map (fun u => textOfKind s .text u.contents) =
      vs.map fun v => textOfKind t .text v.contents :=
    map_eq_map_iff_forall₂.2 (h.imp fun _ _ huv => huv.text)
  have hcut := congrArg (List.map String.join) (map_segments hnamed htexts)
  rw [List.map_map, List.map_map] at hcut
  rw [text_eq_textOfKind, text_eq_textOfKind, textOfKind_messages (Or.inl rfl),
    textOfKind_messages (Or.inl rfl)]
  exact hcut

end

/-! ## Lines -/

theorem joinLines_eq_empty_iff {texts : List String} :
    joinLines texts = "" ↔ texts.filter (· ≠ "") = [] := by
  constructor
  · intro h
    cases hlines : texts.filter (· ≠ "") with
    | nil => rfl
    | cons t ts =>
      have ht : t ≠ "" := by
        have hmem : t ∈ texts.filter (· ≠ "") := by rw [hlines]; exact List.mem_cons_self
        simpa using (List.mem_filter.1 hmem).2
      rw [joinLines, hlines] at h
      cases ts with
      | nil => exact absurd (String.intercalate_singleton.symm.trans h) ht
      | cons t' ts =>
        rw [String.intercalate_cons_cons] at h
        simp [String.append_eq_empty_iff, ht] at h
  · intro h
    rw [joinLines, h]
    rfl

theorem filter_joinLines (texts : List String) :
    [joinLines texts].filter (· ≠ "") =
      if texts.filter (· ≠ "") = [] then [] else [joinLines texts] := by
  by_cases h : texts.filter (· ≠ "") = []
  · rw [if_pos h, joinLines_eq_empty_iff.2 h]
    rfl
  · have hne : joinLines texts ≠ "" := fun he => h (joinLines_eq_empty_iff.1 he)
    rw [if_neg h, List.filter_cons_of_pos (by simpa using hne)]
    rfl

/-- **Lines in two steps.** The lines of some texts count as one text, which says nothing if they
do not. -/
theorem joinLines_append (xs ys zs : List String) :
    joinLines (xs ++ joinLines ys :: zs) = joinLines (xs ++ (ys ++ zs)) := by
  have hleft : joinLines (xs ++ joinLines ys :: zs) = "\n".intercalate (xs.filter (· ≠ "") ++
      ((if ys.filter (· ≠ "") = [] then [] else [joinLines ys]) ++ zs.filter (· ≠ ""))) := by
    rw [← filter_joinLines, ← List.filter_append, ← List.filter_append]
    rfl
  have hright : joinLines (xs ++ (ys ++ zs)) =
      "\n".intercalate (xs.filter (· ≠ "") ++ (ys.filter (· ≠ "") ++ zs.filter (· ≠ ""))) := by
    rw [joinLines, List.filter_append, List.filter_append]
  rw [hleft, hright]
  by_cases hy : ys.filter (· ≠ "") = []
  · rw [if_pos hy, hy]
  · have hstep : ∀ lines : List String, "\n".intercalate (joinLines ys :: lines) =
        "\n".intercalate (ys.filter (· ≠ "") ++ lines) := by
      intro lines
      cases lines with
      | nil => rw [String.intercalate_singleton, List.append_nil, joinLines]
      | cons line lines =>
        rw [String.intercalate_cons_cons,
          String.intercalate_append_of_ne_nil hy (List.cons_ne_nil line lines), joinLines]
    rw [if_neg hy]
    by_cases hx : xs.filter (· ≠ "") = []
    · rw [hx]
      exact hstep _
    · rw [String.intercalate_append_of_ne_nil hx (by simp),
        String.intercalate_append_of_ne_nil hx (List.append_ne_nil_of_left_ne_nil hy _)]
      exact congrArg ("\n".intercalate (xs.filter (· ≠ "")) ++ "\n" ++ ·) (hstep _)

theorem joinLines_concat (xs ys : List String) :
    joinLines (xs ++ [joinLines ys]) = joinLines (xs ++ ys) := by
  have h := joinLines_append xs ys []
  rwa [List.append_nil] at h

end Reassembly
