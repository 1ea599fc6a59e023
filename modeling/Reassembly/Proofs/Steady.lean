import Reassembly.Proofs.Parts
import Reassembly.Proofs.Regions

/-!
# What a fold reads

A fold reads updates, content items, counters and maps. If they are in a region of a store that
does not change, it reads the same later, and makes the same response; and all of the response is
in that region too.

* `Store.IsUpdate`: an update of the region that obeys its rules.
* `Response.Working`: what holds of a response in progress; `Working.feed`, `working_feedAll`.
* `Frame.update`, `Frame.feed`, `Frame.feedAll`: in an unchanged region an update reads the same,
  and the fold makes the same of it.
* `Frame.joined`, `Frame.settled`: so does coalescing.
* `Store.foldOf`, `Frame.foldOf`: the response that updates of a store make, now or later.
-/
namespace Reassembly

open Store Response

/-! ## Records of a region -/

section
variable {s : Store} {aside : List Nat}

theorem inherits_holds (hs : s.Sound aside) : s.Inherits (s.Holds aside) :=
  ⟨holds_null, hs.head, holds_list, holds_map, holds_object.1⟩

theorem holds_message {m : Message} : s.Holds aside m.toValue ↔ m.Each (s.Holds aside) := by
  simp only [Message.toValue, holds_object, List.forall_mem_cons, holds_list]
  constructor
  · rintro ⟨h1, h2, h3, h4, h5, h6, h7, -⟩
    exact ⟨h1, h2, h3, h4, h5, h6, h7⟩
  · rintro ⟨h1, h2, h3, h4, h5, h6, h7⟩
    exact ⟨h1, h2, h3, h4, h5, h6, h7, by simp⟩

theorem holds_update {u : Update} : s.Holds aside u.toValue ↔ u.Each (s.Holds aside) := by
  simp only [Update.toValue, Update.values, holds_object, List.forall_mem_cons, holds_list]
  constructor
  · rintro ⟨h1, h2, h3, h4, h5, h6, h7, h8, h9, h10, h11, -⟩
    exact ⟨h1, h2, h3, h4, h5, h6, h7, h8, h9, h10, h11⟩
  · rintro ⟨h1, h2, h3, h4, h5, h6, h7, h8, h9, h10, h11⟩
    exact ⟨h1, h2, h3, h4, h5, h6, h7, h8, h9, h10, h11, by simp⟩

theorem holds_response {r : Response} : s.Holds aside r.toValue ↔ r.Each (s.Holds aside) := by
  simp only [Response.toValue, holds_object, List.forall_mem_cons, holds_list, List.forall_mem_map,
    holds_message]
  constructor
  · rintro ⟨h1, h2, h3, h4, h5, h6, h7, h8, h9, -⟩
    exact ⟨h1, h2, h3, h4, h5, h6, h7, h8, h9⟩
  · rintro ⟨h1, h2, h3, h4, h5, h6, h7, h8, h9⟩
    exact ⟨h1, h2, h3, h4, h5, h6, h7, h8, h9, by simp⟩

/-- Counters that are written out refer to nothing. -/
theorem refs_of_tallied {v : Value} (ht : Tallied v)
    (ho : s.obeys (.optional (.one .details)) v = true) : v.refs = [] := by
  have counter : ∀ {x}, s.obeys (.optional .integer) x = true → x.refs = [] := by
    intro x hx
    rcases obeys_counter.1 hx with rfl | ⟨n, rfl⟩ <;> rfl
  rcases ht with rfl | ⟨u, rfl, hc⟩
  · rfl
  · have hf := usage_formed ho
    rw [usage_toValue] at hf
    have hcounts : u.counts.refs = [] := by
      rcases hc with hn | ⟨es, he⟩
      · rw [hn]
        rfl
      · rcases obeys_counts.1 hf.counts with hn | ⟨fs, hfs, hint⟩
        · rw [hn]
          rfl
        · rw [he] at hfs ⊢
          cases hfs
          refine List.eq_nil_iff_forall_not_mem.2 fun x hx => ?_
          obtain ⟨e, hm, hx⟩ := Value.mem_refsEntries.1 hx
          obtain ⟨n, hn⟩ := isInteger_iff.1 (hint e hm).2
          rw [hn] at hx
          cases hx
    simp [Usage.toValue, Value.refs, Value.refsAll, counter hf.input, counter hf.output,
      counter hf.total, hcounts]

end

/-! ## Updates of a region -/

/-- The value is an update of the region that obeys its rules. -/
structure Store.IsUpdate (s : Store) (aside : List Nat) (v : Value) : Prop where
  formed : s.formed .update v = true
  holds : s.Holds aside v

instance (s : Store) (aside : List Nat) (v : Value) : Decidable (s.IsUpdate aside v) :=
  decidable_of_iff (s.formed .update v = true ∧ s.Holds aside v)
    ⟨fun h => ⟨h.1, h.2⟩, fun h => ⟨h.formed, h.holds⟩⟩

section
variable {s t : Store} {aside : List Nat} {v : Value}

theorem Store.IsUpdate.read (h : s.IsUpdate aside v) : (s.update v).Formed s :=
  (formed_update h.formed).1

theorem Store.IsUpdate.read_holds (hs : s.Sound aside) (h : s.IsUpdate aside v) :
    s.Holds aside (s.update v).toValue :=
  holds_update.2 ((inherits_holds hs).update h.formed h.holds)

/-- **An update of an unchanged region** reads the same. -/
theorem Store.Frame.update (h : s.Frame aside t) (hs : s.Sound aside) (hv : s.IsUpdate aside v) :
    t.update v = s.update v := by
  obtain ⟨-, contents, hc, hhead⟩ := formed_update hv.formed
  have hfields := holds_object.1 (hhead ▸ hs.head hv.holds)
  have hheld : s.Holds aside contents := hfields contents (by simp)
  have hitems : t.items contents = s.items contents := h.items hheld
  unfold Store.update
  rw [h.head hv.holds, hhead]
  simp only [hitems]

end

/-! ## Responses in progress -/

/-- A response in progress: it obeys the rules, its counters are written out, and it stays clear of
what is set aside. -/
structure Response.Working (s : Store) (aside : List Nat) (r : Response) : Prop where
  formed : r.Formed s
  tallied : Tallied r.usage
  holds : s.Holds aside r.toValue

section
variable {s t : Store} {aside : List Nat} {r : Response} {u : Update}

theorem Response.Working.empty : Response.empty.Working s aside :=
  ⟨.empty, Or.inl rfl, holds_of_refs_nil rfl⟩

/-- **One step.** What a fold makes of a response in progress is one. -/
theorem Response.Working.feed (hs : s.Sound aside) (h : r.Working s aside) (hf : u.Formed s)
    (hu : s.Holds aside u.toValue) : (r.feed s u).Working s aside := by
  have formed := h.formed.feed hf
  have tallied : Tallied (r.feed s u).usage := tallied_addItems h.tallied u.contents
  exact ⟨formed, tallied, holds_response.2 ((holds_response.1 h.holds).feed (inherits_holds hs)
    (holds_update.1 hu) (holds_of_refs_nil (refs_of_tallied tallied formed.usage)))⟩

theorem Response.Working.feedAll (hs : s.Sound aside) {us : List Update} (h : r.Working s aside)
    (hu : ∀ u ∈ us, u.Formed s ∧ s.Holds aside u.toValue) :
    (Response.feedAll s r us).Working s aside := by
  induction us generalizing r with
  | nil => exact h
  | cons u us ih =>
    obtain ⟨hu, hus⟩ := List.forall_mem_cons.1 hu
    exact ih (h.feed hs hu.1 hu.2) hus

/-- The response that updates of the region make. -/
theorem working_feedAll (hs : s.Sound aside) {us : List Value}
    (hu : ∀ v ∈ us, s.IsUpdate aside v) :
    (Response.feedAll s .empty (us.map s.update)).Working s aside :=
  Working.empty.feedAll hs
    (List.forall_mem_map.2 fun v hv => ⟨(hu v hv).read, (hu v hv).read_holds hs⟩)

/-! ## The same fold later -/

theorem Store.Frame.usageItem? (h : s.Frame aside t) {c : Value} (hc : s.Holds aside c) :
    t.usageItem? c = s.usageItem? c := by
  simp only [Store.usageItem?, h.head hc]

theorem Store.Frame.usage (h : s.Frame aside t) {v : Value} (hv : s.Holds aside v)
    (ho : s.obeys (.optional (.one .details)) v = true) : t.usage v = s.usage v := by
  rcases obeys_optional.1 ho with rfl | hf
  · rfl
  · have hhead := (formed_details hf).1
    unfold Store.usage
    rw [h.head hv, hhead]

theorem knownSum_eq {a b : Value} (ha : s.obeys (.optional .integer) a = true)
    (hb : s.obeys (.optional .integer) b = true) : t.knownSum a b = s.knownSum a b := by
  rcases obeys_counter.1 ha with rfl | ⟨m, rfl⟩ <;> rcases obeys_counter.1 hb with rfl | ⟨n, rfl⟩
  · rw [knownSum_null_null, knownSum_null_null]
  · rw [knownSum_null_int, knownSum_null_int]
  · rw [knownSum_int_null, knownSum_int_null]
  · rw [knownSum_int, knownSum_int]

theorem addCounts_eq {es fs : Entries Value}
    (he : ∀ e ∈ es, e.1.isText = true ∧ e.2.isInteger = true)
    (hf : ∀ f ∈ fs, f.1.isText = true ∧ f.2.isInteger = true) :
    t.addCounts es fs = s.addCounts es fs := by
  induction fs generalizing es with
  | nil => rfl
  | cons f fs ih =>
    obtain ⟨hfirst, hrest⟩ := List.forall_mem_cons.1 hf
    have hstep : t.addCount es f = s.addCount es f := by
      unfold addCount
      cases hg : es.get? f.1 with
      | none => rfl
      | some old =>
        obtain ⟨m, hm⟩ := isInteger_iff.1 (he _ (Entries.mem_of_get? hg)).2
        obtain ⟨n, hn⟩ := isInteger_iff.1 hfirst.2
        simp only at hm
        rw [hm, hn]
        rfl
    have hcounts : ∀ e ∈ s.addCount es f, e.1.isText = true ∧ e.2.isInteger = true :=
      addCount_counts he hfirst
    have hfold := ih hcounts hrest
    simp only [addCounts, List.foldl_cons, hstep] at hfold ⊢
    exact hfold

/-- Counters that obey their rules have the same sum in every store that shows them. -/
theorem Store.Frame.add (h : s.Frame aside t) {a b : Usage} (ha : a.Formed s) (hb : b.Formed s)
    (hac : s.Holds aside a.counts) (hbc : s.Holds aside b.counts) : a.add t b = a.add s b := by
  have hnamed : t.addNamed a.counts b.counts = s.addNamed a.counts b.counts := by
    unfold addNamed
    rcases obeys_counts.1 hb.counts with hn | ⟨fs, hfs, hf⟩
    · rw [hn]
      rfl
    · have hbt : t.head b.counts = .map fs := (h.head hbc).trans hfs
      rw [mapping_of_head hfs, mapping_of_head hbt, h.entries? hac, h.entries? hbc]
      rcases obeys_counts.1 ha.counts with hn | ⟨es, hes, he⟩
      · rw [hn]
        rfl
      · have hsum : t.addCounts es fs = s.addCounts es fs := addCounts_eq he hf
        simp only [Store.entries?, hes, hfs, hsum]
  simp only [Usage.add, hnamed, knownSum_eq ha.input hb.input, knownSum_eq ha.output hb.output,
    knownSum_eq ha.total hb.total]

/-- The counters that an item of the region carries are in the region. -/
theorem holds_usageItem? (hs : s.Sound aside) {c details : Value} (hc : s.Holds aside c)
    (hd : s.usageItem? c = some details) : s.Holds aside details := by
  unfold Store.usageItem? at hd
  split at hd
  · next hh =>
    cases hd
    exact holds_object.1 (hh ▸ hs.head hc) _ (by simp)
  · cases hd

theorem holds_counts (hs : s.Sound aside) {v : Value} (hv : s.Holds aside v)
    (ho : s.obeys (.optional (.one .details)) v = true) : s.Holds aside (s.usage v).counts := by
  rcases obeys_optional.1 ho with rfl | hf
  · exact holds_null
  · exact holds_object.1 ((formed_details hf).1 ▸ hs.head hv) _ (by simp)

theorem Store.Frame.addItem (h : s.Frame aside t) (hs : s.Sound aside) {total c : Value}
    (ht : Tallied total) (ho : s.obeys (.optional (.one .details)) total = true)
    (hf : s.formed .content c = true) (hc : s.Holds aside c) :
    addItem t total c = addItem s total c := by
  have htotal : s.Holds aside total := holds_of_refs_nil (refs_of_tallied ht ho)
  unfold Reassembly.addItem
  rw [h.usageItem? hc]
  split
  · rfl
  · rfl
  · next details _ hd =>
    have hobeys := obeys_of_usageItem? hf hd
    have hheld := holds_usageItem? hs hc hd
    rw [h.usage htotal ho, h.usage hheld hobeys,
      h.add (usage_formed ho) (usage_formed hobeys) (holds_counts hs htotal ho)
        (holds_counts hs hheld hobeys)]

theorem Store.Frame.addItems (h : s.Frame aside t) (hs : s.Sound aside) {total : Value}
    (ht : Tallied total) (ho : s.obeys (.optional (.one .details)) total = true)
    {items : List Value} (hi : ∀ c ∈ items, s.formed .content c = true ∧ s.Holds aside c) :
    addItems t total items = addItems s total items := by
  induction items generalizing total with
  | nil => rfl
  | cons c cs ih =>
    obtain ⟨hc, hcs⟩ := List.forall_mem_cons.1 hi
    have hrest := ih (tallied_addItem ht c) (obeys_addItem ho hc.1) hcs
    simp only [Reassembly.addItems, List.foldl_cons, h.addItem hs ht ho hc.1 hc.2] at hrest ⊢
    exact hrest

theorem Store.Frame.absorb (h : s.Frame aside t) (hu : s.Holds aside u.toValue) (m : Message) :
    m.absorb t u = m.absorb s u := by
  have hitems := (holds_update.1 hu).contents
  have hkept : kept t u = kept s u :=
    List.filter_congr fun c hc => by simp only [Store.isUsage, h.usageItem? (hitems c hc)]
  unfold Message.absorb
  unfold kept at hkept
  rw [hkept]

theorem absorbLast_eq (h : ∀ m : Message, m.absorb t u = m.absorb s u) (ms : List Message) :
    absorbLast t u ms = absorbLast s u ms := by
  fun_induction absorbLast s u ms with
  | case1 => rfl
  | case2 m => rw [absorbLast, h]
  | case3 m n ms ih => rw [absorbLast, ih]

/-- **One step later.** In an unchanged region the fold makes the same of an update. -/
theorem Store.Frame.feed (h : s.Frame aside t) (hs : s.Sound aside) (hr : r.Working s aside)
    (hf : u.Formed s) (hu : s.Holds aside u.toValue) : r.feed t u = r.feed s u := by
  obtain ⟨-, -, -, -, -, -, -, -, hold⟩ := holds_response.1 hr.holds
  obtain ⟨-, hitems, -, -, -, -, -, -, -, -, hnew⟩ := holds_update.1 hu
  have hmessages := absorbLast_eq (h.absorb hu) (r.target u)
  have hall : ∀ c ∈ u.contents, s.formed .content c = true ∧ s.Holds aside c :=
    fun c hc => ⟨hf.contents c hc, hitems c hc⟩
  have husage := h.addItems hs hr.tallied hr.formed.usage hall
  have hproperties : mergeProperties t r.properties u.properties =
      mergeProperties s r.properties u.properties := by
    unfold mergeProperties
    rw [h.entries? hold, h.entries? hnew]
  simp only [Response.feed, hmessages, husage, hproperties]

theorem Store.Frame.feedAll_records (h : s.Frame aside t) (hs : s.Sound aside)
    (hr : r.Working s aside) {us : List Update}
    (hu : ∀ u ∈ us, u.Formed s ∧ s.Holds aside u.toValue) :
    Response.feedAll t r us = Response.feedAll s r us := by
  induction us generalizing r with
  | nil => rfl
  | cons u us ih =>
    obtain ⟨hu, hus⟩ := List.forall_mem_cons.1 hu
    have hrest := ih (hr.feed hs hu.1 hu.2) hus
    simp only [Response.feedAll, List.foldl_cons, h.feed hs hr hu.1 hu.2] at hrest ⊢
    exact hrest

/-- **The same fold later.** Updates of an unchanged region make the same response. -/
theorem Store.Frame.feedAll (h : s.Frame aside t) (hs : s.Sound aside) {us : List Value}
    (hu : ∀ v ∈ us, s.IsUpdate aside v) :
    Response.feedAll t .empty (us.map t.update) = Response.feedAll s .empty (us.map s.update) := by
  have hread : us.map t.update = us.map s.update :=
    List.map_congr_left fun v hv => h.update hs (hu v hv)
  rw [hread]
  exact h.feedAll_records hs .empty
    (List.forall_mem_map.2 fun v hv => ⟨(hu v hv).read, (hu v hv).read_holds hs⟩)

/-! ## The same coalescing later -/

theorem holds_textItem? (hs : s.Sound aside) {k : Kind} {v : Value} (hv : s.Holds aside v)
    {i : TextItem} (hi : s.textItem? k v = some i) :
    s.Holds aside i.annotations ∧ s.Holds aside i.properties := by
  have hfields := holds_object.1 (head_of_textItem? hi ▸ hs.head hv)
  exact ⟨hfields _ (by simp), hfields _ (by simp)⟩

theorem holds_mergedItem (hs : s.Sound aside) {k : Kind} {v : Value} (hv : s.Holds aside v)
    (ws : List Value) : s.Holds aside (mergedItem s k v ws) := by
  have hp : s.Holds aside (itemProperties s k v) := by
    unfold itemProperties
    cases hi : s.textItem? k v with
    | none => exact holds_null
    | some i => exact (holds_textItem? hs hv hi).2
  simp [mergedItem, TextItem.toValue, hp, holds_of_refs_nil (v := .text _) rfl]

theorem holds_joined (hs : s.Sound aside) {items : List Value}
    (h : ∀ c ∈ items, s.Holds aside c) : ∀ c ∈ joined s items, s.Holds aside c :=
  forall_mem_joined (fun _ hv ws => holds_mergedItem hs hv ws) h

theorem Store.Frame.textItem? (h : s.Frame aside t) (k : Kind) {v : Value}
    (hv : s.Holds aside v) : t.textItem? k v = s.textItem? k v := by
  simp only [Store.textItem?, h.head hv]

theorem Store.Frame.mergeKind? (h : s.Frame aside t) (hs : s.Sound aside) {v : Value}
    (hv : s.Holds aside v) : mergeKind? t v = mergeKind? s v := by
  have hm : ∀ k, mergeable t k v = mergeable s k v := by
    intro k
    unfold mergeable
    rw [h.textItem? k hv]
    split
    · next i hi =>
      rw [Store.hasAnnotations, Store.hasAnnotations, h.items (holds_textItem? hs hv hi).1]
    · rfl
  simp only [Reassembly.mergeKind?, hm]

theorem Store.Frame.mergedItem (h : s.Frame aside t) (k : Kind) {v w : Value}
    (hv : s.Holds aside v) (hw : s.Holds aside w) :
    mergedItem t k v [w] = mergedItem s k v [w] := by
  simp only [Reassembly.mergedItem, itemText, itemProperties, h.textItem? k hv, h.textItem? k hw,
    List.map_cons, List.map_nil]

theorem Store.Frame.joined (h : s.Frame aside t) (hs : s.Sound aside) {items : List Value}
    (hi : ∀ c ∈ items, s.Holds aside c) : joined t items = joined s items := by
  induction items with
  | nil => rfl
  | cons v vs ih =>
    obtain ⟨hv, hvs⟩ := List.forall_mem_cons.1 hi
    have hrest := holds_joined hs hvs
    rw [joined_cons, joined_cons, ih hvs]
    cases hj : Reassembly.joined s vs with
    | nil => rfl
    | cons w ws =>
      rw [hj] at hrest
      have hw := (List.forall_mem_cons.1 hrest).1
      simp only [join, h.mergeKind? hs hv, h.mergeKind? hs hw, h.mergedItem _ hv hw]

theorem Response.Working.settled (hs : s.Sound aside) (h : r.Working s aside) (wanted : Bool) :
    (r.settled s wanted).Working s aside :=
  ⟨h.formed.settled wanted, h.tallied, holds_response.2
    ((holds_response.1 h.holds).settled (fun _ hv ws => holds_mergedItem hs hv ws) wanted)⟩

theorem Store.Frame.settled (h : s.Frame aside t) (hs : s.Sound aside) (hr : r.Working s aside)
    (wanted : Bool) : r.settled t wanted = r.settled s wanted := by
  have hmessages : r.messages.map (Message.settled t wanted) =
      r.messages.map (Message.settled s wanted) := by
    refine List.map_congr_left fun m hm => ?_
    have hcontents := ((holds_response.1 hr.holds).messages m hm).contents
    unfold Message.settled
    rw [h.joined hs hcontents]
  simp only [Response.settled, hmessages]

end

/-! ## The response that updates make -/

/-- The response that some updates of a store make, when the fold is over. -/
def Store.foldOf (s : Store) (wanted : Bool) (us : List Value) : Response :=
  (Response.feedAll s .empty (us.map s.update)).settled s wanted

section
variable {s t : Store} {aside : List Nat} {us : List Value}

/-- It is what the updates make in one go. -/
theorem ofUpdates_foldOf (hu : ∀ v ∈ us, s.formed .update v = true) (wanted : Bool) :
    Response.ofUpdates s (us.map s.update) wanted = .ok (s.foldOf wanted us) :=
  ofUpdates_of_formed (List.forall_mem_map.2 fun v hv => (formed_update (hu v hv)).1) wanted

theorem working_foldOf (hs : s.Sound aside) (hu : ∀ v ∈ us, s.IsUpdate aside v) (wanted : Bool) :
    (s.foldOf wanted us).Working s aside :=
  (working_feedAll hs hu).settled hs wanted

theorem Store.Frame.foldOf (h : s.Frame aside t) (hs : s.Sound aside)
    (hu : ∀ v ∈ us, s.IsUpdate aside v) (wanted : Bool) :
    t.foldOf wanted us = s.foldOf wanted us := by
  unfold Store.foldOf
  rw [h.feedAll hs hu, h.settled hs (working_feedAll hs hu)]

end

end Reassembly
