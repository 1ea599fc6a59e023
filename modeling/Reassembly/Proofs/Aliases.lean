import Reassembly.Proofs.Bench
import Reassembly.Proofs.Influence
import Reassembly.Workspace.Path

/-!
# Whose properties a response has

The properties of the updates that go into an accumulator are merged into one map, key by key. That
map is new, but its values are the very objects that the maps of the updates hold, before the
response is handed over and afterwards. So the response does not notice a key that is set in the map
of an update, but it notices what is set in a map or list that is a value there, at any depth.

* `keptEntries`, `mergedMaps`: the entries that are kept of some maps, and the map of them.
* `Store.Gathered`, `Store.HandedOver`: an accumulator that has been fed with updates of these maps,
  and a response of them that has been handed over, with anything else happening in between.
* `Store.Gathered.properties`, `Store.HandedOver.properties`: the response has the merged map.
* `ne_of_finalize`: the object and the map of a response that is handed over are new.
* `properties_same_iff`: **what the response notices** of a change to a cell.
* `properties_same_of_plain`: nothing at all, if the values are plain data.
* `properties_shared_tagged`: a change to a map inside of the map of an update.
-/
namespace Reassembly

open Store

/-- The entries that are kept of some maps: each is written over those before it. -/
def keptEntries (maps : List (Entries Value)) : Entries Value := maps.foldl Entries.merge []

/-- The map of the entries that are kept; without maps there is none. -/
def mergedMaps (maps : List (Entries Value)) : Value :=
  if maps = [] then .null else .map (keptEntries maps)

/-- Since the accumulator of a cell was new it has been fed with updates whose properties were these
maps at that time. It may have failed to hand its response over, and meanwhile anything may have
happened to the other cells. -/
inductive Store.Gathered (x : Nat) : Store → List (Entries Value) → Prop where
  | new {s : Store} {a : Accumulator} (h : s.cell x = a.renewed.toValue) : Gathered x s []
  | feed {s : Store} {maps : List (Entries Value)} (u : Value) (h : Gathered x s maps) :
      Gathered x (s.feed (.shared x) u) (maps ++ (s.entries? (s.update u).properties).toList)
  | failed {s t : Store} {maps : List (Entries Value)} {problems : List Problem}
      (h : Gathered x s maps) (hf : s.finalize (.shared x) = (t, .error problems)) :
      Gathered x t maps
  | meanwhile {s t : Store} {maps : List (Entries Value)} (h : Gathered x s maps)
      (same : t.cell x = s.cell x) : Gathered x t maps

/-- A response of updates with these maps, which an accumulator has handed over. Meanwhile anything
may have happened, but not to the response itself and its own map. -/
inductive Store.HandedOver (maps : List (Entries Value)) (v : Value) : Store → Prop where
  | now {s t : Store} {x : Nat} (h : s.Gathered x maps)
      (hf : s.finalize (.shared x) = (t, .ok v)) : HandedOver maps v t
  | meanwhile {s t : Store} (h : HandedOver maps v s) (same : t.head v = s.head v)
      (map : t.head (s.response v).properties = s.head (s.response v).properties) :
      HandedOver maps v t

section
variable {s t : Store} {v : Value} {x y : Nat} {maps : List (Entries Value)}

theorem forall_mem_keptEntries {p : Key × Value → Prop} (h : ∀ m ∈ maps, ∀ e ∈ m, p e) :
    ∀ e ∈ keptEntries maps, p e := by
  have all : ∀ es : Entries Value, (∀ e ∈ es, p e) → ∀ e ∈ maps.foldl Entries.merge es, p e := by
    induction maps with
    | nil => exact fun es he => he
    | cons m maps ih =>
      intro es he
      obtain ⟨hm, hmaps⟩ := List.forall_mem_cons.1 h
      exact ih hmaps _ (Entries.forall_mem_merge he hm)
  exact all [] fun e he => absurd he List.not_mem_nil

/-! ## The response in progress -/

theorem mergedMaps_append (s : Store) (maps : List (Entries Value)) (new : Value) :
    mergedMaps (maps ++ (s.entries? new).toList) = mergeProperties s (mergedMaps maps) new := by
  unfold mergeProperties
  cases s.entries? new with
  | none => simp
  | some fs =>
    have hold : (s.entries? (mergedMaps maps)).getD [] = keptEntries maps := by
      unfold mergedMaps
      split
      · next h => rw [h]; rfl
      · rfl
    rw [hold]
    simp [mergedMaps, keptEntries]

theorem size_growList (s : Store) (counts : Entries Value) (e : Key × Value) :
    (s.growList counts e).size = s.size := by
  unfold growList
  split
  · split
    · exact s.size_write _ _
    · rfl
  · rfl

theorem size_growLists (s : Store) (a b : Value) : (s.growLists a b).size = s.size := by
  unfold growLists
  split
  · next es fs ha hb =>
    clear ha hb
    induction fs generalizing s with
    | nil => rfl
    | cons f fs ih => exact (ih (s.growList es f)).trans (size_growList s es f)
  · rfl

theorem size_growItemLists (s : Store) (total : Value) (items : List Value) :
    (s.growItemLists total items).size = s.size := by
  induction items generalizing s total with
  | nil => rfl
  | cons item items ih =>
    unfold growItemLists
    split
    · exact ih s total
    · exact ih s total
    · rw [ih, size_growLists]

theorem properties_finished (s : Store) (a : Accumulator) :
    (a.finished s).result.properties = a.response.properties := by
  unfold Accumulator.finished Response.coalesced
  split <;> rfl

/-- **The response in progress** has the merged map of the updates. -/
theorem Store.Gathered.accumulator (h : s.Gathered x maps) :
    ∃ a : Accumulator, s.cell x = a.toValue ∧ a.response.properties = mergedMaps maps := by
  induction h with
  | @new s a h => exact ⟨a.renewed, h, rfl⟩
  | @feed s maps u _ ih =>
    obtain ⟨a, ha, hp⟩ := ih
    have hread := accumulator_of_cell ha
    have hlt : x < s.size := lt_size_of_cell ha (by simp [Accumulator.toValue])
    refine ⟨a.feed s (s.update u), ?_, ?_⟩
    · unfold Store.feed
      rw [hread]
      exact cell_write_self _ (by rw [size_growItemLists]; exact hlt)
    · rw [mergedMaps_append s, ← hp]
      rfl
  | @failed s t maps problems _ hf ih =>
    obtain ⟨a, ha, hp⟩ := ih
    have hlt : x < s.size := lt_size_of_cell ha (by simp [Accumulator.toValue])
    simp only [finalize, accumulator_of_cell ha] at hf
    split at hf
    · cases hf
    · obtain ⟨rfl, -⟩ := Prod.mk.inj hf
      have hgrown := s.extends_settleResponse (a.finished s).result
      refine ⟨_, cell_write_self _ (Nat.lt_of_lt_of_le hlt (List.IsPrefix.length_le hgrown)), ?_⟩
      rw [← hp, ← properties_finished s a]
      rfl
  | meanwhile _ same ih =>
    obtain ⟨a, ha, hp⟩ := ih
    exact ⟨a, same.trans ha, hp⟩

theorem Store.Gathered.properties (h : s.Gathered x maps) :
    (s.accumulator (.shared x)).response.properties = mergedMaps maps := by
  obtain ⟨a, ha, hp⟩ := h.accumulator
  rw [accumulator_of_cell ha, hp]

/-! ## The response that is handed over -/

theorem internAll_append_singleton (s : Store) (vs : List Value) (w : Value) :
    s.internAll (vs ++ [w]) =
      (((s.internAll vs).1.intern w).1,
        (s.internAll vs).2 ++ [((s.internAll vs).1.intern w).2]) := by
  induction vs generalizing s with
  | nil => simp only [List.nil_append, internAll]
  | cons v vs ih => simp only [List.cons_append, internAll, ih]

/-- The properties of a response are put into the store last, before the response itself. -/
theorem intern_response (s : Store) (r : Response) :
    ∃ (u : Store) (ref : Nat), s.Extends u ∧
      (u.intern r.properties).1.Extends (s.intern r.toValue).1 ∧
      (s.intern r.toValue).2 = .shared ref ∧ s.size ≤ ref ∧
      ((s.intern r.toValue).1.response (.shared ref)).properties = (u.intern r.properties).2 := by
  let others := [.list (r.messages.map (·.toValue)), r.id, r.conversationId, r.model, r.created,
    r.finish, r.usage, r.raw]
  have hall := internAll_append_singleton s others r.properties
  obtain ⟨a, b, c, d, e, f, g, h, hothers⟩ : ∃ a b c d e f g h,
      (s.internAll others).2 = [a, b, c, d, e, f, g, h] := ⟨_, _, _, _, _, _, _, _, rfl⟩
  have hintern : s.intern r.toValue = (((s.internAll others).1.intern r.properties).1).push
      (.object .response
        [a, b, c, d, e, f, g, h, ((s.internAll others).1.intern r.properties).2]) := by
    show s.intern (.object .response (others ++ [r.properties])) = _
    rw [intern, if_neg (by decide), hall, hothers]
    rfl
  rw [hintern]
  have hold := extends_internAll s others
  generalize (s.internAll others).1 = u at hold
  have hnew := extends_intern u r.properties
  refine ⟨u, (u.intern r.properties).1.size, hold, extends_push _ _, rfl, ?_, ?_⟩
  · exact List.IsPrefix.length_le (hold.trans hnew)
  · simp only [Store.response, head, cell_push_self]

theorem response_properties_congr {v : Value} (h : t.head v = s.head v) :
    (t.response v).properties = (s.response v).properties := by
  unfold Store.response
  rw [h]
  split <;> rfl

/-- **The response that is handed over** has the merged map of the updates, in a cell of its own.
The values of the map are the same objects as before. -/
theorem properties_finalize (h : s.Gathered x maps)
    (flat : ∀ m ∈ maps, ∀ e ∈ m, e.2.isShareable = false)
    (hf : s.finalize (.shared x) = (t, .ok v)) :
    (∃ ref, v = .shared ref ∧ s.size ≤ ref) ∧
      t.head (t.response v).properties = mergedMaps maps ∧
      ∀ p, (t.response v).properties = .shared p → s.size ≤ p := by
  obtain ⟨a, ha, hp⟩ := h.accumulator
  have hlt : x < s.size := lt_size_of_cell ha (by simp [Accumulator.toValue])
  have hgrown := s.extends_settleResponse (a.finished s).result
  have hsame : (s.settleResponse (a.finished s).result).2.properties = mergedMaps maps :=
    (properties_finished s a).trans hp
  simp only [finalize, accumulator_of_cell ha] at hf
  split at hf
  · generalize s.settleResponse (a.finished s).result = settled at *
    obtain ⟨s₁, r⟩ := settled
    simp only at hgrown hsame hf
    obtain ⟨u, ref, hu, hlast, href, hnew, hback⟩ := intern_response s₁ r
    generalize s₁.intern r.toValue = interned at *
    obtain ⟨s₂, w⟩ := interned
    simp only at hlast href hback hf
    subst href
    obtain ⟨rfl, hv⟩ := Prod.mk.inj hf
    obtain rfl := Except.ok.inj hv
    have hsize₁ : s.size ≤ s₁.size := List.IsPrefix.length_le hgrown
    have hsizeu : s₁.size ≤ u.size := List.IsPrefix.length_le hu
    -- the accumulator is an older cell
    have hwritten : ∀ {y}, s.size ≤ y →
        (s₂.write (.shared x) a.renewed.toValue).cell y = s₂.cell y := by
      intro y hy
      refine s₂.cell_write_of_ne fun he => ?_
      have := Value.shared.inj he
      omega
    have href : s.size ≤ ref := Nat.le_trans hsize₁ hnew
    have hreading : ((s₂.write (.shared x) a.renewed.toValue).response (.shared ref)).properties =
        (s₂.response (.shared ref)).properties := response_properties_congr (hwritten href)
    rw [hreading, hback, hsame]
    refine ⟨⟨ref, rfl, href⟩, ?_⟩
    by_cases hm : maps = []
    · simp [mergedMaps, hm, intern, head]
    · have hmap : mergedMaps maps = .map (keptEntries maps) := if_neg hm
      have hpush : u.intern (mergedMaps maps) = u.push (.map (keptEntries maps)) := by
        rw [hmap, intern, internEntries_of_not_shareable (forall_mem_keptEntries flat)]
      rw [hsame, hpush] at hlast
      have hcell : s₂.cell u.size = .map (keptEntries maps) := by
        rw [hlast.cell (by rw [size_push]; omega), cell_push_self]
      rw [hpush]
      refine ⟨?_, fun p hp => ?_⟩
      · show (s₂.write (.shared x) a.renewed.toValue).cell u.size = _
        rw [hwritten (by omega), hcell, hmap]
      · have : u.size = p := Value.shared.inj hp
        omega
  · cases hf

theorem Store.HandedOver.properties (h : s.HandedOver maps v)
    (flat : ∀ m ∈ maps, ∀ e ∈ m, e.2.isShareable = false) :
    s.head (s.response v).properties = mergedMaps maps := by
  induction h with
  | now h hf => exact (properties_finalize h flat hf).2.1
  | meanwhile _ same map ih => rw [response_properties_congr same, map, ih]

/-- What there was before a response is handed over is no part of it that is its own. -/
theorem ne_of_finalize (h : s.Gathered x maps)
    (flat : ∀ m ∈ maps, ∀ e ∈ m, e.2.isShareable = false)
    (hf : s.finalize (.shared x) = (t, .ok v)) (hy : y < s.size) :
    v ≠ .shared y ∧ (t.response v).properties ≠ .shared y := by
  obtain ⟨⟨ref, rfl, href⟩, -, hplace⟩ := properties_finalize h flat hf
  constructor
  · intro he
    have := Value.shared.inj he
    omega
  · intro he
    have := hplace y he
    omega

/-! ## What the response notices -/

theorem mem_reachedBy_properties (hs : s.proper = true) (hy : y < s.size)
    (hv : s.head v = mergedMaps maps) (hne : v ≠ .shared y) :
    y ∉ s.reachedBy v ↔ ∀ e ∈ keptEntries maps, y ∉ s.reachedBy e.2 := by
  have hparts : (mergedMaps maps).parts = (keptEntries maps).map (·.2) := by
    unfold mergedMaps
    split
    · next h => rw [h]; rfl
    · rfl
  have hmap : (∃ w ∈ (keptEntries maps).map (·.2), y ∈ s.reachedBy w) ↔
      ∃ e ∈ keptEntries maps, y ∈ s.reachedBy e.2 := by
    simp only [List.mem_map, exists_exists_and_eq_and]
  rw [mem_reachedBy_iff hs hy, hv, hparts, hmap, or_iff_right hne]
  push Not
  rfl

theorem same_in_progress_iff (hs : s.proper = true) (hy : y < s.size) (content : Value)
    (h : s.Gathered x maps) (hne : y ≠ x) :
    s.AlikeIn (s.write (.shared y) content) (s.accumulator (.shared x)).response.properties
        ((s.write (.shared y) content).accumulator (.shared x)).response.properties ↔
      (∀ e ∈ keptEntries maps, y ∉ s.reachedBy e.2) ∨
        s.AlikeIn (s.write (.shared y) content) (.shared y) (.shared y) := by
  have hcell : (s.write (.shared y) content).cell x = s.cell x :=
    s.cell_write_of_ne fun he => hne (Value.shared.inj he)
  have hwritten := (h.meanwhile hcell).properties
  have hout : s.head (mergedMaps maps) = mergedMaps maps := by
    unfold mergedMaps
    split <;> rfl
  have hnot : mergedMaps maps ≠ .shared y := by
    unfold mergedMaps
    split <;> simp
  rw [h.properties, hwritten, alikeIn_write_iff hs, mem_reachedBy_properties hs hy hout hnot]

theorem same_handed_over_iff (hs : s.proper = true)
    (flat : ∀ m ∈ maps, ∀ e ∈ m, e.2.isShareable = false) (hy : y < s.size) (content : Value)
    (h : s.HandedOver maps v) (hne : v ≠ .shared y)
    (hnot : (s.response v).properties ≠ .shared y) :
    s.AlikeIn (s.write (.shared y) content) (s.response v).properties
        ((s.write (.shared y) content).response v).properties ↔
      (∀ e ∈ keptEntries maps, y ∉ s.reachedBy e.2) ∨
        s.AlikeIn (s.write (.shared y) content) (.shared y) (.shared y) := by
  have hcell : (s.write (.shared y) content).head v = s.head v := by
    cases v with
    | shared ref => exact s.cell_write_of_ne (Ne.symm hne)
    | _ => rfl
  rw [response_properties_congr hcell, alikeIn_write_iff hs,
    mem_reachedBy_properties hs hy (h.properties flat) hnot]

/-- **What the response notices.** Somebody writes to a cell. The properties of a response in
progress read the same if and only if no value that was kept of the maps leads to the cell, or the
cell reads the same; and so do those of a response that has been handed over, whatever happened
since then. -/
theorem properties_same_iff (hs : s.proper = true)
    (flat : ∀ m ∈ maps, ∀ e ∈ m, e.2.isShareable = false) (hy : y < s.size) (content : Value) :
    (∀ x, s.Gathered x maps → y ≠ x →
      (s.AlikeIn (s.write (.shared y) content) (s.accumulator (.shared x)).response.properties
          ((s.write (.shared y) content).accumulator (.shared x)).response.properties ↔
        (∀ e ∈ keptEntries maps, y ∉ s.reachedBy e.2) ∨
          s.AlikeIn (s.write (.shared y) content) (.shared y) (.shared y))) ∧
    ∀ v, s.HandedOver maps v → v ≠ .shared y → (s.response v).properties ≠ .shared y →
      (s.AlikeIn (s.write (.shared y) content) (s.response v).properties
          ((s.write (.shared y) content).response v).properties ↔
        (∀ e ∈ keptEntries maps, y ∉ s.reachedBy e.2) ∨
          s.AlikeIn (s.write (.shared y) content) (.shared y) (.shared y)) := by
  constructor
  · intro x h hne
    exact same_in_progress_iff hs hy content h hne
  · intro v h hne hnot
    exact same_handed_over_iff hs flat hy content h hne hnot

/-- Values that refer to nothing are out of reach: the response does not notice any change. -/
theorem properties_same_of_plain (hs : s.proper = true) (hy : y < s.size) (content : Value)
    (h : s.Gathered x maps) (hne : y ≠ x) (plain : ∀ e ∈ keptEntries maps, e.2.refs = []) :
    s.AlikeIn (s.write (.shared y) content) (s.accumulator (.shared x)).response.properties
      ((s.write (.shared y) content).accumulator (.shared x)).response.properties := by
  refine (same_in_progress_iff hs hy content h hne).2 (Or.inl fun e he hm => ?_)
  have hnone : ∀ z ∈ s.reachedBy e.2, False := by
    refine forall_mem_reachedBy (fun z hz _ => ?_) fun z hz _ _ _ => hz
    rw [plain e he] at hz
    cases hz
  exact hnone y hm

end

/-! ## A map inside of a map -/

/-- An accumulator in cell 8, and an update in cell 13. In its properties, cell 12, it has a map of
tags, cell 11. -/
def tagged : Store :=
  (Store.empty.internAll
    [(Accumulator.new (.bool true)).toValue,
      { Update.blank with
        contents := [plainText "x"]
        properties := .map [(.text "tags", .map [(.text "lang", .text "en")])] }.toValue]).1

/-- The tags are changed when the accumulator has been fed, and when it has handed its response
over. -/
theorem properties_same_iff_tagged :
    let s := tagged.feed (.shared 8) (.shared 13)
    let t := (s.finalize (.shared 8)).1
    let tags : Value := .map [(.text "lang", .text "fr")]
    (s.AlikeIn (s.write (.shared 11) tags) (s.accumulator (.shared 8)).response.properties
        ((s.write (.shared 11) tags).accumulator (.shared 8)).response.properties ↔
      (∀ e ∈ keptEntries [[(.text "tags", .shared 11)]], 11 ∉ s.reachedBy e.2) ∨
        s.AlikeIn (s.write (.shared 11) tags) (.shared 11) (.shared 11)) ∧
    (t.AlikeIn (t.write (.shared 11) tags) (t.response (.shared 18)).properties
        ((t.write (.shared 11) tags).response (.shared 18)).properties ↔
      (∀ e ∈ keptEntries [[(.text "tags", .shared 11)]], 11 ∉ t.reachedBy e.2) ∨
        t.AlikeIn (t.write (.shared 11) tags) (.shared 11) (.shared 11)) :=
  have h : (tagged.feed (.shared 8) (.shared 13)).Gathered 8 [[(.text "tags", .shared 11)]] :=
    .feed (.shared 13) (.new (a := .new (.bool true)) rfl)
  have hv : ((tagged.feed (.shared 8) (.shared 13)).finalize (.shared 8)).2 =
      .ok (.shared 18) := rfl
  ⟨(properties_same_iff (by decide) (by decide) (by decide) _).1 8 h (by decide),
    (properties_same_iff (by decide) (by decide) (by decide) _).2 (.shared 18)
      (.now h (Prod.ext rfl hv)) (by decide) (by decide)⟩

/-- To set a key of a map inside of the map of an update is to change the properties of the
response, also when it has been handed over. -/
theorem properties_shared_tagged :
    let fed := tagged.feed (.shared 8) (.shared 13)
    let before := (fed.finalize (.shared 8)).1
    (fed.finalize (.shared 8)).2 = .ok (.shared 18) ∧
      ∃ after,
        before.assign (before.followAll (.shared 13) [.text "additional_properties", .text "tags"])
          (.text "lang") (.text "fr") = .ok after ∧
        ¬before.AlikeIn after (before.response (.shared 18)).properties
          (after.response (.shared 18)).properties := by
  refine ⟨rfl, _, rfl, fun h => ?_⟩
  exact absurd (h 3) (by decide)

end Reassembly
