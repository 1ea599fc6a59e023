import Reassembly.Proofs.Figures
import Reassembly.Proofs.Records

/-!
# Usage of a stream

Counters come along in a stream as usage items, here and there among the contents of its updates.
The usage of the response is their sum, and nothing of the stream but these counters has a say in
it: not in which updates and messages they are, nor whether the contents are coalesced. Their order
decides on the order of the names only.

* `carried`: the counters that a stream carries.
* `feedAll_usage_eq`: a fold adds them up one by one.
* `figures_addItems`: so the figures of its usage are the sum of theirs.
* `usage_totals`: the usage of a response in closed form, and of two responses whose streams carry
  the same counters.
-/
namespace Reassembly

open Store Response

/-- The counters that content items carry: those of the usage items that have any. -/
def carriedBy (s : Store) (items : List Value) : List Value :=
  (items.filterMap s.usageItem?).filter (· ≠ .null)

/-- The counters that a stream carries, in their order. -/
def carried (s : Store) (us : List Update) : List Value := carriedBy s (us.flatMap (·.contents))

section
variable {s : Store}

theorem feedAll_usage_eq (r : Response) (us : List Update) :
    (feedAll s r us).usage = addItems s r.usage (us.flatMap (·.contents)) := by
  induction us generalizing r with
  | nil => rfl
  | cons u us ih =>
    rw [List.flatMap_cons, addItems_append]
    exact ih (r.feed s u)

theorem carriedBy_cons (s : Store) (c : Value) (cs : List Value) :
    (carriedBy s (c :: cs) = carriedBy s cs ∧ ∀ total, addItem s total c = total) ∨
      ∃ details, s.usageItem? c = some details ∧ details ≠ .null ∧
        carriedBy s (c :: cs) = details :: carriedBy s cs ∧
        ∀ total, addItem s total c = ((s.usage total).add s (s.usage details)).toValue := by
  unfold carriedBy addItem
  cases hd : s.usageItem? c with
  | none => exact Or.inl ⟨by simp [hd], fun _ => rfl⟩
  | some details =>
    by_cases hn : details = .null
    · exact Or.inl ⟨by simp [hd, hn], fun _ => by rw [hn]⟩
    · refine Or.inr ⟨details, rfl, hn, by simp [hd, hn], fun total => ?_⟩
      cases details <;> first | exact absurd rfl hn | rfl

theorem addItems_eq_null_iff {total : Value} {items : List Value} :
    addItems s total items = .null ↔ total = .null ∧ carriedBy s items = [] := by
  induction items generalizing total with
  | nil => exact (and_iff_left rfl).symm
  | cons c cs ih =>
    have hstep : addItems s total (c :: cs) = addItems s (addItem s total c) cs := rfl
    rcases carriedBy_cons s c cs with ⟨hc, hadd⟩ | ⟨details, -, -, hc, hadd⟩
    · rw [hstep, hadd, hc]
      exact ih
    · rw [hstep, hadd, hc, ih]
      simp [Usage.toValue]

theorem nodup_entries? (hs : s.keyed = true) {v : Value} (hv : v.keyed = true)
    {es : Entries Value} (h : s.entries? v = some es) : es.keys.Nodup := by
  have hhead := keyed_head hs hv
  unfold entries? at h
  split at h
  · next fs hfs =>
    rw [hfs, Value.keyed, Bool.and_eq_true, decide_eq_true_eq] at hhead
    rw [← Option.some.inj h]
    exact hhead.1
  · cases h

theorem keyed_figures (hs : s.keyed = true) {v : Value} (hv : v.keyed = true)
    (ho : s.obeys (.optional (.one .details)) v = true) : (s.figures v).Keyed := by
  intro es hes
  have hcounts : (s.usage v).counts.keyed = true := by
    rcases obeys_optional.1 ho with rfl | hf
    · rfl
    · have hh := keyed_head hs hv
      rw [(formed_details hf).1, Value.keyed, Value.keyedAll_iff] at hh
      exact hh _ (by simp)
  obtain ⟨entries, hentries, rfl⟩ := Option.map_eq_some_iff.1 hes
  rw [Entries.keys_numbers]
  exact nodup_entries? hs hcounts hentries

theorem keyed_usageItem? (hs : s.keyed = true) {c details : Value} (hc : c.keyed = true)
    (hd : s.usageItem? c = some details) : details.keyed = true := by
  unfold usageItem? at hd
  split at hd
  · next hu =>
    cases hd
    have hh := keyed_head hs hc
    rw [hu, Value.keyed, Value.keyedAll_iff] at hh
    exact hh _ (by simp)
  · cases hd

/-- **The figures of a running total** are the sum of those of the total and of the items. -/
theorem figures_addItems (hs : s.keyed = true) {total : Value} {items : List Value}
    (ht : s.obeys (.optional (.one .details)) total = true) (hk : (s.figures total).Keyed)
    (hi : ∀ c ∈ items, s.formed .content c = true ∧ c.keyed = true) :
    s.figures (addItems s total items) =
      Figures.sum (s.figures total :: (carriedBy s items).map s.figures) := by
  induction items generalizing total with
  | nil => exact (Figures.sum_singleton hk).symm
  | cons c cs ih =>
    obtain ⟨⟨hc, hck⟩, hcs⟩ := List.forall_mem_cons.1 hi
    have hstep : addItems s total (c :: cs) = addItems s (addItem s total c) cs := rfl
    rcases carriedBy_cons s c cs with ⟨hnone, hadd⟩ | ⟨details, hd, -, hmore, hadd⟩
    · rw [hstep, hadd, hnone]
      exact ih ht hk hcs
    · have hobeys := obeys_of_usageItem? hc hd
      have hdk := keyed_figures hs (keyed_usageItem? hs hck hd) hobeys
      have hsum : s.figures (addItem s total c) =
          Figures.sum [s.figures total, s.figures details] := by
        rw [hadd]
        exact figures_add (usage_formed ht) (usage_formed hobeys) hk hdk
      have hrest := ih (obeys_addItem ht hc) (hsum ▸ Figures.keyed_sum _) hcs
      rw [hstep, hrest, hsum, hmore]
      exact Figures.sum_sum_cons _ _

end

/-! ## The usage of a response -/

/-- The updates obey their rules, and no map in them has a key twice. -/
def Store.Streamed (s : Store) (us : List Update) : Prop :=
  s.keyed = true ∧ ∀ u ∈ us, s.formed .update u.toValue = true ∧ u.toValue.keyed = true

instance (s : Store) (us : List Update) : Decidable (s.Streamed us) :=
  inferInstanceAs (Decidable (s.keyed = true ∧
    ∀ u ∈ us, s.formed .update u.toValue = true ∧ u.toValue.keyed = true))

section
variable {s t : Store} {us vs : List Update}

theorem Store.Streamed.formed (h : s.Streamed us) : ∀ u ∈ us, u.Formed s :=
  fun u hu => formed_update_iff.1 (h.2 u hu).1

theorem Store.Streamed.items (h : s.Streamed us) :
    ∀ c ∈ us.flatMap (·.contents), s.formed .content c = true ∧ c.keyed = true := by
  intro c hc
  obtain ⟨u, hu, hcu⟩ := List.mem_flatMap.1 hc
  refine ⟨(h.formed u hu).contents c hcu, ?_⟩
  have hkeyed := (h.2 u hu).2
  rw [Update.toValue, Value.keyed, Value.keyedAll_iff] at hkeyed
  have hcontents := hkeyed (.list u.contents) (by simp [Update.values])
  rw [Value.keyed, Value.keyedAll_iff] at hcontents
  exact hcontents c hcu

theorem figures_feedAll (h : s.Streamed us) :
    s.figures (feedAll s .empty us).usage = Figures.sum ((carried s us).map s.figures) := by
  have hempty : (s.figures Response.empty.usage).Keyed := Figures.keyed_sum []
  rw [feedAll_usage_eq, figures_addItems h.1 rfl hempty h.items]
  exact Figures.sum_sum_cons [] _

theorem usage_feedAll_eq_null_iff :
    (feedAll s .empty us).usage = .null ↔ carried s us = [] := by
  rw [feedAll_usage_eq, addItems_eq_null_iff]
  exact and_iff_right rfl

theorem usage_feedAll (h : s.Streamed us) (hc : carried s us ≠ []) :
    (feedAll s .empty us).usage =
      (Figures.sum ((carried s us).map s.figures)).toUsage.toValue := by
  have hne : (feedAll s .empty us).usage ≠ .null := fun hn => hc (usage_feedAll_eq_null_iff.1 hn)
  have hformed := (Response.Formed.empty.feedAll h.formed).usage
  have htallied : Tallied (feedAll s .empty us).usage := by
    rw [feedAll_usage_eq]
    exact tallied_addItems (Or.inl rfl) _
  obtain ⟨u, hu, hcounts⟩ := htallied.resolve_left hne
  have hu' := usage_formed hformed
  have hfigures := figures_feedAll h
  rw [figures, hu, usage_toValue] at hfigures
  rw [hu, usage_toValue] at hu'
  rw [hu, ← hfigures, toUsage_figures hu' hcounts]

/-- **Usage totals are exact and order-free.** The response to a stream has usage if and only if the
stream carries counters, and then their sum. Responses to streams that carry the same counters, in
whatever order and wherever in the streams, have the same usage up to the order of the names. -/
theorem usage_totals (hu : s.Streamed us) (hv : t.Streamed vs) (wanted other : Bool) :
    ∃ q r, ofUpdates s us wanted = .ok q ∧ ofUpdates t vs other = .ok r ∧
      (q.usage = .null ↔ carried s us = []) ∧
      (carried s us ≠ [] →
        q.usage = (Figures.sum ((carried s us).map s.figures)).toUsage.toValue) ∧
      ∀ sorted, ((carried s us).map s.figures).Perm sorted →
        List.Forall₂ Figures.Same sorted ((carried t vs).map t.figures) →
        (q.usage = .null ↔ r.usage = .null) ∧ (s.figures q.usage).Same (t.figures r.usage) := by
  refine ⟨_, _, ofUpdates_of_formed hu.formed wanted, ofUpdates_of_formed hv.formed other,
    usage_feedAll_eq_null_iff, usage_feedAll hu, fun sorted hp hs => ⟨?_, ?_⟩⟩
  · show (feedAll s .empty us).usage = .null ↔ (feedAll t .empty vs).usage = .null
    have hlength := hp.length_eq.trans hs.length_eq
    rw [List.length_map, List.length_map] at hlength
    rw [usage_feedAll_eq_null_iff, usage_feedAll_eq_null_iff, ← List.length_eq_zero_iff, hlength,
      List.length_eq_zero_iff]
  · show (s.figures (feedAll s .empty us).usage).Same (t.figures (feedAll t .empty vs).usage)
    rw [figures_feedAll hu, figures_feedAll hv]
    exact Figures.sum_same hp hs

end

/-- Counters in cells 9, 11 and 13; the last ones name what the first ones do, in another order. -/
def meter : Store :=
  (Store.empty.internAll
    [(Usage.mk (.int 10) .null .null
        (.map [(.text "cached", .int 4), (.text "audio", .int 1)])).toValue,
      (Usage.mk (.int 5) (.int 2) .null (.map [(.text "audio", .int 3)])).toValue,
      (Usage.mk (.int 10) .null .null
        (.map [(.text "audio", .int 1), (.text "cached", .int 4)])).toValue]).1

/-- Two readings in two messages, with a usage item that has no counters between them. -/
def readings : List Update :=
  [{ Update.blank with messageId := .text "a", contents := [usageItem (.shared 9), plainText "x"] },
    { Update.blank with messageId := .text "b", contents := [usageItem .null] },
    { Update.blank with contents := [usageItem (.shared 11)] }]

/-- The same readings in one message, in another order, and one of them with other names first. -/
def summary : List Update :=
  [{ Update.blank with contents := [usageItem (.shared 11), usageItem (.shared 13)] }]

theorem usage_totals_meter :
    ∃ q r, ofUpdates meter readings true = .ok q ∧ ofUpdates meter summary false = .ok r ∧
      q.usage = (Usage.mk (.int 15) (.int 2) .null
        (.map [(.text "cached", .int 4), (.text "audio", .int 4)])).toValue ∧
      (meter.figures q.usage).Same (meter.figures r.usage) := by
  have hreadings : meter.Streamed readings := by decide
  have hsummary : meter.Streamed summary := by decide
  obtain ⟨q, r, hq, hr, -, hsum, hsame⟩ := usage_totals hreadings hsummary true false
  have first : ((meter.figures (.shared 9)).Same (meter.figures (.shared 13))) :=
    ⟨rfl, rfl, rfl, .some (.swap _ _ _)⟩
  have second : ((meter.figures (.shared 11)).Same (meter.figures (.shared 11))) :=
    ⟨rfl, rfl, rfl, .some (.refl _)⟩
  refine ⟨q, r, hq, hr, (hsum (by decide)).trans (by decide), ?_⟩
  exact (hsame [meter.figures (.shared 11), meter.figures (.shared 9)] (.swap _ _ _)
    (.cons second (.cons first .nil))).2

end Reassembly
