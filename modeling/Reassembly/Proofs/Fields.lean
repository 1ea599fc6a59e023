import Reassembly.Proofs.Losses
import Reassembly.Proofs.Metadata
import Reassembly.Proofs.Totals

/-!
# What a response says of the call

Next to its messages and its usage a response has two ids, a finish reason, a model, a time and
properties. The first five are the newest values that the stream brings, where an empty response id
is none, but any other empty text is a value. The properties are one map of all properties that the
updates bring, a key where it came up first, with the value that came last. None of it depends on
what the updates say of messages.

* `lastKnown_eq_null_iff`, `feedAll_field_eq`: the newest values.
* `written`, `entries?_feedAll`, `feedAll_properties_eq_null_iff`: the properties.
* `DescribedAll.created_eq`: the time of the response, told by its messages.
* `Response.outer`, `outer_feedAll`: what a response says besides its messages and its usage.
* `response_fields`: all of these in closed form.
-/
namespace Reassembly

open Store Response

/-! ## The newest values -/

theorem lastKnown_eq_null_iff {vs : List Value} : lastKnown vs = .null ↔ ∀ v ∈ vs, v = .null := by
  rw [← latest_eq_lastKnown]
  exact latest_eq_null_iff

section
variable {s : Store}

theorem feedAll_field_eq (f : Response → Value) (g : Update → Value)
    (hf : ∀ r u, f (r.feed s u) = newer (g u) (f r)) (h0 : f .empty = .null) (us : List Update) :
    f (feedAll s .empty us) = lastKnown (us.map g) := by
  rw [feedAll_field f g hf h0, latest_eq_lastKnown]

/-- The last time that any message has is the last time of the stream. -/
theorem DescribedAll.created_eq {segs : List (List Update)} {ms : List Message}
    (h : DescribedAll segs ms) :
    lastKnown (ms.map (·.created)) = lastKnown (segs.flatten.map (·.created)) := by
  induction h with
  | nil => rfl
  | snoc _ hlast ih =>
    rw [List.map_append, List.map_singleton, lastKnown_append_singleton, ih, hlast.created,
      List.flatten_append, List.flatten_singleton, List.map_append, lastKnown_append]

/-! ## Properties -/

/-- The entries that the updates of a stream write, in their order. -/
def written (s : Store) (us : List Update) : Entries Value :=
  us.flatMap fun u => (s.entries? u.properties).getD []

theorem written_append_singleton (us : List Update) (u : Update) :
    written s (us ++ [u]) = written s us ++ (s.entries? u.properties).getD [] := by
  simp [written]

theorem keys_written (us : List Update) :
    (written s us).keys = us.flatMap (keysOf s ·.properties) := by
  simp only [written, Entries.keys, List.map_flatMap]
  rfl

theorem entries?_feedAll (us : List Update) :
    (s.entries? (feedAll s .empty us).properties).getD [] = .ofList (written s us) := by
  induction us using List.reverseRecOn with
  | nil => rfl
  | append_singleton us u ih =>
    rw [feedAll_append_singleton, written_append_singleton, ← Entries.merge_ofList, ← ih]
    exact entries?_mergeProperties s _ u.properties

theorem feedAll_properties_eq_null_iff {us : List Update} :
    (feedAll s .empty us).properties = .null ↔ ∀ u ∈ us, s.entries? u.properties = none := by
  induction us using List.reverseRecOn with
  | nil => simp [feedAll, Response.empty]
  | append_singleton us u ih =>
    rw [feedAll_append_singleton, List.forall_mem_append, List.forall_mem_singleton, ← ih]
    exact mergeProperties_eq_null_iff

theorem valuesOf_written {us : List Update} (h : ∀ u ∈ us, (keysOf s u.properties).Nodup)
    (k : Key) : (written s us).valuesOf k =
      us.filterMap fun u => (s.entries? u.properties).bind (·.get? k) := by
  induction us with
  | nil => rfl
  | cons u us ih =>
    obtain ⟨hu, hus⟩ := List.forall_mem_cons.1 h
    have hfirst : Entries.valuesOf ((s.entries? u.properties).getD []) k =
        ((s.entries? u.properties).bind (·.get? k)).toList := by
      rw [Entries.valuesOf_of_nodup hu]
      cases s.entries? u.properties <;> rfl
    have hcons : written s (u :: us) = (s.entries? u.properties).getD [] ++ written s us := rfl
    rw [hcons, Entries.valuesOf_append, ih hus, hfirst, List.filterMap_cons]
    cases (s.entries? u.properties).bind (·.get? k) <;> rfl

theorem nodup_keysOf (hs : s.keyed = true) {v : Value} (hv : v.keyed = true) :
    (keysOf s v).Nodup := by
  unfold keysOf
  cases h : s.entries? v with
  | none => exact .nil
  | some es => exact nodup_entries? hs hv h

/-! ## Whatever the updates say of messages -/

/-- The update without what it says of a message. -/
def Update.outer (u : Update) : Update :=
  { u with role := .null, contents := [], author := .null, messageId := .null, raw := .null }

/-- The response without its messages and its usage. -/
def Response.outer (r : Response) : Response := { r with messages := [], usage := .null }

/-- What a response says of the call is what it says without the messages of the stream. -/
theorem outer_feedAll (us : List Update) :
    (feedAll s .empty us).outer = (feedAll s .empty (us.map Update.outer)).outer := by
  induction us using List.reverseRecOn with
  | nil => rfl
  | append_singleton us u ih =>
    have hstep : ∀ r : Response, (r.feed s u).outer = (r.outer.feed s u.outer).outer := fun _ => rfl
    rw [List.map_append, List.map_singleton, feedAll_append_singleton, feedAll_append_singleton,
      hstep, ih]
    rfl

end

/-! ## Responses -/

section
variable {s : Store} {us : List Update}

theorem Store.Streamed.nodup_keys (h : s.Streamed us) :
    ∀ u ∈ us, (keysOf s u.properties).Nodup := by
  intro u hu
  have hkeyed := (h.2 u hu).2
  rw [Update.toValue, Value.keyed, Value.keyedAll_iff] at hkeyed
  exact nodup_keysOf h.1 (hkeyed u.properties (by simp [Update.values]))

theorem Store.Streamed.entries?_eq_none_iff (h : s.Streamed us) {u : Update} (hu : u ∈ us) :
    s.entries? u.properties = none ↔ u.properties = .null := by
  rcases obeys_properties.1 (h.formed u hu).properties with hn | ⟨es, hes, -⟩
  · rw [hn]
    exact iff_of_true rfl rfl
  · refine iff_of_false (fun he => ?_) fun hn => ?_
    · simp [entries?, hes] at he
    · rw [hn] at hes
      cases hes

theorem properties_feedAll (h : s.Streamed us) :
    ((feedAll s .empty us).properties = .null ↔ ∀ u ∈ us, u.properties = .null) ∧
      ((feedAll s .empty us).properties ≠ .null →
        ∃ es : Entries Value, (feedAll s .empty us).properties = .map es ∧
          es.keys = (us.flatMap (keysOf s ·.properties)).eraseDups ∧
          ∀ k, es.get? k =
            (us.filterMap fun u => (s.entries? u.properties).bind (·.get? k)).getLast?) := by
  constructor
  · rw [feedAll_properties_eq_null_iff]
    exact forall₂_congr fun u hu => h.entries?_eq_none_iff hu
  · intro hne
    obtain ⟨es, hes, -⟩ := (folded_feedAll s us).properties.resolve_left hne
    have hall : es = .ofList (written s us) := by
      rw [← entries?_feedAll, hes]
      rfl
    refine ⟨es, hes, ?_, fun k => ?_⟩
    · rw [hall, Entries.keys_ofList, keys_written]
    · rw [hall, Entries.get?_ofList, valuesOf_written h.nodup_keys]

/-- **What a response says of the call.** Its id is the last one of the stream that is not empty;
its conversation, time, finish reason and model are the last ones that the stream names. There are
properties if and only if some update has any: a key stands where it came up first, for the value
that the last update with that key gives it. The time is that of the last message that has one. The
rest of the stream has no say in it, and neither has coalescing. -/
theorem response_fields (h : s.Streamed us) (wanted : Bool) :
    ∃ r, ofUpdates s us wanted = .ok r ∧
      r.id = lastKnown (us.map (real ·.responseId)) ∧
      r.conversationId = lastKnown (us.map (·.conversationId)) ∧
      r.created = lastKnown (us.map (·.created)) ∧
      r.finish = lastKnown (us.map (·.finish)) ∧
      r.model = lastKnown (us.map (·.model)) ∧ r.raw = .null ∧
      (r.properties = .null ↔ ∀ u ∈ us, u.properties = .null) ∧
      (r.properties ≠ .null → ∃ es : Entries Value, r.properties = .map es ∧
        es.keys = (us.flatMap (keysOf s ·.properties)).eraseDups ∧
        ∀ k, es.get? k =
          (us.filterMap fun u => (s.entries? u.properties).bind (·.get? k)).getLast?) ∧
      (r.created = .null ↔ ∀ m ∈ r.messages, m.created = .null) ∧
      r.created = lastKnown (r.messages.map (·.created)) ∧
      ∀ (vs : List Update) (other : Bool),
        (other = true → ∀ v ∈ vs, s.formed .update v.toValue = true) →
        vs.map Update.outer = us.map Update.outer →
        ∃ q, ofUpdates s vs other = .ok q ∧ q.outer = r.outer := by
  have hcreated : (feedAll s .empty us).created = lastKnown (us.map (·.created)) :=
    feedAll_field_eq (·.created) (·.created) (fun _ _ => rfl) rfl us
  have htimes : ((feedAll s .empty us).settled s wanted).messages.map (·.created) =
      (feedAll s .empty us).messages.map (·.created) := by
    rw [Response.settled, List.map_map]
    exact List.map_congr_left fun m _ => settled_created wanted m
  have hmessages : (feedAll s .empty us).created =
      lastKnown (((feedAll s .empty us).settled s wanted).messages.map (·.created)) := by
    rw [htimes, (describedAll_feedAll s us).created_eq, flatten_segments, hcreated]
  obtain ⟨hnull, hmap⟩ := properties_feedAll h
  refine ⟨_, ofUpdates_of_formed h.formed wanted, ?_, ?_, hcreated, ?_, ?_, feedAll_raw .empty us,
    hnull, hmap, ?_, hmessages, fun vs other hv hsame => ?_⟩
  · exact feedAll_field_eq (·.id) (real ·.responseId) (fun _ _ => rfl) rfl us
  · exact feedAll_field_eq (·.conversationId) (·.conversationId) (fun _ _ => rfl) rfl us
  · exact feedAll_field_eq (·.finish) (·.finish) (fun _ _ => rfl) rfl us
  · exact feedAll_field_eq (·.model) (·.model) (fun _ _ => rfl) rfl us
  · show (feedAll s .empty us).created = .null ↔ _
    rw [hmessages, lastKnown_eq_null_iff, List.forall_mem_map]
  · refine ⟨_, ofUpdates_eq_settled hv, ?_⟩
    show (feedAll s .empty vs).outer = (feedAll s .empty us).outer
    rw [outer_feedAll, hsame, ← outer_feedAll]

end

/-- Two updates with ids and properties, and one between them with an empty map of properties. -/
def notices : List Update :=
  [{ Update.blank with
      responseId := .text "r", conversationId := .text "c"
      properties := .map [(.text "x", .int 1), (.text "y", .int 2)] },
    { Update.blank with messageId := .text "m", properties := .map [] },
    { Update.blank with
      responseId := .text "", conversationId := .text ""
      properties := .map [(.text "z", .int 3), (.text "x", .int 4)] }]

/-- An empty response id leaves the one before it, an empty conversation id does not. -/
theorem response_fields_notices :
    ∃ r, ofUpdates .empty notices true = .ok r ∧ r.id = .text "r" ∧ r.conversationId = .text "" ∧
      r.created = .null ∧ ∃ es : Entries Value, r.properties = .map es ∧
        es.keys = [.text "x", .text "y", .text "z"] ∧ es.get? (.text "x") = some (.int 4) := by
  have hstream : Store.empty.Streamed notices := by decide
  obtain ⟨r, hr, hid, hconversation, hcreated, -, -, -, hnull, hmap, -⟩ :=
    response_fields hstream true
  have hne : r.properties ≠ .null := fun he => absurd (hnull.1 he) (by decide)
  obtain ⟨es, hes, hkeys, hget⟩ := hmap hne
  refine ⟨r, hr, hid.trans (by decide), hconversation.trans (by decide),
    hcreated.trans (by decide), es, hes, hkeys.trans (by decide), ?_⟩
  exact (hget (.text "x")).trans (by decide)

end Reassembly
