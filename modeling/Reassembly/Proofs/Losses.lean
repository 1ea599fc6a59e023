import Reassembly.Proofs.RoundTrip

/-!
# What refolding loses

A response that is taken apart and folded again should come back with its messages, each with its
role, its text and its contents, and with its usage and its properties. That is less than being
equal to what it was: ids, authors and times may differ. It is not so for every response. Messages
run together unless each has an id of its own next to its neighbours; a message without a role takes
that of the message before; usage items in a message go into the counters; the properties of
messages go into those of the response; and without messages the usage and the properties open one.
These are all the losses.

* `Response.Preserved`: what should come back.
* `keysOf`, `equal_mergeProperties_iff`: a map written over another one is what it was if and only
  if the other one has no other keys.
* `mem_keysOf_gathered`: the keys that messages bring along.
* `preserved_returned_iff`: one message that comes back.
* `Response.Faithful`, `preserved_feedAll_iff`: the conditions on a response with messages.
* `refold_preserved_iff`: **exactly which responses come back**.
* `refold_merges_inquiry`: a question and its answer, without ids, come back as one message.
-/
namespace Reassembly

open Store Response

/-- What is promised of a message: its role, its text and its contents. -/
structure Message.Preserved (s : Store) (m n : Message) : Prop where
  role : s.Equal m.role n.role
  text : m.text s = n.text s
  contents : List.Forall₂ s.Equal m.contents n.contents

/-- What is promised of a response: as many messages in the same order, its text, its usage and its
properties. -/
structure Response.Preserved (s : Store) (q r : Response) : Prop where
  messages : List.Forall₂ (Message.Preserved s) q.messages r.messages
  text : q.text s = r.text s
  usage : s.Equal q.usage r.usage
  properties : s.Equal q.properties r.properties

/-! ## Properties -/

/-- The keys of a map; what is no map has none. -/
def keysOf (s : Store) (v : Value) : List Key := Entries.keys ((s.entries? v).getD [])

section
variable {s : Store} {old new : Value}

theorem entries?_mergeProperties (s : Store) (old new : Value) :
    ((s.entries? (mergeProperties s old new)).getD []) =
      Entries.merge ((s.entries? old).getD []) ((s.entries? new).getD []) := by
  unfold mergeProperties
  cases hn : s.entries? new with
  | none => rfl
  | some fs => simp [entries?, head]

theorem mergeProperties_eq_null_iff :
    mergeProperties s old new = .null ↔ old = .null ∧ s.entries? new = none := by
  unfold mergeProperties
  cases s.entries? new <;> simp

/-- The properties that a list of messages brings into a response. -/
def gathered (s : Store) (old : Value) (ms : List Message) : Value :=
  ms.foldl (fun p m => mergeProperties s p m.properties) old

theorem mem_keysOf_gathered {k : Key} {ms : List Message} :
    k ∈ keysOf s (gathered s old ms) ↔
      k ∈ keysOf s old ∨ ∃ m ∈ ms, k ∈ keysOf s m.properties := by
  induction ms generalizing old with
  | nil => simp [gathered]
  | cons m ms ih =>
    have hstep : k ∈ keysOf s (mergeProperties s old m.properties) ↔
        k ∈ keysOf s old ∨ k ∈ keysOf s m.properties := by
      unfold keysOf
      rw [entries?_mergeProperties, Entries.mem_keys_merge]
    show k ∈ keysOf s (gathered s (mergeProperties s old m.properties) ms) ↔ _
    rw [ih, hstep, List.exists_mem_cons_iff, or_assoc]

theorem nodup_keysOf_gathered {ms : List Message} (h : (keysOf s old).Nodup) :
    (keysOf s (gathered s old ms)).Nodup := by
  induction ms generalizing old with
  | nil => exact h
  | cons m ms ih =>
    have hstep : (keysOf s (mergeProperties s old m.properties)).Nodup := by
      unfold keysOf
      rw [entries?_mergeProperties]
      exact Entries.nodup_merge _ h
    exact ih hstep

theorem gathered_eq_null_iff {ms : List Message} :
    gathered s old ms = .null ↔ old = .null ∧ ∀ m ∈ ms, s.entries? m.properties = none := by
  induction ms generalizing old with
  | nil => simp [gathered]
  | cons m ms ih =>
    show gathered s (mergeProperties s old m.properties) ms = .null ↔ _
    rw [ih, mergeProperties_eq_null_iff, List.forall_mem_cons, and_assoc]

theorem head_gathered {ms : List Message} (h : s.head old = old) :
    s.head (gathered s old ms) = gathered s old ms := by
  induction ms generalizing old with
  | nil => exact h
  | cons m ms ih =>
    have hstep : s.head (mergeProperties s old m.properties) =
        mergeProperties s old m.properties := by
      unfold mergeProperties
      split
      · exact h
      · rfl
    exact ih hstep

theorem gathered_reopened (r : Response) :
    (r.reopened s).properties = gathered s .null r.messages := by
  rw [reopened, feedAll_properties_eq, List.foldl_map]
  rfl

end

theorem Value.agreesWithin_iff {es fs : Entries Value} : agreesWithin es fs = true ↔
    ∀ f ∈ fs, ∃ w, es.get? f.1 = some w ∧ f.2.agrees w = true := by
  induction fs with
  | nil => simp [agreesWithin]
  | cons f fs ih =>
    obtain ⟨k, v⟩ := f
    rw [agreesWithin, Bool.and_eq_true, ih, List.forall_mem_cons]
    refine and_congr_left fun _ => ?_
    show _ ↔ ∃ w, es.get? k = some w ∧ v.agrees w = true
    cases es.get? k <;> simp

/-- **Writing properties over others** leaves what was written if and only if it has all keys. -/
theorem equal_mergeProperties_iff {s : Store} {old new : Value} (ho : (keysOf s old).Nodup)
    {fs : Entries Value} (hf : s.head new = .map fs) (hn : (Entries.keys fs).Nodup)
    (hself : s.Equal new new) :
    s.Equal (mergeProperties s old new) new ↔ keysOf s old ⊆ keysOf s new := by
  have hnew : s.entries? new = some fs := by simp [entries?, hf]
  have hkeys : keysOf s new = Entries.keys fs := by simp [keysOf, hnew]
  have hmerge : mergeProperties s old new = .map (((s.entries? old).getD []).merge fs) := by
    rw [mergeProperties, hnew]
  have hlayer : ∀ depth, s.layers (depth + 1) new =
      .map (fs.map fun e => (e.1, s.layers depth e.2)) := by
    intro depth
    simp only [layers, hf]
  have hmerged : ∀ (es : Entries Value) depth, s.layers (depth + 1) (.map es) =
      .map (es.map fun e => (e.1, s.layers depth e.2)) := fun es depth => rfl
  rw [hmerge, hkeys]
  unfold keysOf at ho ⊢
  generalize (s.entries? old).getD [] = es at ho ⊢
  constructor
  · rintro ⟨least, h⟩ k hk
    have hd := h (least + 1) (Nat.le_succ least)
    rw [hlayer, hmerged, Value.agrees, Bool.and_eq_true, Value.agreesWithin_iff] at hd
    obtain ⟨e, he, rfl⟩ := List.mem_map.1 (Entries.mem_keys_merge.2 (Or.inl hk) :
      k ∈ Entries.keys (es.merge fs))
    obtain ⟨w, hw, -⟩ := hd.2 _ (List.mem_map_of_mem he)
    obtain ⟨f, hfm, hfe⟩ := List.mem_map.1 (Entries.mem_of_get? hw)
    have hkey : f.1 = e.1 := (Prod.mk.inj hfe).1
    rw [← hkey]
    exact List.mem_map_of_mem hfm
  · intro hsub
    obtain ⟨least, h⟩ := hself
    have hself : ∀ depth, least ≤ depth →
        (s.layers (depth + 1) new).agrees (s.layers (depth + 1) new) = true := fun depth hd =>
      h (depth + 1) (by omega)
    refine exists_least_succ ⟨least, hself⟩ fun depth hd => ?_
    rw [hlayer, Value.agrees, Bool.and_eq_true, Value.agreesWithin_iff] at hd
    rw [hlayer, hmerged, Value.agrees, Bool.and_eq_true, Value.agreesWithin_iff]
    refine ⟨by simp [Entries.length_merge_of_subset ho hn hsub], ?_⟩
    -- the entries of the merged map are those that were written
    refine List.forall_mem_map.2 fun e he => hd.2 _ (List.mem_map_of_mem ?_)
    have hk : e.1 ∈ Entries.keys (es.merge fs) := List.mem_map_of_mem he
    refine Entries.mem_of_mem_merge ho hn he ?_
    exact (Entries.mem_keys_merge.1 hk).elim (fun h => hsub h) id

/-! ## Messages -/

section
variable {s : Store} {r : Response}

theorem preserved_returned_iff {m : Message} {role : Value} (hself : m.Equal s m)
    (hrole : s.obeys (.optional (.one .role)) role = true) :
    (m.returned s r role).Preserved s m ↔
      (m.role = .null → role = .null) ∧ ∀ c ∈ m.contents, s.isUsage c = false := by
  have h1 := equal_newer_iff hself.role (head_one_iff hrole)
  have h2 := equal_filter_iff hself.contents
  constructor
  · intro h
    exact ⟨h1.1 h.role, h2.1 h.contents⟩
  · rintro ⟨hr, hitems⟩
    refine ⟨h1.2 hr, ?_, h2.2 hitems⟩
    show concatText s (m.contents.filter fun c => !s.isUsage c) = concatText s m.contents
    rw [filter_of_not_usage hitems]

theorem text_of_preserved {q : Response}
    (h : List.Forall₂ (Message.Preserved s) q.messages r.messages) : q.text s = r.text s := by
  have htexts : q.messages.map (·.text s) = r.messages.map (·.text s) := by
    rw [← List.forall₂_eq_eq_eq, List.forall₂_map_left_iff, List.forall₂_map_right_iff]
    exact h.imp fun _ _ hmn => hmn.text
  show joinLines (q.messages.map (·.text s)) = joinLines (r.messages.map (·.text s))
  rw [htexts]

/-! ## Responses with messages -/

/-- The conditions under which a response with messages comes back as promised. -/
structure Response.Faithful (s : Store) (r : Response) : Prop where
  ids : Apart r.messages
  /-- before a message without a role there are only such messages -/
  roles : r.messages.Pairwise fun m n => n.role = .null → m.role = .null
  items : ∀ m ∈ r.messages, ∀ c ∈ m.contents, s.isUsage c = false
  owners : r.properties = .null → ∀ m ∈ r.messages, m.properties = .null
  keys : ∀ m ∈ r.messages, keysOf s m.properties ⊆ keysOf s r.properties

/-- The properties come back if those of the messages add no keys, and no map where none was. -/
theorem equal_properties_iff (hr : r.Formed s) (hk : (s.head r.properties).keyed = true)
    (hself : s.Equal r.properties r.properties) :
    s.Equal (mergeProperties s (gathered s .null r.messages) r.properties) r.properties ↔
      (r.properties = .null → ∀ m ∈ r.messages, m.properties = .null) ∧
        ∀ m ∈ r.messages, keysOf s m.properties ⊆ keysOf s r.properties := by
  have hgathered : keysOf s (gathered s .null r.messages) ⊆ keysOf s r.properties ↔
      ∀ m ∈ r.messages, keysOf s m.properties ⊆ keysOf s r.properties := by
    constructor
    · intro h m hm k hk
      exact h (mem_keysOf_gathered.2 (Or.inr ⟨m, hm, hk⟩))
    · intro h k hk
      rcases mem_keysOf_gathered.1 hk with hk | ⟨m, hm, hk⟩
      · cases hk
      · exact h m hm hk
  rcases obeys_properties.1 hr.properties with hnull | ⟨fs, hfs, -⟩
  · have hno : ∀ m ∈ r.messages, s.entries? m.properties = none ↔ m.properties = .null := by
      intro m hm
      rcases obeys_properties.1 (hr.messages m hm).properties with he | ⟨es, hes, -⟩
      · simp [he, entries?, head]
      · have hn : m.properties ≠ .null := by
          intro he
          rw [he] at hes
          cases hes
        simp [entries?, hes, hn]
    have hmerge : mergeProperties s (gathered s .null r.messages) .null =
        gathered s .null r.messages := rfl
    rw [hnull, hmerge, equal_null_right_iff, head_gathered rfl, gathered_eq_null_iff]
    constructor
    · rintro ⟨-, h⟩
      have hall : ∀ m ∈ r.messages, m.properties = .null := fun m hm => (hno m hm).1 (h m hm)
      refine ⟨fun _ => hall, fun m hm => ?_⟩
      rw [hall m hm]
      exact List.Subset.refl _
    · rintro ⟨h, -⟩
      exact ⟨rfl, fun m hm => (hno m hm).2 (h rfl m hm)⟩
  · have hn : r.properties ≠ .null := by
      intro he
      rw [he] at hfs
      cases hfs
    rw [hfs, Value.keyed, Bool.and_eq_true, decide_eq_true_eq] at hk
    have hnodup : (keysOf s (gathered s .null r.messages)).Nodup :=
      nodup_keysOf_gathered (show (keysOf s .null).Nodup from List.nodup_nil)
    rw [equal_mergeProperties_iff hnodup hfs hk.1 hself, hgathered]
    exact ⟨fun h => ⟨fun he => absurd he hn, h⟩, And.right⟩

/-- **A response with messages comes back as promised** if and only if it is faithful. -/
theorem preserved_feedAll_iff (hr : r.Formed s) (hself : r.Equal s r)
    (hk : (s.head r.properties).keyed = true) (hn : r.messages ≠ []) :
    (feedAll s .empty r.toUpdates).Preserved s r ↔ r.Faithful s := by
  have hmself := List.forall₂_same.1 hself.messages
  have hreturned := forall₂_returned_iff (r := r) (Q := fun m => ∀ c ∈ m.contents,
    s.isUsage c = false) hr.messages (fun m hm _ h => preserved_returned_iff (r := r)
    (hmself m hm) h) .null rfl
  rw [List.pairwise_cons, List.pairwise_map] at hreturned
  have hproperties := equal_properties_iff hr hk hself.properties
  rw [feedAll_toUpdates hn]
  constructor
  · intro h
    have hm := h.messages
    have ha := apart_of_length hm.length_eq
    simp only [messages_reopened ha] at hm
    obtain ⟨⟨-, hroles⟩, hitems⟩ := hreturned.1 hm
    have hback := h.properties
    simp only [gathered_reopened] at hback
    obtain ⟨howners, hkeys⟩ := hproperties.1 hback
    exact ⟨ha, hroles, hitems, howners, hkeys⟩
  · intro h
    have hm := hreturned.2 ⟨⟨fun _ _ _ => rfl, h.roles⟩, h.items⟩
    rw [← messages_reopened h.ids] at hm
    have husage : s.Equal (addItem s (r.reopened s).usage (usageItem r.usage)) r.usage := by
      rw [usage_reopened h.items]
      exact (alike_addItem_usageItem hr.usage).equal hself.usage
    refine ⟨hm, text_of_preserved hm, husage, ?_⟩
    show s.Equal (mergeProperties s (r.reopened s).properties r.properties) r.properties
    rw [gathered_reopened]
    exact hproperties.2 ⟨h.owners, h.keys⟩

/-! ## Responses without messages -/

theorem preserved_feedAll_of_no_messages (hn : r.messages = []) :
    (feedAll s .empty r.toUpdates).Preserved s r ↔ r.usage = .null ∧ r.properties = .null := by
  cases hc : r.hasClosing with
  | false =>
    have hu : r.toUpdates = [] := by simp [toUpdates, hn, hc]
    simp only [hasClosing, Bool.or_eq_false_iff, bne_eq_false_iff_eq] at hc
    rw [hu]
    refine ⟨fun _ => ⟨hc.2, hc.1⟩, fun h => ?_⟩
    have hm : List.Forall₂ (Message.Preserved s) (feedAll s .empty []).messages r.messages := by
      rw [hn]
      exact .nil
    refine ⟨hm, text_of_preserved hm, ?_, ?_⟩
    · rw [h.1]
      exact equal_null_iff.2 rfl
    · rw [h.2]
      exact equal_null_iff.2 rfl
  | true =>
    have hu : r.toUpdates = [r.closingUpdate] := by simp [toUpdates, hn, hc]
    rw [hu]
    constructor
    · intro h
      have hm := h.messages
      rw [hn, List.forall₂_nil_right_iff] at hm
      exact absurd hm (messages_feed_ne_nil s .empty r.closingUpdate)
    · rintro ⟨husage, hproperties⟩
      rw [hasClosing, husage, hproperties] at hc
      cases hc

/-! ## Any response -/

/-- **Exactly which responses come back as promised.** A response as its constructor makes it can be
taken apart and folded again; its messages, usage and properties come back if and only if it is
faithful, or has no messages and neither usage nor properties. -/
theorem refold_preserved_iff {v : Value} (hs : s.keyed = true) (hk : v.keyed = true)
    (hv : s.formed .response v = true) :
    ∃ q, s.refold v [] false = .ok q ∧
      (q.Preserved s (s.response v) ↔
        (s.response v).messages = [] ∧ (s.response v).usage = .null ∧
            (s.response v).properties = .null ∨
          (s.response v).messages ≠ [] ∧ (s.response v).Faithful s) := by
  have hnone : ∀ u ∈ ([] : List Update), u.Formed s := fun u hm => by cases hm
  obtain ⟨hr, _, _, -, -, -, hfields⟩ := formed_response hv
  have hself := (equal_response_iff hv hv).1 (equal_refl hs hk)
  have hproperties : (s.head (s.response v).properties).keyed = true := by
    have hh := keyed_head hs hk
    rw [hfields, Value.keyed, Value.keyedAll_iff] at hh
    exact keyed_head hs (hh _ (by simp))
  have hrefold := refold_of_formed hr hnone false
  rw [List.append_nil, settled_false] at hrefold
  refine ⟨_, hrefold, ?_⟩
  by_cases hn : (s.response v).messages = []
  · rw [preserved_feedAll_of_no_messages hn]
    exact ⟨fun h => Or.inl ⟨hn, h⟩, fun h => h.elim And.right fun h => absurd hn h.1⟩
  · rw [preserved_feedAll_iff hr hself hproperties hn]
    exact ⟨fun h => Or.inr ⟨hn, h⟩, fun h => h.elim (fun h => absurd h.1 hn) And.right⟩

end

theorem refold_preserved_exchange :
    ∃ q, Store.empty.refold exchange.toValue [] false = .ok q ∧
      (q.Preserved .empty (Store.empty.response exchange.toValue) ↔
        (Store.empty.response exchange.toValue).messages = [] ∧
            (Store.empty.response exchange.toValue).usage = .null ∧
            (Store.empty.response exchange.toValue).properties = .null ∨
          (Store.empty.response exchange.toValue).messages ≠ [] ∧
            (Store.empty.response exchange.toValue).Faithful .empty) :=
  refold_preserved_iff (by decide) (by decide) (by decide)

/-- A question and its answer, without ids. -/
def inquiry : Response :=
  { Response.empty with
    messages :=
      [{ Message.opened Store.userRole with contents := [plainText "Is it open?"] },
        { Message.opened (.shared 1) with contents := [plainText "Yes."] }] }

/-- They come back as one message, in the role of the answer. -/
theorem refold_merges_inquiry :
    Store.empty.formed .response inquiry.toValue = true ∧
      ∃ q, Store.empty.refold inquiry.toValue [] false = .ok q ∧
        q.messages = [{ Message.opened (.shared 1) with
          contents := [plainText "Is it open?", plainText "Yes."] }] ∧
        ¬q.Preserved .empty inquiry := by
  refine ⟨by decide, _, rfl, by decide, fun h => ?_⟩
  have hlength := h.messages.length_eq
  exact absurd hlength (by decide)

end Reassembly
