import Reassembly.Proofs.Coalescing
import Reassembly.Proofs.Counters
import Reassembly.Proofs.Feeding

/-!
# Formed messages, updates and responses

What it means for the values of a message, an update or a response to obey their rules, field by
field, and that a fold keeps it.

* `Message.Formed`, `Update.Formed`, `Response.Formed`, and that they say what `Store.formed` says
  of the value (`formed_message`, `formed_update_iff`, `formed_response`).
* `formed_mergedItem`, `formed_joined`: merging formed items makes formed items.
* `Response.Formed.feed`, `Response.Formed.feedAll`: a fold of formed updates is formed.
* `ofUpdates_of_formed`: such a fold can always be finished, and how.
-/
namespace Reassembly

/-- The values of a message obey their rules. -/
structure Message.Formed (s : Store) (m : Message) : Prop where
  role : s.obeys (.optional (.one .role)) m.role = true
  contents : ∀ c ∈ m.contents, s.formed .content c = true
  author : s.obeys .author m.author = true
  created : s.obeys (.optional .timestamp) m.created = true
  id : s.obeys (.optional .text) m.id = true
  properties : s.obeys (.optional .properties) m.properties = true

/-- The values of an update obey their rules. -/
structure Update.Formed (s : Store) (u : Update) : Prop where
  role : s.obeys (.optional (.one .role)) u.role = true
  contents : ∀ c ∈ u.contents, s.formed .content c = true
  author : s.obeys .author u.author = true
  responseId : s.obeys (.optional .text) u.responseId = true
  messageId : s.obeys (.optional .text) u.messageId = true
  conversationId : s.obeys (.optional .text) u.conversationId = true
  created : s.obeys (.optional .timestamp) u.created = true
  finish : s.obeys (.optional (.one .finish)) u.finish = true
  model : s.obeys (.optional .text) u.model = true
  properties : s.obeys (.optional .properties) u.properties = true

/-- The values of a response obey their rules. -/
structure Response.Formed (s : Store) (r : Response) : Prop where
  messages : ∀ m ∈ r.messages, m.Formed s
  id : s.obeys (.optional .text) r.id = true
  conversationId : s.obeys (.optional .text) r.conversationId = true
  model : s.obeys (.optional .text) r.model = true
  created : s.obeys (.optional .timestamp) r.created = true
  finish : s.obeys (.optional (.one .finish)) r.finish = true
  usage : s.obeys (.optional (.one .details)) r.usage = true
  properties : s.obeys (.optional .properties) r.properties = true

section
variable {s : Store}

theorem obeys_contents {items : List Value} :
    s.obeys .contents (.list items) = true ↔ ∀ c ∈ items, s.formed .content c = true := by
  simp [Store.obeys, Rule.accepts, Store.isListOf, Store.head]

theorem isA_message {k : Kind} (h : k.isA .message = true) : k = .message := by
  cases k <;> first | rfl | cases h

theorem isA_response {k : Kind} (h : k.isA .response = true) : k = .response := by
  cases k <;> first | rfl | cases h

/-- A message that obeys its rules, with what stands in its fields. -/
theorem formed_message {v : Value} (h : s.formed .message v = true) :
    (s.message v).Formed s ∧ ∃ contents, s.head contents = .list (s.message v).contents ∧
      s.head v = .object .message [(s.message v).role, contents, (s.message v).author,
        (s.message v).created, (s.message v).id, (s.message v).raw, (s.message v).properties] := by
  obtain ⟨l, fields, hv, hl, hf⟩ := Store.formed_iff.1 h
  rw [isA_message hl] at hv hf
  simp only [Kind.fields, List.forall₂_cons_left_iff, List.forall₂_nil_left_iff] at hf
  obtain ⟨role, _, h1, ⟨contents, _, h2, ⟨author, _, h3, ⟨created, _, h4, ⟨id, _, h5, ⟨raw, _, -,
    ⟨properties, _, h7, rfl, rfl⟩, rfl⟩, rfl⟩, rfl⟩, rfl⟩, rfl⟩, rfl⟩ := hf
  obtain ⟨items, hitems, hi⟩ := Store.isListOf_iff.1 h2
  have hs : s.items contents = items := by simp [Store.items, hitems]
  have hm : s.message v = ⟨role, items, author, created, id, raw, properties⟩ := by
    simp only [Store.message, hv, hs]
  rw [hm]
  exact ⟨⟨h1, hi, h3, h4, h5, h7⟩, contents, hitems, hv⟩

theorem formed_message_iff {m : Message} : s.formed .message m.toValue = true ↔ m.Formed s := by
  constructor
  · intro h
    exact s.message_toValue m ▸ (formed_message h).1
  · intro h
    refine Store.formed_iff.2 ⟨.message, _, rfl, rfl, ?_⟩
    simp only [Kind.fields, List.forall₂_cons, List.forall₂_nil_left_iff]
    exact ⟨h.role, obeys_contents.2 h.contents, h.author, h.created, h.id, rfl, h.properties,
      trivial⟩

theorem formed_update_iff {u : Update} : s.formed .update u.toValue = true ↔ u.Formed s := by
  rw [Store.formed_iff]
  constructor
  · intro h
    obtain ⟨l, fields, hv, hl, hf⟩ := h
    cases hv
    simp only [Kind.fields, Update.values, List.forall₂_cons, List.forall₂_nil_left_iff] at hf
    obtain ⟨h1, h2, h3, h4, h5, h6, h7, h8, h9, -, h11, -⟩ := hf
    exact ⟨h1, obeys_contents.1 h2, h3, h4, h5, h6, h7, h8, h9, h11⟩
  · intro h
    refine ⟨.update, _, rfl, rfl, ?_⟩
    simp only [Kind.fields, Update.values, List.forall₂_cons, List.forall₂_nil_left_iff]
    exact ⟨h.role, obeys_contents.2 h.contents, h.author, h.responseId, h.messageId,
      h.conversationId, h.created, h.finish, h.model, rfl, h.properties, trivial⟩

/-- A response that obeys its rules, with what stands in its fields. -/
theorem formed_response {v : Value} (h : s.formed .response v = true) :
    (s.response v).Formed s ∧ ∃ messages items,
      s.head messages = .list items ∧ (∀ i ∈ items, s.formed .message i = true) ∧
      (s.response v).messages = items.map s.message ∧
      s.head v = .object .response [messages, (s.response v).id, (s.response v).conversationId,
        (s.response v).model, (s.response v).created, (s.response v).finish, (s.response v).usage,
        (s.response v).raw, (s.response v).properties] := by
  obtain ⟨l, fields, hv, hl, hf⟩ := Store.formed_iff.1 h
  rw [isA_response hl] at hv hf
  simp only [Kind.fields, List.forall₂_cons_left_iff, List.forall₂_nil_left_iff] at hf
  obtain ⟨messages, _, h1, ⟨id, _, h2, ⟨conversation, _, h3, ⟨model, _, h4, ⟨created, _, h5,
    ⟨finish, _, h6, ⟨usage, _, h7, ⟨raw, _, -, ⟨properties, _, h9, rfl, rfl⟩, rfl⟩, rfl⟩, rfl⟩,
    rfl⟩, rfl⟩, rfl⟩, rfl⟩, rfl⟩ := hf
  obtain ⟨items, hitems, hi⟩ := Store.isListOf_iff.1 h1
  have hs : s.elements messages = items := by simp [Store.elements, Store.elements?, hitems]
  have hr : s.response v =
      ⟨items.map s.message, id, conversation, model, created, finish, usage, raw, properties⟩ := by
    simp only [Store.response, hv, hs]
  have hm : ∀ m ∈ items.map s.message, m.Formed s :=
    List.forall_mem_map.2 fun i him => (formed_message (hi i him)).1
  rw [hr]
  exact ⟨⟨hm, h2, h3, h4, h5, h6, h7, h9⟩, messages, items, hitems, hi, rfl, hv⟩

theorem formed_response_toValue {r : Response} (h : r.Formed s) :
    s.formed .response r.toValue = true := by
  have hm : s.obeys .messages (.list (r.messages.map (·.toValue))) = true := by
    simp only [Store.obeys, Rule.accepts, Store.isListOf, Store.head, List.all_map,
      List.all_eq_true, Function.comp_apply, formed_message_iff]
    exact h.messages
  refine Store.formed_iff.2 ⟨.response, _, rfl, rfl, ?_⟩
  simp only [Kind.fields, List.forall₂_cons, List.forall₂_nil_left_iff]
  exact ⟨hm, h.id, h.conversationId, h.model, h.created, h.finish, h.usage, rfl, h.properties,
    trivial⟩

/-! ## Content items -/

/-- What all content items have is there, and obeys its rules. -/
theorem formed_content {v : Value} (h : s.formed .content v = true) :
    ∃ l annotations raw properties rest,
      s.head v = .object l (annotations :: raw :: properties :: rest) ∧
      s.obeys (.optional .properties) properties = true := by
  obtain ⟨l, fields, hv, hl, hf⟩ := Store.formed_iff.1 h
  have hfields : ∃ rest, l.fields = contentFields ++ rest := by
    cases l <;> first | exact ⟨_, rfl⟩ | cases hl
  obtain ⟨rest, hrest⟩ := hfields
  rw [hrest, contentFields] at hf
  simp only [List.cons_append, List.nil_append, List.forall₂_cons_left_iff] at hf
  obtain ⟨a, _, -, ⟨r, _, -, ⟨p, values, hp, -, rfl⟩, rfl⟩, rfl⟩ := hf
  exact ⟨l, a, r, p, values, hv, hp⟩

/-- A label is its text, which says something. -/
theorem formed_label {k : Kind} (hk : k.isFrozen = true) {v : Value} (h : s.formed k v = true) :
    ∃ t, s.head v = .object k [.text t] ∧ Text.isBlankText t = false := by
  obtain ⟨l, fields, hv, hl, hf⟩ := Store.formed_iff.1 h
  have hrule : k = l ∧ ∃ f, l.fields = [f] ∧ f.rule = .label := by
    cases k <;>
      first
      | exact absurd hk (by decide)
      | (cases l <;> first | exact ⟨rfl, _, rfl, rfl⟩ | cases hl)
  obtain ⟨rfl, f, hfields, hrule⟩ := hrule
  rw [hfields] at hf
  obtain ⟨x, _, hx, hnone, rfl⟩ := List.forall₂_cons_left_iff.1 hf
  obtain rfl := List.forall₂_nil_left_iff.1 hnone
  obtain ⟨t, rfl, hblank⟩ := Store.isLabel_iff.1 (hrule ▸ hx)
  exact ⟨t, hv, hblank⟩

theorem ne_null_of_formed {k : Kind} {v : Value} (h : s.formed k v = true) : v ≠ .null := by
  obtain ⟨l, fields, hv, -⟩ := Store.formed_iff.1 h
  rintro rfl
  cases hv

theorem obeys_itemProperties {v : Value} (h : s.formed .content v = true) (k : Kind) :
    s.obeys (.optional .properties) (itemProperties s k v) = true := by
  obtain ⟨l, annotations, raw, properties, rest, hv, hp⟩ := formed_content h
  cases hi : s.textItem? k v with
  | none =>
    rw [itemProperties, hi]
    rfl
  | some item =>
    have he : item.properties = properties := by
      have hitem := head_of_textItem? hi
      rw [hv] at hitem
      cases hitem
      rfl
    rw [itemProperties, hi]
    exact (congrArg (s.obeys (.optional .properties)) he).trans hp

theorem mergeable_of_formed {v : Value} (h : s.formed .content v = true) : Mergeable s v := by
  intro k
  have hp := Store.checkRule_of_obeys (construct s) (obeys_itemProperties h k)
  exact ⟨_, (Checked.within_ok_iff _ _ _).2 hp⟩

theorem formed_mergedItem {k : Kind} {v : Value} (hk : mergeKind? s v = some k)
    (h : s.formed .content v = true) (ws : List Value) :
    s.formed .content (mergedItem s k v ws) = true := by
  have hp := obeys_itemProperties h k
  rcases mergeKind?_cases hk with rfl | rfl
  · refine Store.formed_iff.2 ⟨.text, _, rfl, rfl, ?_⟩
    exact .cons rfl (.cons rfl (.cons hp (.cons rfl .nil)))
  · refine Store.formed_iff.2 ⟨.reasoning, _, rfl, rfl, ?_⟩
    exact .cons rfl (.cons rfl (.cons hp (.cons rfl .nil)))

theorem formed_joined {items : List Value} (h : ∀ c ∈ items, s.formed .content c = true) :
    ∀ c ∈ joined s items, s.formed .content c = true :=
  forall_mem_joined formed_mergedItem h

theorem isUsage_mergedItem {k : Kind} {v : Value} (hk : mergeKind? s v = some k)
    (ws : List Value) : s.isUsage (mergedItem s k v ws) = false := by
  rcases mergeKind?_cases hk with rfl | rfl <;> rfl

theorem isUsage_joined {items : List Value} (h : ∀ c ∈ items, s.isUsage c = false) :
    ∀ c ∈ joined s items, s.isUsage c = false :=
  forall_mem_joined (fun hk _ => isUsage_mergedItem hk) h

/-! ## Folds -/

theorem obeys_real {v : Value} (h : s.obeys (.optional .text) v = true) :
    s.obeys (.optional .text) (real v) = true := by
  unfold real
  split
  · rfl
  · exact h

theorem obeys_mergeProperties {old new : Value}
    (ho : s.obeys (.optional .properties) old = true)
    (hn : s.obeys (.optional .properties) new = true) :
    s.obeys (.optional .properties) (mergeProperties s old new) = true := by
  rcases Store.obeys_properties.1 hn with rfl | ⟨fs, hfs, hf⟩
  · exact ho
  · have he : ∀ e ∈ (s.entries? old).getD [], e.1.isText = true := by
      rcases Store.obeys_properties.1 ho with rfl | ⟨es, hes, he⟩
      · exact fun e hm => by cases hm
      · simpa [Store.entries?, hes] using he
    rw [mergeProperties, Store.entries?, hfs]
    exact Store.obeys_properties.2 (Or.inr ⟨_, rfl, Entries.forall_mem_merge he hf⟩)

theorem Message.Formed.opened {role : Value}
    (h : s.obeys (.optional (.one .role)) role = true) : (Message.opened role).Formed s where
  role := h
  contents := by simp [Message.opened]
  author := rfl
  created := rfl
  id := rfl
  properties := rfl

theorem Message.absorb_author_of_obeys {u : Update} (h : s.obeys .author u.author = true)
    (m : Message) : (m.absorb s u).author = newer u.author m.author := by
  change newerAuthor u.author m.author = _
  rw [newerAuthor, newer, Store.credited_of_obeys h]

theorem Message.Formed.absorb {m : Message} {u : Update} (hm : m.Formed s) (hu : u.Formed s) :
    (m.absorb s u).Formed s where
  role := Store.obeys_newer hu.role hm.role
  contents := by
    rw [Message.absorb_contents]
    intro c hc
    rcases List.mem_append.1 hc with hc | hc
    · exact hm.contents c hc
    · exact hu.contents c (List.mem_filter.1 hc).1
  author := by
    rw [Message.absorb_author_of_obeys hu.author]
    exact Store.obeys_newer hu.author hm.author
  created := Store.obeys_newer hu.created hm.created
  id := Store.obeys_newer (obeys_real hu.messageId) hm.id
  properties := hm.properties

theorem Response.Formed.empty : Response.empty.Formed s where
  messages := by simp [Response.empty]
  id := rfl
  conversationId := rfl
  model := rfl
  created := rfl
  finish := rfl
  usage := rfl
  properties := rfl

theorem Response.Formed.feed {r : Response} {u : Update} (hr : r.Formed s) (hu : u.Formed s) :
    (r.feed s u).Formed s where
  messages := by
    rcases Response.messages_feed s r u with ⟨-, -, h⟩ | ⟨ms, m, hm, -, h⟩
    · have hrole : s.obeys (.optional (.one .role)) (r.openingRole u) = true := by
        refine Store.obeys_newer hu.role ?_
        cases hl : r.messages.getLast? with
        | none => rfl
        | some last => exact (hr.messages last (List.mem_of_getLast? hl)).role
      rw [h, List.forall_mem_append]
      exact ⟨hr.messages, List.forall_mem_singleton.2 ((Message.Formed.opened hrole).absorb hu)⟩
    · have hms := hr.messages
      rw [hm, List.forall_mem_append, List.forall_mem_singleton] at hms
      rw [h, List.forall_mem_append, List.forall_mem_singleton]
      exact ⟨hms.1, hms.2.absorb hu⟩
  id := Store.obeys_newer (obeys_real hu.responseId) hr.id
  conversationId := Store.obeys_newer hu.conversationId hr.conversationId
  model := Store.obeys_newer hu.model hr.model
  created := Store.obeys_newer hu.created hr.created
  finish := Store.obeys_newer hu.finish hr.finish
  usage := obeys_addItems hr.usage hu.contents
  properties := obeys_mergeProperties hr.properties hu.properties

theorem Response.Formed.feedAll {r : Response} {us : List Update} (hr : r.Formed s)
    (hu : ∀ u ∈ us, u.Formed s) : (Response.feedAll s r us).Formed s := by
  induction us generalizing r with
  | nil => exact hr
  | cons u us ih =>
    obtain ⟨hu, hus⟩ := List.forall_mem_cons.1 hu
    exact ih (hr.feed hu) hus

end

/-! ## Finishing a fold -/

/-- The message with its items put together, if wanted. -/
def Message.settled (s : Store) (wanted : Bool) (m : Message) : Message :=
  if wanted then { m with contents := joined s m.contents } else m

/-- The response with the items of its messages put together, if wanted. -/
def Response.settled (s : Store) (wanted : Bool) (r : Response) : Response :=
  { r with messages := r.messages.map (Message.settled s wanted) }

theorem Response.settled_false (s : Store) (r : Response) : r.settled s false = r := by
  have hm : r.messages.map (Message.settled s false) = r.messages :=
    List.map_id'' (fun _ => rfl) r.messages
  rw [Response.settled, hm]

theorem coalesceMessages_of_formed {s : Store} {ms : List Message} (h : ∀ m ∈ ms, m.Formed s) :
    coalesceMessages s ms = .done (ms.map (Message.settled s true)) := by
  induction ms with
  | nil => rfl
  | cons m ms ih =>
    obtain ⟨hm, hms⟩ := List.forall_mem_cons.1 h
    have hc : coalesce s m.contents = .done (joined s m.contents) :=
      coalesce_eq_joined (fun v hv => mergeable_of_formed (hm.contents v hv))
        fun v hv => ne_null_of_formed (hm.contents v hv)
    rw [coalesceMessages, hc, ih hms]
    rfl

theorem coalesced_of_formed {s : Store} {r : Response} (h : r.Formed s) (wanted : Bool) :
    r.coalesced s wanted = .done (r.settled s wanted) := by
  cases wanted with
  | true =>
    rw [Response.coalesced, if_pos rfl, coalesceMessages_of_formed h.messages]
    rfl
  | false =>
    rw [Response.coalesced, if_neg (by decide), Response.settled_false]

/-- **A fold of formed updates** can be finished. -/
theorem ofUpdates_of_formed {s : Store} {us : List Update} (h : ∀ u ∈ us, u.Formed s)
    (wanted : Bool) : Response.ofUpdates s us wanted =
      .ok ((Response.feedAll s .empty us).settled s wanted) := by
  rw [Response.ofUpdates, coalesced_of_formed (Response.Formed.empty.feedAll h)]
  rfl

end Reassembly
