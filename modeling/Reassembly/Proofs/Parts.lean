import Reassembly.Proofs.Folded

/-!
# Where the parts of a response come from

A fold makes little that is new. The values in a response are values of the updates, but for its
counters and the map of its properties, and coalescing makes only the merged items. So whatever is
true of the values of the updates, and of these, is true of the values of the response.

* `Store.Inherits`: properties that a value hands down to its parts.
* `Message.Each`, `Update.Each`, `Response.Each`: a property of all values of a record.
* `Inherits.update`, `Inherits.message`: what is read from a value has the property of the value.
* `Response.Each.feed`, `Response.Each.settled`: one step of a fold, and its end.
-/
namespace Reassembly

open Response

/-- A property that a value hands down to its parts, and that a list or map has if they have it. -/
structure Store.Inherits (s : Store) (p : Value → Prop) : Prop where
  null : p .null
  head : ∀ {v}, p v → p (s.head v)
  list : ∀ {items}, p (.list items) ↔ ∀ i ∈ items, p i
  map : ∀ {es}, p (.map es) ↔ ∀ e ∈ es, p e.2
  object : ∀ {k fields}, p (.object k fields) → ∀ f ∈ fields, p f

structure Message.Each (p : Value → Prop) (m : Message) : Prop where
  role : p m.role
  contents : ∀ c ∈ m.contents, p c
  author : p m.author
  created : p m.created
  id : p m.id
  raw : p m.raw
  properties : p m.properties

structure Update.Each (p : Value → Prop) (u : Update) : Prop where
  role : p u.role
  contents : ∀ c ∈ u.contents, p c
  author : p u.author
  responseId : p u.responseId
  messageId : p u.messageId
  conversationId : p u.conversationId
  created : p u.created
  finish : p u.finish
  model : p u.model
  raw : p u.raw
  properties : p u.properties

structure Response.Each (p : Value → Prop) (r : Response) : Prop where
  messages : ∀ m ∈ r.messages, m.Each p
  id : p r.id
  conversationId : p r.conversationId
  model : p r.model
  created : p r.created
  finish : p r.finish
  usage : p r.usage
  raw : p r.raw
  properties : p r.properties

/-! ## What is read -/

section
variable {s : Store} {p : Value → Prop} {v : Value}

theorem Store.Inherits.entries (h : s.Inherits p) (hv : p v) {es : Entries Value}
    (he : s.entries? v = some es) : ∀ e ∈ es, p e.2 := by
  unfold Store.entries? at he
  split at he
  · next hh =>
    cases he
    exact h.map.1 (hh ▸ h.head hv)
  · cases he

theorem isA_update {k : Kind} (h : k.isA .update = true) : k = .update := by
  cases k <;> first | rfl | cases h

/-- An update that obeys its rules, with what stands in its fields. -/
theorem formed_update (h : s.formed .update v = true) :
    (s.update v).Formed s ∧ ∃ contents, s.head contents = .list (s.update v).contents ∧
      s.head v = .object .update [(s.update v).role, contents, (s.update v).author,
        (s.update v).responseId, (s.update v).messageId, (s.update v).conversationId,
        (s.update v).created, (s.update v).finish, (s.update v).model, (s.update v).raw,
        (s.update v).properties] := by
  obtain ⟨l, fields, hv, hl, hf⟩ := Store.formed_iff.1 h
  rw [isA_update hl] at hv hf
  simp only [Kind.fields, List.forall₂_cons_left_iff, List.forall₂_nil_left_iff] at hf
  obtain ⟨role, _, h1, ⟨contents, _, h2, ⟨author, _, h3, ⟨responseId, _, h4, ⟨messageId, _, h5,
    ⟨conversationId, _, h6, ⟨created, _, h7, ⟨finish, _, h8, ⟨model, _, h9, ⟨raw, _, -,
    ⟨properties, _, h11, rfl, rfl⟩, rfl⟩, rfl⟩, rfl⟩, rfl⟩, rfl⟩, rfl⟩, rfl⟩, rfl⟩, rfl⟩, rfl⟩ := hf
  obtain ⟨items, hitems, hi⟩ := Store.isListOf_iff.1 h2
  have hs : s.items contents = items := by simp [Store.items, hitems]
  have hu : s.update v = ⟨role, items, author, responseId, messageId, conversationId, created,
      finish, model, raw, properties⟩ := by
    simp only [Store.update, hv, hs]
  rw [hu]
  exact ⟨⟨h1, hi, h3, h4, h5, h6, h7, h8, h9, h11⟩, contents, hitems, hv⟩

theorem Store.Inherits.update (h : s.Inherits p) (hf : s.formed .update v = true) (hv : p v) :
    (s.update v).Each p := by
  obtain ⟨-, contents, hc, hhead⟩ := formed_update hf
  have hparts := h.object (hhead ▸ h.head hv)
  simp only [List.forall_mem_cons] at hparts
  obtain ⟨role, hcontents, author, responseId, messageId, conversationId, created, finish, model,
    raw, properties, -⟩ := hparts
  exact ⟨role, h.list.1 (hc ▸ h.head hcontents), author, responseId, messageId, conversationId,
    created, finish, model, raw, properties⟩

theorem Store.Inherits.message (h : s.Inherits p) (hf : s.formed .message v = true) (hv : p v) :
    (s.message v).Each p := by
  obtain ⟨-, contents, hc, hhead⟩ := formed_message hf
  have hparts := h.object (hhead ▸ h.head hv)
  simp only [List.forall_mem_cons] at hparts
  obtain ⟨role, hcontents, author, created, id, raw, properties, -⟩ := hparts
  exact ⟨role, h.list.1 (hc ▸ h.head hcontents), author, created, id, raw, properties⟩

theorem Store.Inherits.response (h : s.Inherits p) (hf : s.formed .response v = true) (hv : p v) :
    (s.response v).Each p := by
  obtain ⟨-, messages, items, hm, hi, hread, hhead⟩ := formed_response hf
  have hparts := h.object (hhead ▸ h.head hv)
  simp only [List.forall_mem_cons] at hparts
  obtain ⟨hmessages, id, conversationId, model, created, finish, usage, raw, properties, -⟩ :=
    hparts
  refine ⟨?_, id, conversationId, model, created, finish, usage, raw, properties⟩
  rw [hread]
  have hitems := h.list.1 (hm ▸ h.head hmessages)
  exact List.forall_mem_map.2 fun i him => h.message (hi i him) (hitems i him)

/-! ## One step -/

variable {r : Response} {u : Update} {m : Message}

theorem newer_of_both {new old : Value} (hn : p new) (ho : p old) : p (newer new old) := by
  unfold newer
  split
  · exact ho
  · exact hn

theorem newerAuthor_of_both (h0 : p .null) {new old : Value} (hn : p new) (ho : p old) :
    p (newerAuthor new old) := by
  unfold newerAuthor credited
  grind

theorem real_of_null (h0 : p .null) (hv : p v) : p (real v) := by
  unfold real
  split
  · exact h0
  · exact hv

theorem Store.Inherits.mergeProperties (h : s.Inherits p) {old new : Value} (ho : p old)
    (hn : p new) : p (mergeProperties s old new) := by
  unfold Reassembly.mergeProperties
  split
  · exact ho
  · next fs hfs =>
    refine h.map.2 (Entries.forall_mem_merge ?_ (h.entries hn hfs))
    cases he : s.entries? old with
    | none => simp
    | some es => exact h.entries ho he

theorem Message.Each.absorb (h0 : p .null) (hm : m.Each p) (hu : u.Each p) :
    (m.absorb s u).Each p where
  role := newer_of_both hu.role hm.role
  contents := by
    rw [Message.absorb_contents]
    intro c hc
    rcases List.mem_append.1 hc with hc | hc
    · exact hm.contents c hc
    · exact hu.contents c (List.mem_filter.1 hc).1
  author := newerAuthor_of_both h0 hu.author hm.author
  created := newer_of_both hu.created hm.created
  id := newer_of_both (real_of_null h0 hu.messageId) hm.id
  raw := hm.raw
  properties := hm.properties

theorem Message.Each.opened (h0 : p .null) {role : Value} (h : p role) :
    (Message.opened role).Each p :=
  ⟨h, by simp [Message.opened], h0, h0, h0, h0, h0⟩

theorem Response.Each.empty (h0 : p .null) : Response.empty.Each p :=
  ⟨by simp [Response.empty], h0, h0, h0, h0, h0, h0, h0, h0⟩

/-- **One step of a fold** needs the property of the new counters, and hands on all the rest. -/
theorem Response.Each.feed (h : s.Inherits p) (hr : r.Each p) (hu : u.Each p)
    (usage : p (r.feed s u).usage) : (r.feed s u).Each p where
  messages := by
    rcases messages_feed s r u with ⟨-, -, hnew⟩ | ⟨ms, m, hm, -, hnew⟩
    · have hrole : p (r.openingRole u) := by
        refine newer_of_both hu.role ?_
        cases hl : r.messages.getLast? with
        | none => exact h.null
        | some last => exact (hr.messages last (List.mem_of_getLast? hl)).role
      rw [hnew, List.forall_mem_append]
      exact ⟨hr.messages, List.forall_mem_singleton.2 ((Message.Each.opened h.null hrole).absorb
        h.null hu)⟩
    · have hms := hr.messages
      rw [hm, List.forall_mem_append, List.forall_mem_singleton] at hms
      rw [hnew, List.forall_mem_append, List.forall_mem_singleton]
      exact ⟨hms.1, hms.2.absorb h.null hu⟩
  id := newer_of_both (real_of_null h.null hu.responseId) hr.id
  conversationId := newer_of_both hu.conversationId hr.conversationId
  model := newer_of_both hu.model hr.model
  created := newer_of_both hu.created hr.created
  finish := newer_of_both hu.finish hr.finish
  usage := usage
  raw := hr.raw
  properties := h.mergeProperties hr.properties hu.properties

/-- **The end of a fold** needs the property of merged items. -/
theorem Response.Each.settled
    (merged : ∀ {k v}, mergeKind? s v = some k → p v → ∀ ws, p (mergedItem s k v ws))
    (hr : r.Each p) (wanted : Bool) : (r.settled s wanted).Each p where
  messages := by
    refine List.forall_mem_map.2 fun m hm => ?_
    have hmessage := hr.messages m hm
    cases wanted with
    | false => exact hmessage
    | true => exact { hmessage with contents := forall_mem_joined merged hmessage.contents }
  id := hr.id
  conversationId := hr.conversationId
  model := hr.model
  created := hr.created
  finish := hr.finish
  usage := hr.usage
  raw := hr.raw
  properties := hr.properties

end

end Reassembly
