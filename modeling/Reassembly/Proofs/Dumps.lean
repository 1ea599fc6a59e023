import Reassembly.Proofs.Restored

/-!
# What a dump keeps

Messages, updates, responses and sessions come back of their dumps with everything that was known
about them: role and finish reason as they were spelled, author, time, ids, counters and properties,
and as many messages and content items as there were, in the same order. The content items are no
longer of special kinds, so they have no text.

* `Message.restored`, `Update.restored`, `Response.restored`, `Session.restored`: what comes back,
  record by record.
* `restored_message`, `restored_update`, `restored_response`, `restored_session`: that is what
  `Value.restored` says.
* `textOf?_restored_message`, `textOf?_restored_response`: the restored texts are empty.
* `dump_keeps`: so it is with every such object of a workshop.
-/
namespace Reassembly

open Store

/-! ## Records -/

def Message.restored (m : Message) : Message :=
  { m with contents := m.contents.map (Value.restored (some .content)), raw := .null }

def Update.restored (u : Update) : Update :=
  { u with contents := u.contents.map (Value.restored (some .content)), raw := .null }

def Response.restored (r : Response) : Response :=
  { r with messages := r.messages.map Message.restored, raw := .null }

def Session.restored (c : Session) : Session :=
  { c with transcript := c.transcript.map (Value.restored (some .message)) }

section
variable {s : Store} {v : Value} {k : Kind}

/-- Labels and counters have no more special kinds and nothing to lose. -/
theorem restored_simple (hk : k = .role ∨ k = .finish ∨ k = .details)
    (h : s.obeys (.optional (.one k)) v = true) (hw : v.refs = []) : v.restored (some k) = v := by
  rcases obeys_optional.1 h with rfl | h
  · rfl
  obtain ⟨l, fields, hhead, hl, hall⟩ := formed_iff.1 h
  rw [head_of_written hw] at hhead
  subst hhead
  have hsame : l = k := by
    rcases hk with rfl | rfl | rfl <;> cases l <;> first | rfl | cases hl
  subst hsame
  have keep : ∀ fs vs, (∀ f ∈ fs, f.isRaw = false ∧ f.rule.target? = none) →
      List.Forall₂ (fun (f : Field) v => s.obeys f.rule v = true) fs vs →
      Value.restoredFields fs vs = vs := by
    intro fs vs hfs hobeys
    induction hobeys with
    | nil => simp [Value.restoredFields]
    | @cons f x fs vs _ _ ih =>
      obtain ⟨⟨hraw, htarget⟩, hrest⟩ := List.forall_mem_cons.1 hfs
      rw [Value.restoredFields, ih hrest, hraw, htarget, Value.restored_none]
      rfl
  rw [Value.restored, keep _ _ (by rcases hk with rfl | rfl | rfl <;> decide) hall]

theorem written_of_object {fields : List Value} (h : (Value.object k fields).refs = []) :
    ∀ f ∈ fields, f.refs = [] := written_of_mem h

theorem eq_list_of_head {items : List Value} (h : s.head v = .list items) (hw : v.refs = []) :
    v = .list items := by rw [← h, head_of_written hw]

theorem isListOf_of_listed {r : Rule} (hl : r.listed? = some k) {items : List Value}
    (h : s.obeys r (.list items) = true) : s.isListOf (s.formed k) (.list items) = true := by
  induction r with
  | many l =>
    cases hl
    exact h
  | contents =>
    cases hl
    exact h
  | messages =>
    cases hl
    exact h
  | optional r ih => exact ih hl ((obeys_optional.1 h).resolve_left nofun)
  | _ => cases hl

/-- The objects in a list that is a field of a whole object are whole. -/
theorem Store.Whole.listed {fields : List Value} (h : s.Whole k (.object k fields))
    (ha : k ≠ .accumulator) {f : Field} {l : Kind} (hl : f.rule.listed? = some l)
    {items : List Value} (hf : (f, .list items) ∈ k.fields.zip fields) :
    ∀ i ∈ items, s.Whole l i := by
  obtain ⟨_, _, he, -, -, hparts⟩ := h.fields ha
  cases he
  have hraw : f.isRaw = false := by
    by_contra hne
    have hf := k.raw_field f (List.of_mem_zip hf).1 (by simpa using hne)
    rw [hf] at hl
    cases hl
  have hwhole := hparts f _ hf hraw
  obtain ⟨_, he, hi⟩ := whole_items (isListOf_of_listed hl hwhole.obeys) hwhole.written
    hwhole.hasPlainProperties
  cases he
  exact hi

/-! ## What whole records are like -/

theorem whole_message (h : s.Whole .message v) : v = (s.message v).toValue ∧
    (∀ c ∈ (s.message v).contents, s.Whole .content c) ∧
    (s.message v).role.restored (some .role) = (s.message v).role := by
  obtain ⟨hf, contents, hcontents, hhead⟩ := formed_message h.formed
  rw [head_of_written h.written] at hhead
  have hparts := written_of_object (hhead ▸ h.written)
  simp only [List.forall_mem_cons] at hparts
  obtain ⟨role, hwritten, -⟩ := hparts
  rw [eq_list_of_head hcontents hwritten] at hhead
  have hcontents := (hhead ▸ h).listed (by decide) (f := contentsField) rfl (.tail _ (.head _))
  exact ⟨hhead, hcontents, restored_simple (Or.inl rfl) hf.role role⟩

theorem whole_update (h : s.Whole .update v) : v = (s.update v).toValue ∧
    (∀ c ∈ (s.update v).contents, s.Whole .content c) ∧
    (s.update v).role.restored (some .role) = (s.update v).role ∧
    (s.update v).finish.restored (some .finish) = (s.update v).finish := by
  obtain ⟨hf, contents, hcontents, hhead⟩ := formed_update h.formed
  rw [head_of_written h.written] at hhead
  have hparts := written_of_object (hhead ▸ h.written)
  simp only [List.forall_mem_cons] at hparts
  obtain ⟨role, hwritten, -, -, -, -, -, finish, -⟩ := hparts
  rw [eq_list_of_head hcontents hwritten] at hhead
  have hcontents := (hhead ▸ h).listed (by decide) (f := contentsField) rfl (.tail _ (.head _))
  exact ⟨hhead, hcontents, restored_simple (Or.inl rfl) hf.role role,
    restored_simple (Or.inr (Or.inl rfl)) hf.finish finish⟩

theorem whole_response (h : s.Whole .response v) : v = (s.response v).toValue ∧
    (∀ m ∈ (s.response v).messages, s.Whole .message m.toValue) ∧
    (s.response v).finish.restored (some .finish) = (s.response v).finish ∧
    (s.response v).usage.restored (some .details) = (s.response v).usage := by
  obtain ⟨hf, messages, items, hmessages, -, hread, hhead⟩ := formed_response h.formed
  rw [head_of_written h.written] at hhead
  have hparts := written_of_object (hhead ▸ h.written)
  simp only [List.forall_mem_cons] at hparts
  obtain ⟨hwritten, -, -, -, -, finish, usage, -⟩ := hparts
  rw [eq_list_of_head hmessages hwritten] at hhead
  have hitems := (hhead ▸ h).listed (by decide) rfl (.head _)
  have hback : (s.response v).messages.map (·.toValue) = items := by
    rw [hread, List.map_map]
    refine (List.map_congr_left fun i hi => ?_).trans (List.map_id items)
    exact (whole_message (hitems i hi)).1.symm
  rw [← hback] at hhead hitems
  exact ⟨hhead, List.forall_mem_map.1 hitems,
    restored_simple (Or.inr (Or.inl rfl)) hf.finish finish,
    restored_simple (Or.inr (Or.inr rfl)) hf.usage usage⟩

theorem whole_session (h : s.Whole .session v) : v = (s.session v).toValue ∧
    ∀ m ∈ (s.session v).transcript, s.Whole .message m := by
  obtain ⟨l, fields, hhead, hl, hall⟩ := formed_iff.1 h.formed
  have hkind : l = .session := by cases l <;> first | rfl | cases hl
  subst hkind
  rw [head_of_written h.written] at hhead
  simp only [Kind.fields, List.forall₂_cons_left_iff, List.forall₂_nil_left_iff] at hall
  obtain ⟨id, _, -, ⟨transcript, _, hlist, rfl, rfl⟩, rfl⟩ := hall
  have hparts := written_of_object (hhead ▸ h.written)
  obtain ⟨items, hitems, -⟩ := isListOf_iff.1 hlist
  obtain rfl := eq_list_of_head hitems (hparts transcript (by simp))
  subst hhead
  exact ⟨rfl, h.listed (by decide) rfl (.tail _ (.head _))⟩

/-! ## Record by record -/

theorem Message.restored_toValue {m : Message} (hrole : m.role.restored (some .role) = m.role) :
    m.toValue.restored (some .message) = m.restored.toValue := by
  simp [Value.restored, Value.restoredFields, Kind.fields, contentsField, authorField, timeField,
    textField, Field.isRaw, rawField, propertiesField, Rule.target?, Value.restored_none,
    Value.restoredAll_eq_map, Message.restored, Message.toValue, hrole]

theorem Update.restored_toValue {u : Update} (hrole : u.role.restored (some .role) = u.role)
    (hfinish : u.finish.restored (some .finish) = u.finish) :
    u.toValue.restored (some .update) = u.restored.toValue := by
  simp [Value.restored, Value.restoredFields, Kind.fields, contentsField, authorField, timeField,
    reasonField, textField, Field.isRaw, rawField, propertiesField, Rule.target?,
    Value.restored_none, Value.restoredAll_eq_map, Update.restored, Update.toValue, Update.values,
    hrole, hfinish]

theorem Response.restored_toValue {r : Response}
    (hmessages : ∀ m ∈ r.messages, m.role.restored (some .role) = m.role)
    (hfinish : r.finish.restored (some .finish) = r.finish)
    (husage : r.usage.restored (some .details) = r.usage) :
    r.toValue.restored (some .response) = r.restored.toValue := by
  have all : r.messages.map (fun m => m.toValue.restored (some .message)) =
      r.messages.map fun m => m.restored.toValue :=
    List.map_congr_left fun m hm => Message.restored_toValue (hmessages m hm)
  simp [Value.restored, Value.restoredFields, Kind.fields, timeField, reasonField, textField,
    Field.isRaw, rawField, propertiesField, Rule.target?, Value.restored_none,
    Value.restoredAll_eq_map, Response.restored, Response.toValue, hfinish, husage,
    Function.comp_def, all]

theorem Session.restored_toValue (c : Session) :
    c.toValue.restored (some .session) = c.restored.toValue := by
  simp [Value.restored, Value.restoredFields, Kind.fields, Field.isRaw, Rule.target?,
    Value.restored_none, Value.restoredAll_eq_map, Session.restored, Session.toValue]

theorem restored_message (h : s.Whole .message v) :
    v.restored (some .message) = (s.message v).restored.toValue := by
  obtain ⟨hv, -, hrole⟩ := whole_message h
  rw [← Message.restored_toValue hrole, ← hv]

theorem restored_update (h : s.Whole .update v) :
    v.restored (some .update) = (s.update v).restored.toValue := by
  obtain ⟨hv, -, hrole, hfinish⟩ := whole_update h
  rw [← Update.restored_toValue hrole hfinish, ← hv]

theorem restored_response (h : s.Whole .response v) :
    v.restored (some .response) = (s.response v).restored.toValue := by
  obtain ⟨hv, hmessages, hfinish, husage⟩ := whole_response h
  rw [← Response.restored_toValue (fun m hm => (whole_message (hmessages m hm)).2.2) hfinish husage,
    ← hv]

theorem restored_session (h : s.Whole .session v) :
    v.restored (some .session) = (s.session v).restored.toValue := by
  rw [← Session.restored_toValue, ← (whole_session h).1]

/-! ## Texts -/

theorem concatText_restored {items : List Value} (h : ∀ c ∈ items, s.Whole .content c) (t : Store) :
    concatText t (items.map (Value.restored (some .content))) = "" := by
  have base : ∀ fields, t.textItem? .text (.object .content fields) = none := by
    intro fields
    simp only [textItem?, head]
    split
    · next he =>
      cases he
      rfl
    · rfl
  have hnone : (items.map (Value.restored (some .content))).filterMap
      (fun c => (t.textItem? .text c).map (·.text)) = [] := by
    rw [List.filterMap_eq_nil_iff]
    refine List.forall_mem_map.2 fun c hc => ?_
    obtain ⟨l, fields, rfl, -⟩ := (h c hc).fields (by decide)
    rw [Value.restored, base]
    rfl
  rw [concatText, hnone]
  rfl

theorem textOf?_restored_message (h : s.Whole .message v) :
    (v.restored (some .message)).textOf? = some "" := by
  rw [restored_message h, Message.toValue, Value.textOf?]
  exact congrArg some (concatText_restored (whole_message h).2.1 .empty)

theorem textOf?_restored_update (h : s.Whole .update v) :
    (v.restored (some .update)).textOf? = some "" := by
  rw [restored_update h, Update.toValue, Update.values, Value.textOf?]
  exact congrArg some (concatText_restored (whole_update h).2.1 .empty)

theorem joinLines_lines {messages : List Value} (h : ∀ m ∈ messages, m.textOf? = some "") :
    joinLines (Value.list messages).lines = "" := by
  have hnone : (Value.textsOf messages).filter (· ≠ "") = [] := by
    induction messages with
    | nil => rfl
    | cons m ms ih =>
      obtain ⟨hm, hms⟩ := List.forall_mem_cons.1 h
      rw [Value.textsOf, hm]
      exact ih hms
  rw [Value.lines, joinLines, hnone]
  rfl

theorem textOf?_restored_messages (h : s.Whole .response v) :
    ∀ m ∈ (s.response v).restored.messages, m.toValue.textOf? = some "" := by
  refine List.forall_mem_map.2 fun m hm => ?_
  have hm := (whole_response h).2.1 m hm
  have htext := textOf?_restored_message hm
  rwa [restored_message hm, message_toValue] at htext

theorem textOf?_restored_transcript (h : s.Whole .session v) :
    ∀ m ∈ (s.session v).restored.transcript, m.textOf? = some "" :=
  List.forall_mem_map.2 fun m hm => textOf?_restored_message ((whole_session h).2 m hm)

theorem textOf?_restored_response (h : s.Whole .response v) :
    (v.restored (some .response)).textOf? = some "" := by
  rw [restored_response h, Response.toValue, Value.textOf?]
  exact congrArg some (joinLines_lines (List.forall_mem_map.2 (textOf?_restored_messages h)))

theorem textOf?_restored_session (h : s.Whole .session v) :
    (v.restored (some .session)).textOf? = some "" := by
  rw [restored_session h, Session.toValue, Value.textOf?]
  exact congrArg some (joinLines_lines (textOf?_restored_transcript h))

end

/-! ## In a workshop -/

/-- **What a dump keeps.** Take a message, an update, a response or a session as any program has
left it, with plain data in all properties. Its dump validates, and it comes back with everything
but raw representations, the kinds of content items, annotations and regions, and what only these
kinds have. What has come back is all there in its own dump, and its texts are empty. -/
theorem dump_keeps {deeds : List Deed} (ha : Workshop.start.AllowsAll deeds) {k : Kind} {v : Value}
    (hk : k ∈ [Kind.message, .update, .response, .session])
    (hv : (Workshop.start.run deeds).store.GivenAs k v)
    (hp : ((Workshop.start.run deeds).store.expand v).hasPlainProperties = true) :
    let s := (Workshop.start.run deeds).store
    let x := s.expand v
    let y := x.restored (some k)
    validate s k x.dump = .ok y ∧ validate s k y.dump = .ok y ∧ y.textOf? = some "" ∧
    (k = .message → x = (s.message x).toValue ∧ y = (s.message x).restored.toValue) ∧
    (k = .update → x = (s.update x).toValue ∧ y = (s.update x).restored.toValue) ∧
    (k = .response → x = (s.response x).toValue ∧ y = (s.response x).restored.toValue ∧
      ∀ m ∈ (s.response x).restored.messages, m.toValue.textOf? = some "") ∧
    (k = .session → x = (s.session x).toValue ∧ y = (s.session x).restored.toValue ∧
      ∀ m ∈ (s.session x).restored.transcript, m.textOf? = some "") := by
  intro s x y
  have horder : (Workshop.start.run deeds).InOrder := Workshop.inOrder_start.run ha
  have hfrozen : k.isFrozen = false := by
    revert hk
    cases k <;> decide
  have hu : k ≠ .usage := by rintro rfl; revert hk; decide
  have hacc : k ≠ .accumulator := by rintro rfl; revert hk; decide
  have hwhole : s.Whole k x :=
    ⟨horder.formed_expand hv hfrozen hacc, refs_expandTo s s.size v, hp⟩
  have hagain : validate s k y.dump = .ok (y.restored (some k)) :=
    validate_dump hu hacc (whole_restored hacc hwhole)
  rw [Value.restored_restored] at hagain
  refine ⟨validate_dump hu hacc hwhole, hagain, ?_, ?_, ?_, ?_, ?_⟩
  · simp only [List.mem_cons, List.not_mem_nil, or_false] at hk
    rcases hk with rfl | rfl | rfl | rfl
    · exact textOf?_restored_message hwhole
    · exact textOf?_restored_update hwhole
    · exact textOf?_restored_response hwhole
    · exact textOf?_restored_session hwhole
  · rintro rfl
    exact ⟨(whole_message hwhole).1, restored_message hwhole⟩
  · rintro rfl
    exact ⟨(whole_update hwhole).1, restored_update hwhole⟩
  · rintro rfl
    exact ⟨(whole_response hwhole).1, restored_response hwhole, textOf?_restored_messages hwhole⟩
  · rintro rfl
    exact ⟨(whole_session hwhole).1, restored_session hwhole, textOf?_restored_transcript hwhole⟩

/-! ## An archive -/

/-- A session, in cell 19, with a message, in cell 17, whose item has an annotation with a region.
The message was made from itself. -/
def archive : List Deed :=
  [.make .span [(.text "start_index", .int 0), (.text "end_index", .int 2)],
    .make .citation [(.text "title", .text "Atlas"), (.text "annotated_regions", .list [.shared 8]),
      (.text "raw_representation", .int 7)],
    .make .text [(.text "text", .text "Hi"), (.text "annotations", .list [.shared 10]),
      (.text "additional_properties", .map [(.text "seen", .list [.bool true, .null])])],
    .make .message [(.text "role", .text "Cartographer"), (.text "contents", .list [.shared 14]),
      (.text "author_name", .text "Ada")],
    .assign (.shared 17) "raw_representation" (.shared 17),
    .make .session [(.text "session_id", .text "s"), (.text "transcript", .list [.shared 17])]]

/-- What comes back of the message. -/
def archived : Message where
  role := .object .role [.text "Cartographer"]
  contents :=
    [.object .content [.list [.object .note [.list [.object .region []], .null, .null]], .null,
      .map [(.text "seen", .list [.bool true, .null])]]]
  author := .text "Ada"
  created := .null
  id := .null
  raw := .null
  properties := .null

theorem dump_keeps_archive :
    let s := (Workshop.start.run archive).store
    validate s .message (s.expand (.shared 17)).dump = .ok archived.toValue ∧
      validate s .message archived.toValue.dump = .ok archived.toValue ∧
      archived.toValue.textOf? = some "" ∧
      validate s .session (s.expand (.shared 19)).dump =
        .ok (Session.toValue ⟨.text "s", [archived.toValue]⟩) := by
  intro s
  have hallowed : Workshop.start.AllowsAll archive := by decide +kernel
  obtain ⟨message, again, text, -⟩ :=
    dump_keeps hallowed (k := .message) (v := .shared 17) (by decide) (by decide +kernel)
      (by decide +kernel)
  obtain ⟨session, -⟩ :=
    dump_keeps hallowed (k := .session) (v := .shared 19) (by decide) (by decide +kernel)
      (by decide +kernel)
  have hmessage : (s.expand (.shared 17)).restored (some .message) = archived.toValue := by
    decide +kernel
  have hsession : (s.expand (.shared 19)).restored (some .session) =
      Session.toValue ⟨.text "s", [archived.toValue]⟩ := by
    decide +kernel
  exact ⟨hmessage ▸ message, hmessage ▸ again, hmessage ▸ text, hsession ▸ session⟩

end Reassembly
