import Mathlib.Data.List.Chain
import Reassembly.Proofs.ByValue
import Reassembly.Proofs.Folded
import Reassembly.Proofs.Refold

/-!
# Which responses survive

A response that is taken apart and folded again loses what its updates do not carry: two messages
may run together, roles and times spread from one to others, usage items become counters, and the
properties of messages become those of the response. The conditions under which nothing is lost
are exact.

* `Message.Equal`, `Response.Equal`: equality by value, field by field.
* `Message.Recovers`: what has to hold of each message on its own, and `equal_returned_iff`: with
  the role of the message before, it is what makes the message come back.
* `Response.Recoverable`: the conditions on a response with messages, and `equal_feedAll_iff`.
* `refold_equal_iff`: a response is equal to what comes back if and only if it is recoverable, or
  has no messages and nothing else.
-/
namespace Reassembly

open Store Response

/-! ## Equality field by field -/

/-- The messages are equal by value. -/
structure Message.Equal (s : Store) (m n : Message) : Prop where
  role : s.Equal m.role n.role
  contents : List.Forall₂ s.Equal m.contents n.contents
  author : s.Equal m.author n.author
  created : s.Equal m.created n.created
  id : s.Equal m.id n.id
  raw : s.Equal m.raw n.raw
  properties : s.Equal m.properties n.properties

/-- The responses are equal by value. -/
structure Response.Equal (s : Store) (q r : Response) : Prop where
  messages : List.Forall₂ (Message.Equal s) q.messages r.messages
  id : s.Equal q.id r.id
  conversationId : s.Equal q.conversationId r.conversationId
  model : s.Equal q.model r.model
  created : s.Equal q.created r.created
  finish : s.Equal q.finish r.finish
  usage : s.Equal q.usage r.usage
  raw : s.Equal q.raw r.raw
  properties : s.Equal q.properties r.properties

section
variable {s : Store}

theorem equal_message_iff {v w : Value} (hv : s.formed .message v = true)
    (hw : s.formed .message w = true) :
    s.Equal v w ↔ (s.message v).Equal s (s.message w) := by
  obtain ⟨-, cv, hcv, hv⟩ := formed_message hv
  obtain ⟨-, cw, hcw, hw⟩ := formed_message hw
  rw [equal_object_iff rfl hv hw]
  simp only [List.forall₂_cons, List.forall₂_nil_left_iff, equal_list_iff hcv hcw]
  exact ⟨fun ⟨h1, h2, h3, h4, h5, h6, h7, _⟩ => ⟨h1, h2, h3, h4, h5, h6, h7⟩,
    fun h => ⟨h.role, h.contents, h.author, h.created, h.id, h.raw, h.properties, trivial⟩⟩

theorem equal_response_iff {v w : Value} (hv : s.formed .response v = true)
    (hw : s.formed .response w = true) :
    s.Equal v w ↔ (s.response v).Equal s (s.response w) := by
  obtain ⟨-, lv, is, hlv, his, hmv, hv⟩ := formed_response hv
  obtain ⟨-, lw, js, hlw, hjs, hmw, hw⟩ := formed_response hw
  have messages : List.Forall₂ s.Equal is js ↔
      List.Forall₂ (Message.Equal s) (s.response v).messages (s.response w).messages := by
    rw [hmv, hmw, List.forall₂_map_left_iff, List.forall₂_map_right_iff, List.forall₂_iff_zip,
      List.forall₂_iff_zip]
    refine and_congr_right fun _ => ⟨fun h i j hm => ?_, fun h i j hm => ?_⟩
    · have hij := List.of_mem_zip hm
      exact (equal_message_iff (his i hij.1) (hjs j hij.2)).1 (h hm)
    · have hij := List.of_mem_zip hm
      exact (equal_message_iff (his i hij.1) (hjs j hij.2)).2 (h hm)
  rw [equal_object_iff rfl hv hw]
  simp only [List.forall₂_cons, List.forall₂_nil_left_iff, equal_list_iff hlv hlw, messages]
  exact ⟨fun ⟨h1, h2, h3, h4, h5, h6, h7, h8, h9, _⟩ => ⟨h1, h2, h3, h4, h5, h6, h7, h8, h9⟩,
    fun h => ⟨h.messages, h.id, h.conversationId, h.model, h.created, h.finish, h.usage, h.raw,
      h.properties, trivial⟩⟩

/-! ## Null and nothing else -/

theorem head_eq_null_iff {r : Rule} {v : Value} (h : s.obeys (.optional r) v = true)
    (hr : s.obeys r v = true → s.head v ≠ .null) : s.head v = .null ↔ v = .null := by
  rcases obeys_optional.1 h with rfl | h
  · exact ⟨fun _ => rfl, fun _ => rfl⟩
  · refine ⟨fun hn => absurd hn (hr h), ?_⟩
    rintro rfl
    exact absurd rfl (hr h)

theorem head_text_iff {v : Value} (h : s.obeys (.optional .text) v = true) :
    s.head v = .null ↔ v = .null := by
  refine head_eq_null_iff h fun ht => ?_
  obtain ⟨t, rfl⟩ := obeys_text.1 ht
  exact fun hn => by cases hn

theorem head_timestamp_iff {v : Value} (h : s.obeys (.optional .timestamp) v = true) :
    s.head v = .null ↔ v = .null := by
  refine head_eq_null_iff h fun ht => ?_
  obtain ⟨t, ht⟩ := isTimestamp_iff.1 ht
  rw [ht]
  exact fun hn => by cases hn

theorem head_one_iff {k : Kind} {v : Value} (h : s.obeys (.optional (.one k)) v = true) :
    s.head v = .null ↔ v = .null := by
  refine head_eq_null_iff h fun ho => ?_
  obtain ⟨l, fields, hv, -⟩ := formed_iff.1 ho
  rw [hv]
  exact fun hn => by cases hn

theorem head_properties_iff {v : Value} (h : s.obeys (.optional .properties) v = true) :
    s.head v = .null ↔ v = .null := by
  refine head_eq_null_iff h fun hp => ?_
  rcases obeys_properties.1 h with rfl | ⟨es, hes, -⟩
  · cases hp
  · rw [hes]
    exact fun hn => by cases hn

theorem equal_real_iff {v : Value} (h : s.obeys (.optional .text) v = true) (hv : s.Equal v v) :
    s.Equal (real v) v ↔ v ≠ .text "" := by
  unfold real
  split
  · next hempty =>
    rw [equal_null_iff, head_text_iff h, hempty]
    simp
  · next hne => exact ⟨fun _ => hne, fun _ => hv⟩

/-! ## One message -/

/-- What has to hold of a message for it to come back. -/
structure Message.Recovers (s : Store) (r : Response) (m : Message) : Prop where
  items : ∀ c ∈ m.contents, s.isUsage c = false
  created : m.created = .null → r.created = .null
  id : m.id ≠ .text ""
  raw : s.head m.raw = .null
  properties : m.properties = .null

theorem equal_newer_iff {new old : Value} (hnew : s.Equal new new)
    (hold : s.head old = .null ↔ old = .null) :
    s.Equal (newer new old) new ↔ (new = .null → old = .null) := by
  by_cases hn : new = .null
  · rw [hn, newer_null_left, equal_null_right_iff, hold]
    simp
  · rw [newer_of_ne _ hn]
    exact ⟨fun _ h => absurd h hn, fun _ => hnew⟩

theorem equal_filter_iff {items : List Value} (h : List.Forall₂ s.Equal items items) :
    List.Forall₂ s.Equal (items.filter fun c => !s.isUsage c) items ↔
      ∀ c ∈ items, s.isUsage c = false := by
  constructor
  · intro hf c hc
    have hall := List.length_filter_eq_length_iff.1 hf.length_eq
    simpa using hall c hc
  · intro hn
    rw [filter_of_not_usage hn]
    exact h

theorem equal_returned_iff {r : Response} {role : Value} {m : Message} (hm : m.Formed s)
    (hself : m.Equal s m) (hr : s.obeys (.optional .timestamp) r.created = true)
    (hrole : s.obeys (.optional (.one .role)) role = true) :
    (m.returned s r role).Equal s m ↔ (m.role = .null → role = .null) ∧ m.Recovers s r := by
  have h1 := equal_newer_iff hself.role (head_one_iff hrole)
  have h2 := equal_filter_iff hself.contents
  have h4 := equal_newer_iff hself.created (head_timestamp_iff hr)
  have h5 := equal_real_iff hm.id hself.id
  have h7 : s.Equal .null m.properties ↔ m.properties = .null :=
    equal_null_iff.trans (head_properties_iff hm.properties)
  constructor
  · intro h
    exact ⟨h1.1 h.role, h2.1 h.contents, h4.1 h.created, h5.1 h.id, equal_null_iff.1 h.raw,
      h7.1 h.properties⟩
  · intro h
    obtain ⟨hr, h⟩ := h
    have hauthor : s.Equal (credited m.author) m.author :=
      (credited_of_obeys hm.author).symm ▸ hself.author
    exact ⟨h1.2 hr, h2.2 h.items, hauthor, h4.2 h.created, h5.2 h.id, equal_null_iff.2 h.raw,
      h7.2 h.properties⟩

/-! ## All messages -/

/-- The messages that come back, compared with those that there were: if one message passes unless
it takes a role from the one before, all of them pass unless one does. -/
theorem forall₂_returned_iff {P : Message → Message → Prop} {Q : Message → Prop} {r : Response}
    {ms : List Message} (hf : ∀ m ∈ ms, m.Formed s)
    (hone : ∀ m ∈ ms, ∀ role, s.obeys (.optional (.one .role)) role = true →
      (P (m.returned s r role) m ↔ (m.role = .null → role = .null) ∧ Q m))
    (role : Value) (hrole : s.obeys (.optional (.one .role)) role = true) :
    List.Forall₂ P (returned s r role ms) ms ↔
      (role :: ms.map (·.role)).Pairwise (fun x y => y = .null → x = .null) ∧ ∀ m ∈ ms, Q m := by
  induction ms generalizing role with
  | nil => simp [returned]
  | cons m ms ih =>
    obtain ⟨hm, hms⟩ := List.forall_mem_cons.1 hf
    obtain ⟨hfirst, hone⟩ := List.forall_mem_cons.1 hone
    rw [returned, List.forall₂_cons, hfirst role hrole,
      ih hms hone _ (obeys_newer hm.role hrole), List.map_cons, List.pairwise_cons,
      List.pairwise_cons, List.pairwise_cons, List.forall_mem_cons, List.forall_mem_cons]
    simp only [newer_eq_null]
    constructor
    · intro h
      obtain ⟨⟨hfirst, hrec⟩, ⟨hcarried, hrest⟩, hrecs⟩ := h
      exact ⟨⟨⟨hfirst, fun x hx hn => (hcarried x hx hn).2⟩,
        fun x hx hn => (hcarried x hx hn).1, hrest⟩, hrec, hrecs⟩
    · intro h
      obtain ⟨⟨⟨hfirst, hcarried⟩, hnext, hrest⟩, hrec, hrecs⟩ := h
      exact ⟨⟨hfirst, hrec⟩, ⟨fun x hx hn => ⟨hnext x hx hn, hcarried x hx hn⟩, hrest⟩, hrecs⟩

theorem forall₂_equal_returned_iff {r : Response}
    (hr : s.obeys (.optional .timestamp) r.created = true) {ms : List Message}
    (hf : ∀ m ∈ ms, m.Formed s) (hself : ∀ m ∈ ms, m.Equal s m) (role : Value)
    (hrole : s.obeys (.optional (.one .role)) role = true) :
    List.Forall₂ (Message.Equal s) (returned s r role ms) ms ↔
      (role :: ms.map (·.role)).Pairwise (fun x y => y = .null → x = .null) ∧
        ∀ m ∈ ms, m.Recovers s r :=
  forall₂_returned_iff hf (fun m hm _ h => equal_returned_iff (hf m hm) (hself m hm) hr h) role
    hrole

/-- Neighbours that stay apart, in a chain of at least two. -/
theorem chain_parted_iff (i j : Value) (is : List Value) :
    (i :: j :: is).IsChain Parted ↔
      (∀ k ∈ i :: j :: is, k ≠ .null) ∧ (i :: j :: is).IsChain (· ≠ ·) := by
  induction is generalizing i j with
  | nil =>
    simp only [List.isChain_cons_cons, List.IsChain.singleton, and_true, List.forall_mem_cons,
      Parted]
    exact ⟨fun ⟨h1, h2, h3⟩ => ⟨⟨h1, h2, fun _ h => by cases h⟩, Ne.symm h3⟩,
      fun ⟨⟨h1, h2, _⟩, h3⟩ => ⟨h1, h2, Ne.symm h3⟩⟩
  | cons k is ih =>
    rw [List.isChain_cons_cons, ih]
    constructor
    · intro h
      obtain ⟨hij, hall, hchain⟩ := h
      exact ⟨List.forall_mem_cons.2 ⟨hij.1, hall⟩, .cons_cons (Ne.symm hij.2.2) hchain⟩
    · intro h
      obtain ⟨hall, hchain⟩ := h
      obtain ⟨hi, hall⟩ := List.forall_mem_cons.1 hall
      obtain ⟨hij, hchain⟩ := List.isChain_cons_cons.1 hchain
      exact ⟨⟨hi, hall j List.mem_cons_self, Ne.symm hij⟩, hall, hchain⟩

end

/-! ## The conditions -/

/-- The ids that keep messages from running together, and that are not lost themselves. -/
structure DistinctIds (ms : List Message) : Prop where
  single : ∀ m, ms = [m] → m.id ≠ .text ""
  several : 1 < ms.length → (∀ m ∈ ms, m.id ≠ .null ∧ m.id ≠ .text "") ∧
    ms.IsChain fun m n => m.id ≠ n.id

theorem distinctIds_iff {ms : List Message} :
    DistinctIds ms ↔ Apart ms ∧ ∀ m ∈ ms, m.id ≠ .text "" := by
  have real_of_ne : ∀ {m : Message}, m.id ≠ .text "" → real m.id = m.id := fun h => if_neg h
  match ms with
  | [] => exact ⟨fun _ => ⟨.nil, fun m hm => by cases hm⟩, fun _ => ⟨by simp, by simp⟩⟩
  | [m] =>
    refine ⟨fun h => ⟨.singleton _, ?_⟩, fun h => ⟨?_, by simp⟩⟩
    · exact List.forall_mem_singleton.2 (h.single m rfl)
    · rintro n hn
      obtain rfl := List.singleton_inj.1 hn
      exact h.2 m List.mem_cons_self
  | m :: n :: ms =>
    have chain : (∀ k ∈ m :: n :: ms, k.id ≠ .text "") →
        (Apart (m :: n :: ms) ↔ (∀ k ∈ m :: n :: ms, k.id ≠ .null) ∧
          (m :: n :: ms).IsChain fun m n => m.id ≠ n.id) := by
      intro h
      have hmap : (m :: n :: ms).map (fun m => real m.id) = (m :: n :: ms).map (·.id) :=
        List.map_congr_left fun k hk => real_of_ne (h k hk)
      have hiff := chain_parted_iff m.id n.id (ms.map (·.id))
      rw [← List.map_cons, ← List.map_cons, List.forall_mem_map, List.isChain_map (R := (· ≠ ·))]
        at hiff
      rw [Apart, hmap, hiff]
    constructor
    · intro h
      obtain ⟨hids, hchain⟩ := h.several (by simp)
      have hne := fun k hk => (hids k hk).2
      exact ⟨(chain hne).2 ⟨fun k hk => (hids k hk).1, hchain⟩, hne⟩
    · intro h
      obtain ⟨ha, hne⟩ := h
      obtain ⟨hnull, hchain⟩ := (chain hne).1 ha
      refine ⟨fun k hk => by simp at hk, fun _ => ⟨fun k hk => ⟨hnull k hk, hne k hk⟩, hchain⟩⟩

/-- All messages and the response have a time, and the last message that of the response; or none of
them has one. -/
def OneTime (s : Store) (r : Response) : Prop :=
  (r.created = .null ∧ ∀ m ∈ r.messages, m.created = .null) ∨
    (r.created ≠ .null ∧ (∀ m ∈ r.messages, m.created ≠ .null) ∧
      ∀ m ∈ r.messages.getLast?, s.Equal m.created r.created)

/-- The conditions under which a response with messages comes back. -/
structure Response.Recoverable (s : Store) (r : Response) : Prop where
  ids : DistinctIds r.messages
  /-- before a message without a role there are only such messages -/
  roles : r.messages.Pairwise fun m n => n.role = .null → m.role = .null
  created : OneTime s r
  items : ∀ m ∈ r.messages, ∀ c ∈ m.contents, s.isUsage c = false
  properties : ∀ m ∈ r.messages, m.properties = .null
  raw_of_message : ∀ m ∈ r.messages, s.head m.raw = .null
  raw : s.head r.raw = .null
  id : r.id ≠ .text ""

/-- The response has no messages, and nothing else. -/
structure Response.Nothing (s : Store) (r : Response) : Prop where
  messages : r.messages = []
  id : r.id = .null
  conversationId : r.conversationId = .null
  model : r.model = .null
  created : r.created = .null
  finish : r.finish = .null
  usage : r.usage = .null
  raw : s.head r.raw = .null
  properties : r.properties = .null

section
variable {s : Store}

/-! ## A response without messages -/

theorem equal_empty_iff {r : Response} (hr : r.Formed s) :
    Response.empty.Equal s r ↔ r.Nothing s := by
  have hid := equal_null_iff.trans (head_text_iff hr.id)
  have hconversation := equal_null_iff.trans (head_text_iff hr.conversationId)
  have hmodel := equal_null_iff.trans (head_text_iff hr.model)
  have hcreated := equal_null_iff.trans (head_timestamp_iff hr.created)
  have hfinish := equal_null_iff.trans (head_one_iff hr.finish)
  have husage := equal_null_iff.trans (head_one_iff hr.usage)
  have hproperties := equal_null_iff.trans (head_properties_iff hr.properties)
  constructor
  · intro h
    exact ⟨List.forall₂_nil_left_iff.1 h.messages, hid.1 h.id, hconversation.1 h.conversationId,
      hmodel.1 h.model, hcreated.1 h.created, hfinish.1 h.finish, husage.1 h.usage,
      equal_null_iff.1 h.raw, hproperties.1 h.properties⟩
  · intro h
    exact ⟨by rw [h.messages]; exact .nil, hid.2 h.id, hconversation.2 h.conversationId,
      hmodel.2 h.model, hcreated.2 h.created, hfinish.2 h.finish, husage.2 h.usage,
      equal_null_iff.2 h.raw, hproperties.2 h.properties⟩

theorem equal_feedAll_of_no_messages {r : Response} (hr : r.Formed s) (hn : r.messages = []) :
    (feedAll s .empty r.toUpdates).Equal s r ↔ r.Nothing s := by
  cases hc : r.hasClosing with
  | false =>
    have hu : r.toUpdates = [] := by simp [toUpdates, hn, hc]
    rw [hu]
    exact equal_empty_iff hr
  | true =>
    have hu : r.toUpdates = [r.closingUpdate] := by simp [toUpdates, hn, hc]
    rw [hu]
    constructor
    · intro h
      have hm := h.messages
      rw [hn, List.forall₂_nil_right_iff] at hm
      exact absurd hm (messages_feed_ne_nil s .empty r.closingUpdate)
    · intro h
      rw [hasClosing, h.properties, h.usage] at hc
      cases hc

/-! ## A response with messages -/

theorem latest_mem (vs : List Value) : latest vs = .null ∨ latest vs ∈ vs := by
  induction vs using List.reverseRecOn with
  | nil => exact Or.inl rfl
  | append_singleton vs v ih =>
    rw [latest_append_singleton]
    by_cases hv : v = .null
    · rw [hv, newer_null_left]
      exact ih.imp_right (List.mem_append_left _)
    · rw [newer_of_ne _ hv]
      exact Or.inr (by simp)

/-- The time comes back if there is one for all or none at all. -/
theorem equal_created_iff {r : Response} (hr : r.Formed s) (hn : r.messages ≠ [])
    (hm : ∀ m ∈ r.messages, m.created = .null → r.created = .null) :
    s.Equal (latest (r.messages.map fun m => newer m.created r.created)) r.created ↔
      OneTime s r := by
  obtain ⟨ms, last, hlast⟩ : ∃ ms last, r.messages = ms ++ [last] := by
    rcases List.eq_nil_or_concat r.messages with h | ⟨ms, last, h⟩
    · exact absurd h hn
    · exact ⟨ms, last, by rw [h, List.concat_eq_append]⟩
  by_cases hc : r.created = .null
  · have hobeys : s.obeys (.optional .timestamp) (latest (r.messages.map (·.created))) = true := by
      rcases latest_mem (r.messages.map (·.created)) with h | h
      · rw [h]
        rfl
      · obtain ⟨m, hm, he⟩ := List.mem_map.1 h
        rw [← he]
        exact (hr.messages m hm).created
    simp only [OneTime, hc, newer_null_right, equal_null_right_iff, head_timestamp_iff hobeys,
      latest_eq_null_iff, List.forall_mem_map]
    exact ⟨fun h => Or.inl ⟨trivial, h⟩, fun h => h.elim And.right fun h => absurd rfl h.1⟩
  · have hall : ∀ m ∈ r.messages, m.created ≠ .null := fun m hmem h => hc (hm m hmem h)
    have htime : latest (r.messages.map fun m => newer m.created r.created) = last.created := by
      have hne := hall last (by simp [hlast])
      rw [hlast, List.map_append, List.map_singleton, latest_append_singleton, newer_of_ne _ hne,
        newer_of_ne _ hne]
    rw [htime]
    constructor
    · intro h
      refine Or.inr ⟨hc, hall, fun m hm => ?_⟩
      rw [hlast, List.getLast?_concat, Option.mem_some_iff] at hm
      rw [← hm]
      exact h
    · rintro (h | h)
      · exact absurd h.1 hc
      · exact h.2.2 last (by rw [hlast, List.getLast?_concat]; rfl)

theorem equal_mergeProperties_null {properties : Value}
    (ho : s.obeys (.optional .properties) properties = true)
    (hk : (s.head properties).keyed = true) (hself : s.Equal properties properties) :
    s.Equal (mergeProperties s .null properties) properties := by
  rcases obeys_properties.1 ho with rfl | ⟨es, hes, -⟩
  · exact equal_null_iff.2 rfl
  · rw [hes, Value.keyed, Bool.and_eq_true, decide_eq_true_eq] at hk
    have hentries : s.entries? properties = some es := by simp [entries?, hes]
    have hmerge : mergeProperties s .null properties = .map es := by
      rw [mergeProperties, hentries]
      exact congrArg Value.map (Entries.merge_nil hk.1)
    rw [hmerge]
    exact (alike_of_head (v := .map es) hes.symm).equal hself

theorem OneTime.null {r : Response} (h : OneTime s r) :
    ∀ m ∈ r.messages, m.created = .null → r.created = .null := by
  intro m hm hn
  rcases h with h | h
  · exact h.1
  · exact absurd hn (h.2.1 m hm)

/-- **A response with messages comes back** if and only if it is recoverable. -/
theorem equal_feedAll_iff {r : Response} (hr : r.Formed s) (hself : r.Equal s r)
    (hk : (s.head r.properties).keyed = true) (hn : r.messages ≠ []) :
    (feedAll s .empty r.toUpdates).Equal s r ↔ r.Recoverable s := by
  obtain ⟨hid, hconversation, hmodel, hfinish, hraw, hcreated⟩ := fields_reopened (s := s) hn
  have hreturned := forall₂_equal_returned_iff hr.created hr.messages
    (List.forall₂_same.1 hself.messages) .null rfl
  rw [List.pairwise_cons, List.pairwise_map] at hreturned
  rw [feedAll_toUpdates hn]
  constructor
  · intro h
    have hm := h.messages
    have ha := apart_of_length hm.length_eq
    simp only [messages_reopened ha] at hm
    obtain ⟨⟨-, hroles⟩, hrec⟩ := hreturned.1 hm
    have htime := h.created
    have hrawback := h.raw
    have hidback := h.id
    simp only [hcreated, hraw, hid] at htime hrawback hidback
    exact
      { ids := distinctIds_iff.2 ⟨ha, fun m hm => (hrec m hm).id⟩
        roles := hroles
        created := (equal_created_iff hr hn fun m hm => (hrec m hm).created).1 htime
        items := fun m hm => (hrec m hm).items
        properties := fun m hm => (hrec m hm).properties
        raw_of_message := fun m hm => (hrec m hm).raw
        raw := equal_null_iff.1 hrawback
        id := (equal_real_iff hr.id hself.id).1 hidback }
  · intro h
    obtain ⟨ha, hids⟩ := distinctIds_iff.1 h.ids
    have hrec : ∀ m ∈ r.messages, m.Recovers s r := fun m hm =>
      ⟨h.items m hm, h.created.null m hm, hids m hm, h.raw_of_message m hm, h.properties m hm⟩
    have hm := hreturned.2 ⟨⟨fun _ _ _ => rfl, h.roles⟩, hrec⟩
    have husage : s.Equal (addItem s (r.reopened s).usage (usageItem r.usage)) r.usage := by
      rw [usage_reopened h.items]
      exact (alike_addItem_usageItem hr.usage).equal hself.usage
    have hproperties : s.Equal (mergeProperties s (r.reopened s).properties r.properties)
        r.properties := by
      rw [properties_reopened h.properties]
      exact equal_mergeProperties_null hr.properties hk hself.properties
    exact
      { messages := by simpa only [messages_reopened ha] using hm
        id := by simpa only [hid] using (equal_real_iff hr.id hself.id).2 h.id
        conversationId := by simpa only [hconversation] using hself.conversationId
        model := by simpa only [hmodel] using hself.model
        created := by
          simpa only [hcreated] using (equal_created_iff hr hn h.created.null).2 h.created
        finish := by simpa only [hfinish] using hself.finish
        usage := husage
        raw := by simpa only [hraw] using equal_null_iff.2 h.raw
        properties := hproperties }

/-! ## Any response -/

/-- **Exactly which responses survive.** A response as its constructor makes it can be taken apart
and folded again, and what comes back is equal to it if and only if it is recoverable, or has no
messages and nothing else. -/
theorem refold_equal_iff {v : Value} (hs : s.keyed = true) (hk : v.keyed = true)
    (hv : s.formed .response v = true) :
    ∃ q, s.refold v [] false = .ok q ∧
      (s.Equal q.toValue v ↔ (s.response v).Nothing s ∨
        (s.response v).messages ≠ [] ∧ (s.response v).Recoverable s) := by
  have hnone : ∀ u ∈ ([] : List Update), u.Formed s := fun u hm => by cases hm
  obtain ⟨hr, _, _, -, -, -, hfields⟩ := formed_response hv
  have hself := (equal_response_iff hv hv).1 (equal_refl hs hk)
  have hproperties : (s.head (s.response v).properties).keyed = true := by
    have hh := keyed_head hs hk
    rw [hfields, Value.keyed, Value.keyedAll_iff] at hh
    exact keyed_head hs (hh _ (by simp))
  have hq := formed_response_toValue (Response.Formed.empty.feedAll hr.toUpdates)
  have hrefold := refold_of_formed hr hnone false
  rw [List.append_nil, settled_false] at hrefold
  refine ⟨_, hrefold, ?_⟩
  rw [equal_response_iff hq hv, response_toValue]
  by_cases hn : (s.response v).messages = []
  · rw [equal_feedAll_of_no_messages hr hn]
    exact ⟨Or.inl, fun h => h.elim id fun h => absurd hn h.1⟩
  · rw [equal_feedAll_iff hr hself hproperties hn]
    exact ⟨fun h => Or.inr ⟨hn, h⟩, fun h => h.elim (fun h => absurd h.messages hn) And.right⟩

end

/-- A question and its answer, at one time. -/
def exchange : Response where
  messages :=
    [{ Message.opened Store.userRole with
        contents := [plainText "Who?"], id := .text "a", created := .time ⟨20000, 0, 0, none⟩ },
      { Message.opened Store.userRole with
        contents := [plainText "Me."], id := .text "b", created := .time ⟨20000, 0, 0, none⟩ }]
  id := .text "r"
  conversationId := .null
  model := .null
  created := .time ⟨20000, 0, 0, none⟩
  finish := .null
  usage := noDetails
  raw := .null
  properties := .map []

theorem refold_exchange :
    ∃ q, Store.empty.refold exchange.toValue [] false = .ok q ∧
      (Store.empty.Equal q.toValue exchange.toValue ↔
        (Store.empty.response exchange.toValue).Nothing .empty ∨
          (Store.empty.response exchange.toValue).messages ≠ [] ∧
            (Store.empty.response exchange.toValue).Recoverable .empty) :=
  refold_equal_iff (by decide) (by decide) (by decide)

end Reassembly
