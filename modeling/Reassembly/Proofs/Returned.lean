import Reassembly.Proofs.Counters
import Reassembly.Proofs.Feeding
import Reassembly.Response.Basic

/-!
# What comes back of a response

The updates that a response comes apart into, folded into a new response. As many messages come
back as there were if each of them has an id of its own next to its neighbours; otherwise some run
together and there are fewer. A message that comes back has taken its role from the one before if
it had none, and its time from the response.

* `latest`, `feedAll_field`: the fields that the newest value wins.
* `Apart`, `returned`: neighbours that stay apart, and the messages that come back then.
* `messages_reopened`, `apart_of_length`: they come back if and only if their number does.
* `feedAll_toUpdates`: what the closing update adds.
-/
namespace Reassembly

open Store Response

/-! ## Fields that the newest value wins -/

/-- The last of the values that is not null. -/
def latest (vs : List Value) : Value := vs.foldl (fun old new => newer new old) .null

theorem latest_append_singleton (vs : List Value) (v : Value) :
    latest (vs ++ [v]) = newer v (latest vs) := by
  simp [latest]

theorem latest_eq_null_iff {vs : List Value} : latest vs = .null ↔ ∀ v ∈ vs, v = .null := by
  induction vs using List.reverseRecOn with
  | nil => simp [latest]
  | append_singleton vs v ih =>
    rw [latest_append_singleton, newer_eq_null, ih, List.forall_mem_append,
      List.forall_mem_singleton, and_comm]

theorem latest_of_forall_eq {vs : List Value} {v : Value} (h : ∀ w ∈ vs, w = v) (hn : vs ≠ []) :
    latest vs = v := by
  rcases List.eq_nil_or_concat vs with rfl | ⟨ws, w, rfl⟩
  · exact absurd rfl hn
  · rw [List.concat_eq_append] at h ⊢
    have hw : w = v := h w (by simp)
    by_cases hv : v = .null
    · rw [hv] at h ⊢
      exact latest_eq_null_iff.2 h
    · rw [latest_append_singleton, hw, newer_of_ne _ hv]

section
variable {s : Store}

theorem feedAll_field (f : Response → Value) (g : Update → Value)
    (hf : ∀ r u, f (r.feed s u) = newer (g u) (f r)) (h0 : f .empty = .null) (us : List Update) :
    f (feedAll s .empty us) = latest (us.map g) := by
  induction us using List.reverseRecOn with
  | nil => exact h0
  | append_singleton us u ih =>
    rw [feedAll_append_singleton, hf, ih, List.map_append, List.map_singleton,
      latest_append_singleton]

theorem feedAll_constant (f : Response → Value) (g : Update → Value)
    (hf : ∀ r u, f (r.feed s u) = newer (g u) (f r)) (h0 : f .empty = .null) {us : List Update}
    {v : Value} (hg : ∀ u ∈ us, g u = v) (hn : us ≠ []) : f (feedAll s .empty us) = v := by
  rw [feedAll_field f g hf h0]
  refine latest_of_forall_eq (fun w hw => ?_) (by simpa using hn)
  obtain ⟨u, hu, rfl⟩ := List.mem_map.1 hw
  exact hg u hu

theorem feedAll_raw (r : Response) (us : List Update) : (feedAll s r us).raw = r.raw := by
  induction us generalizing r with
  | nil => rfl
  | cons u us ih => exact ih (r.feed s u)

theorem feedAll_usage {us : List Update} (h : ∀ u ∈ us, ∀ c ∈ u.contents, s.isUsage c = false)
    (r : Response) : (feedAll s r us).usage = r.usage := by
  induction us generalizing r with
  | nil => rfl
  | cons u us ih =>
    obtain ⟨hu, hus⟩ := List.forall_mem_cons.1 h
    exact (ih hus (r.feed s u)).trans (addItems_of_not_usage hu r.usage)

theorem feedAll_properties_eq (r : Response) (us : List Update) :
    (feedAll s r us).properties =
      us.foldl (fun p u => mergeProperties s p u.properties) r.properties := by
  induction us generalizing r with
  | nil => rfl
  | cons u us ih => exact ih (r.feed s u)

theorem feedAll_properties {us : List Update} (h : ∀ u ∈ us, u.properties = .null)
    (r : Response) : (feedAll s r us).properties = r.properties := by
  induction us generalizing r with
  | nil => rfl
  | cons u us ih =>
    obtain ⟨hu, hus⟩ := List.forall_mem_cons.1 h
    refine (ih hus (r.feed s u)).trans ?_
    simp only [Response.feed, hu]
    rfl

theorem length_feedAll_le (r : Response) (us : List Update) :
    (feedAll s r us).messages.length ≤ r.messages.length + us.length := by
  induction us generalizing r with
  | nil => exact Nat.le_refl _
  | cons u us ih =>
    have ih := ih (r.feed s u)
    have hu := messages_length_feed s r u
    have hle : (if r.opens u then 1 else 0) ≤ 1 := by split <;> omega
    simp only [feedAll, List.foldl_cons, List.length_cons] at ih ⊢
    omega

/-! ## Messages that stay apart -/

/-- The ids keep two neighbours from running together. -/
def Parted (i j : Value) : Prop := i ≠ .null ∧ j ≠ .null ∧ j ≠ i

/-- No two neighbours run together. -/
def Apart (ms : List Message) : Prop := (ms.map fun m => real m.id).IsChain Parted

/-- The message as it comes back after one of the given role. -/
def Message.returned (s : Store) (r : Response) (role : Value) (m : Message) : Message where
  role := newer m.role role
  contents := m.contents.filter fun c => !s.isUsage c
  author := credited m.author
  created := newer m.created r.created
  id := real m.id
  raw := .null
  properties := .null

/-- The messages as they come back after one of the given role, if they stay apart. -/
def returned (s : Store) (r : Response) : Value → List Message → List Message
  | _, [] => []
  | role, m :: ms => m.returned s r role :: returned s r (newer m.role role) ms

theorem opened_absorb (s : Store) (r : Response) (role : Value) (m : Message) :
    (Message.opened (newer m.role role)).absorb s (r.messageUpdate m) = m.returned s r role := by
  have hrole : newer m.role (newer m.role role) = newer m.role role := by
    by_cases h : m.role = .null <;> simp [newer, h]
  simp only [Message.absorb, Message.opened, messageUpdate, Message.returned, hrole,
    newerAuthor_null_right, newer_null_right, List.nil_append]

theorem differs_messageUpdate {last : Message} (r : Response) (m : Message) :
    last.differs (r.messageUpdate m) = true ↔ Parted last.id (real m.id) := by
  rw [Message.differs_iff]
  exact ⟨fun ⟨h1, h2, h3⟩ => ⟨h2, h1, h3⟩, fun ⟨h1, h2, h3⟩ => ⟨h2, h1, h3⟩⟩

theorem openingRole_of_last {q : Response} {before : List Message} {last : Message}
    (h : q.messages = before ++ [last]) (u : Update) :
    q.openingRole u = newer u.role last.role := by
  simp [openingRole, h]

/-- Behind a message that is there, the messages come back one by one. -/
theorem messages_reopened_after (s : Store) (r : Response) {q : Response} {before : List Message}
    {last : Message} (hq : q.messages = before ++ [last]) {ms : List Message}
    (h : (last.id :: ms.map fun m => real m.id).IsChain Parted) :
    (feedAll s q (ms.map r.messageUpdate)).messages = q.messages ++ returned s r last.role ms := by
  induction ms generalizing q before last with
  | nil => simp [feedAll, returned]
  | cons m ms ih =>
    rw [List.map_cons, List.isChain_cons_cons] at h
    have ho : q.opens (r.messageUpdate m) = true := by
      rw [opens_of_last hq]
      exact (differs_messageUpdate r m).2 h.1
    have hm := messages_feed_of_opens s ho
    have hrole : q.openingRole (r.messageUpdate m) = newer m.role last.role :=
      openingRole_of_last hq _
    rw [hrole, opened_absorb] at hm
    have ih := ih hm h.2
    simp only [feedAll, List.map_cons, List.foldl_cons] at ih ⊢
    rw [ih, hm, returned, List.append_assoc]
    rfl

/-- If as many come back, they stayed apart. -/
theorem chain_of_length (s : Store) (r : Response) {q : Response} {before : List Message}
    {last : Message} (hq : q.messages = before ++ [last]) {ms : List Message}
    (h : (feedAll s q (ms.map r.messageUpdate)).messages.length = q.messages.length + ms.length) :
    (last.id :: ms.map fun m => real m.id).IsChain Parted := by
  induction ms generalizing q before last with
  | nil => exact .singleton _
  | cons m ms ih =>
    have hle := length_feedAll_le (s := s) (q.feed s (r.messageUpdate m)) (ms.map r.messageUpdate)
    simp only [feedAll, List.map_cons, List.foldl_cons, List.length_cons, List.length_map] at h hle
    cases ho : q.opens (r.messageUpdate m) with
    | false =>
      have hlen := messages_length_feed s q (r.messageUpdate m)
      simp only [ho, Bool.false_eq_true, if_false] at hlen
      omega
    | true =>
      have hm := messages_feed_of_opens s ho
      have hrole : q.openingRole (r.messageUpdate m) = newer m.role last.role :=
        openingRole_of_last hq _
      rw [hrole, opened_absorb] at hm
      have hlen : (q.feed s (r.messageUpdate m)).messages.length = q.messages.length + 1 := by
        rw [hm, List.length_append, List.length_singleton]
      rw [List.map_cons, List.isChain_cons_cons]
      refine ⟨(differs_messageUpdate r m).1 (by rw [← opens_of_last hq, ho]), ih hm ?_⟩
      simp only [feedAll]
      omega

/-! ## Responses that come apart -/

/-- The updates for the messages of a response, folded. -/
def Response.reopened (s : Store) (r : Response) : Response :=
  feedAll s .empty (r.messages.map r.messageUpdate)

theorem messages_feed_first (s : Store) (r : Response) (m : Message) :
    (Response.empty.feed s (r.messageUpdate m)).messages = [] ++ [m.returned s r .null] := by
  have hm := messages_feed_of_opens s (r := .empty) (u := r.messageUpdate m) rfl
  rw [hm]
  exact congrArg (fun n => [] ++ [n]) (opened_absorb s r .null m)

/-- **Messages that stay apart come back** one by one. -/
theorem messages_reopened {r : Response} (h : Apart r.messages) :
    (r.reopened s).messages = returned s r .null r.messages := by
  unfold reopened
  cases hm : r.messages with
  | nil => rfl
  | cons m ms =>
    have hfirst := messages_feed_first s r m
    rw [hm] at h
    have hrest := messages_reopened_after s r hfirst h
    simp only [feedAll, List.map_cons, List.foldl_cons] at hrest ⊢
    rw [hrest, hfirst]
    rfl

/-- **If as many come back as there were**, no two of them ran together. -/
theorem apart_of_length {r : Response}
    (h : (r.reopened s).messages.length = r.messages.length) : Apart r.messages := by
  unfold reopened at h
  cases hm : r.messages with
  | nil => exact .nil
  | cons m ms =>
    have hfirst := messages_feed_first s r m
    rw [hm] at h
    refine chain_of_length s r hfirst ?_
    rw [hfirst]
    simp only [feedAll, List.map_cons, List.foldl_cons, List.length_cons] at h ⊢
    simp [h, Nat.add_comm]

theorem messages_reopened_ne_nil {r : Response} (h : r.messages ≠ []) :
    (r.reopened s).messages ≠ [] := by
  rcases List.eq_nil_or_concat r.messages with hn | ⟨ms, m, hm⟩
  · exact absurd hn h
  · rw [reopened, hm, List.concat_eq_append, List.map_append, List.map_singleton,
      feedAll_append_singleton]
    exact messages_feed_ne_nil s _ _

/-- The values of the response come back; an empty id counts as none, and the time is that of the
messages. -/
theorem fields_reopened {r : Response} (h : r.messages ≠ []) :
    (r.reopened s).id = real r.id ∧ (r.reopened s).conversationId = r.conversationId ∧
      (r.reopened s).model = r.model ∧ (r.reopened s).finish = r.finish ∧
      (r.reopened s).raw = .null ∧
      (r.reopened s).created = latest (r.messages.map fun m => newer m.created r.created) := by
  have hn : r.messages.map r.messageUpdate ≠ [] := by simpa using h
  have all : ∀ {g : Update → Value} {v : Value}, (∀ m, g (r.messageUpdate m) = v) →
      ∀ u ∈ r.messages.map r.messageUpdate, g u = v := by
    intro g v hg u hu
    obtain ⟨m, -, rfl⟩ := List.mem_map.1 hu
    exact hg m
  refine ⟨?_, ?_, ?_, ?_, ?_, ?_⟩
  · exact feedAll_constant (·.id) (real ·.responseId) (fun _ _ => rfl) rfl (all fun _ => rfl) hn
  · exact feedAll_constant (·.conversationId) (·.conversationId) (fun _ _ => rfl) rfl
      (all fun _ => rfl) hn
  · exact feedAll_constant (·.model) (·.model) (fun _ _ => rfl) rfl (all fun _ => rfl) hn
  · exact feedAll_constant (·.finish) (·.finish) (fun _ _ => rfl) rfl (all fun _ => rfl) hn
  · exact feedAll_raw .empty _
  · rw [reopened, feedAll_field (·.created) (·.created) (fun _ _ => rfl) rfl, List.map_map]
    rfl

theorem usage_reopened {r : Response}
    (h : ∀ m ∈ r.messages, ∀ c ∈ m.contents, s.isUsage c = false) :
    (r.reopened s).usage = .null := by
  refine feedAll_usage (fun u hu => ?_) .empty
  obtain ⟨m, hm, rfl⟩ := List.mem_map.1 hu
  exact h m hm

theorem properties_reopened {r : Response} (h : ∀ m ∈ r.messages, m.properties = .null) :
    (r.reopened s).properties = .null := by
  refine feedAll_properties (fun u hu => ?_) .empty
  obtain ⟨m, hm, rfl⟩ := List.mem_map.1 hu
  exact h m hm

/-- The last update brings the counters and the properties, and opens no message. -/
theorem feedAll_toUpdates {r : Response} (h : r.messages ≠ []) :
    feedAll s .empty r.toUpdates =
      { r.reopened s with
        usage := addItem s (r.reopened s).usage (usageItem r.usage)
        properties := mergeProperties s (r.reopened s).properties r.properties } := by
  rw [toUpdates, feedAll_append]
  change feedAll s (r.reopened s) _ = _
  have hne := messages_reopened_ne_nil (s := s) h
  generalize r.reopened s = q at hne ⊢
  split
  · rcases List.eq_nil_or_concat q.messages with hn | ⟨ms, m, hm⟩
    · exact absurd hn hne
    · rw [List.concat_eq_append] at hm
      have hb := feed_bare s hm (if r.usage = .null then [] else [usageItem r.usage]) r.properties
      have hfilter : (if r.usage = .null then [] else [usageItem r.usage]).filter
          (fun c => !s.isUsage c) = [] := by
        split <;> rfl
      have husage : addItems s q.usage (if r.usage = .null then [] else [usageItem r.usage]) =
          addItem s q.usage (usageItem r.usage) := by
        split
        · next hu => rw [hu]; rfl
        · rfl
      rw [hfilter, List.append_nil, ← hm, husage] at hb
      exact hb
  · next hc =>
    simp only [hasClosing, Bool.or_eq_true, bne_iff_ne, ne_eq, not_or, Decidable.not_not] at hc
    rw [hc.1, hc.2]
    rfl

end

end Reassembly
