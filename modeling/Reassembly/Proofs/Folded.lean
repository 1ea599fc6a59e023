import Mathlib.Data.List.Chain
import Reassembly.Proofs.Maps
import Reassembly.Proofs.Records
import Reassembly.Proofs.Returned

/-!
# The image of the fold

Not every response is a fold of updates. `Folded` is the invariant that a fold keeps from the empty
response on; a response that satisfies it comes back from its own updates, but for the times of its
messages.

* `Folded`, `Folded.feed`, `folded_feedAll`: the invariant, one step, and a run.
* `Folded.settled`: coalescing keeps it.
* `feedAll_toUpdates_of_folded`: what comes back.
-/
namespace Reassembly

open Store Response

/-- What a fold of updates satisfies. -/
structure Folded (s : Store) (r : Response) : Prop where
  nothing : r.messages = [] → r = .empty
  named : ∀ m ∈ r.messages, real m.id = m.id
  credited : ∀ m ∈ r.messages, credited m.author = m.author
  apart : Apart r.messages
  /-- the messages that have no role come first -/
  roles : r.messages.Pairwise fun m n => n.role = .null → m.role = .null
  bare : ∀ m ∈ r.messages, m.raw = .null ∧ m.properties = .null
  items : ∀ m ∈ r.messages, ∀ c ∈ m.contents, s.isUsage c = false
  /-- the time of the last message is the newest one -/
  newest : ∀ m ∈ r.messages.getLast?, m.created = .null ∨ m.created = r.created
  timed : ∀ m ∈ r.messages, r.created = .null → m.created = .null
  id : real r.id = r.id
  raw : r.raw = .null
  usage : Tallied r.usage
  properties : r.properties = .null ∨
    ∃ es : Entries Value, r.properties = .map es ∧ es.keys.Nodup

theorem real_real (v : Value) : real (real v) = real v := by
  by_cases h : v = .text "" <;> simp [real, h]

theorem real_newer {new old : Value} (hn : real new = new) (ho : real old = old) :
    real (newer new old) = newer new old := by
  unfold newer
  split
  · exact ho
  · exact hn

theorem credited_newerAuthor {new old : Value} (h : credited old = old) :
    credited (newerAuthor new old) = newerAuthor new old := by
  unfold newerAuthor
  split
  · exact h
  · exact credited_credited new

theorem real_named (u : Update) : real u.named = u.named := real_real u.messageId

/-! ## One message more, or one that has grown -/

theorem apart_append_singleton {ms : List Message} {m n : Message} :
    Apart (ms ++ [m] ++ [n]) ↔ Apart (ms ++ [m]) ∧ Parted (real m.id) (real n.id) := by
  simp [Apart, List.isChain_append_cons_cons]

/-- The id of the last message decides whether it stays apart from those before. -/
theorem apart_congr_last {ms : List Message} {m n : Message} (h : real m.id = real n.id)
    (ha : Apart (ms ++ [m])) : Apart (ms ++ [n]) := by
  simpa [Apart, h] using ha

theorem apart_singleton (m : Message) : Apart [m] := .singleton _

theorem ne_null_of_apart {ms : List Message} {l m : Message} (ha : Apart (ms ++ [l] ++ [m])) :
    real m.id ≠ .null :=
  (apart_append_singleton.1 ha).2.2.1

section
variable {s : Store} {r : Response} {u : Update}

theorem Folded.empty : Folded s .empty where
  nothing := fun _ => rfl
  named := by simp [Response.empty]
  credited := by simp [Response.empty]
  apart := .nil
  roles := .nil
  bare := by simp [Response.empty]
  items := by simp [Response.empty]
  newest := by simp [Response.empty]
  timed := by simp [Response.empty]
  id := rfl
  raw := rfl
  usage := Or.inl rfl
  properties := Or.inl rfl

theorem isUsage_of_mem_kept {c : Value} (h : c ∈ kept s u) : s.isUsage c = false := by
  simpa using (List.mem_filter.1 h).2

/-- The message that an update opens. -/
def Response.fresh (s : Store) (r : Response) (u : Update) : Message :=
  (Message.opened (r.openingRole u)).absorb s u

theorem Folded.apart_feed_of_opens (h : Folded s r)
    (ho : r.messages = [] ∨ ∃ ms m, r.messages = ms ++ [m] ∧ m.differs u = true) :
    Apart (r.messages ++ [r.fresh s u]) := by
  rcases ho with hn | ⟨ms, m, hm, hd⟩
  · rw [hn]
    exact apart_singleton _
  · have hnamed := h.named m (by simp [hm])
    have hparted := (Message.differs_iff m u).1 hd
    have hid : (r.fresh s u).id = u.named := newer_null_right u.named
    rw [hm, apart_append_singleton, ← hm, hid, hnamed, real_named]
    exact ⟨h.apart, hparted.2.1, hparted.1, hparted.2.2⟩

/-- A last message keeps its id, unless it is the only one and has none. -/
theorem Folded.apart_feed_of_last (h : Folded s r) {ms : List Message} {m : Message}
    (hm : r.messages = ms ++ [m]) (hd : m.differs u = false) : Apart (ms ++ [m.absorb s u]) := by
  have ha := h.apart
  rw [hm] at ha
  rcases List.eq_nil_or_concat ms with rfl | ⟨ms, l, rfl⟩
  · exact apart_singleton _
  · rw [List.concat_eq_append] at ha hm ⊢
    have hid : m.id ≠ .null := by
      rw [← h.named m (by simp [hm])]
      exact ne_null_of_apart ha
    exact apart_congr_last (by rw [Message.absorb_id_of_not_differs s hd hid]) ha

theorem Folded.roles_feed_of_opens (h : Folded s r) :
    (r.messages ++ [r.fresh s u]).Pairwise fun m n => n.role = .null → m.role = .null := by
  rw [List.pairwise_append]
  refine ⟨h.roles, List.pairwise_singleton _ _, fun a ha b hb hrole => ?_⟩
  rw [List.mem_singleton.1 hb] at hrole
  have hlast : (r.messages.getLast?.map (·.role)).getD .null = .null :=
    (newer_eq_null.1 (newer_eq_null.1 hrole).2).2
  rcases List.eq_nil_or_concat r.messages with hn | ⟨ms, l, hl⟩
  · rw [hn] at ha
    cases ha
  · have hroles := h.roles
    rw [hl, List.concat_eq_append] at ha hlast hroles
    have hlast : l.role = .null := by simpa using hlast
    rcases List.mem_append.1 ha with ha | ha
    · exact (List.pairwise_append.1 hroles).2.2 a ha l List.mem_cons_self hlast
    · rw [List.mem_singleton.1 ha]
      exact hlast

theorem Folded.roles_feed_of_last (h : Folded s r) {ms : List Message} {m : Message}
    (hm : r.messages = ms ++ [m]) :
    (ms ++ [m.absorb s u]).Pairwise fun m n => n.role = .null → m.role = .null := by
  have hroles := h.roles
  rw [hm, List.pairwise_append] at hroles
  rw [List.pairwise_append]
  refine ⟨hroles.1, List.pairwise_singleton _ _, fun a ha b hb hrole => ?_⟩
  rw [List.mem_singleton.1 hb] at hrole
  exact hroles.2.2 a ha m List.mem_cons_self (newer_eq_null.1 hrole).2

theorem forall_mem_messages_feed {p q : Message → Prop} (h : ∀ m ∈ r.messages, p m)
    (keep : ∀ m, p m → q m) (fresh : q (r.fresh s u)) (grown : ∀ m, p m → q (m.absorb s u)) :
    ∀ m ∈ (r.feed s u).messages, q m := by
  rcases messages_feed s r u with ⟨-, -, hnew⟩ | ⟨ms, m, hm, -, hnew⟩
  · rw [hnew, List.forall_mem_append]
    exact ⟨fun m hm => keep m (h m hm), List.forall_mem_singleton.2 fresh⟩
  · rw [hm, List.forall_mem_append, List.forall_mem_singleton] at h
    rw [hnew, List.forall_mem_append, List.forall_mem_singleton]
    exact ⟨fun m hm => keep m (h.1 m hm), grown m h.2⟩

theorem Folded.properties_feed (h : Folded s r) :
    (r.feed s u).properties = .null ∨
      ∃ es : Entries Value, (r.feed s u).properties = .map es ∧ es.keys.Nodup := by
  simp only [Response.feed, mergeProperties]
  split
  · exact h.properties
  · next fs _ =>
    have hn : (Entries.keys ((s.entries? r.properties).getD [])).Nodup := by
      rcases h.properties with hp | ⟨es, hp, hn⟩
      · rw [hp]
        exact .nil
      · rw [hp]
        exact hn
    exact Or.inr ⟨_, rfl, Entries.nodup_merge fs hn⟩

theorem newer_eq_null_or {new old newest : Value} (h : old = .null ∨ old = newest) :
    newer new old = .null ∨ newer new old = newer new newest := by
  by_cases hn : new = .null
  · rw [hn, newer_null_left, newer_null_left]
    exact h
  · rw [newer_of_ne _ hn, newer_of_ne _ hn]
    exact Or.inr rfl

/-- **One step.** An update keeps the invariant. -/
theorem Folded.feed (h : Folded s r) (u : Update) : Folded s (r.feed s u) where
  nothing := fun hn => absurd hn (messages_feed_ne_nil s r u)
  named := forall_mem_messages_feed h.named (fun _ h => h)
    (real_newer (real_named u) rfl) fun _ hm => real_newer (real_named u) hm
  credited := forall_mem_messages_feed h.credited (fun _ h => h)
    (credited_newerAuthor rfl) fun _ hm => credited_newerAuthor hm
  apart := by
    rcases messages_feed s r u with ⟨-, ho, hnew⟩ | ⟨ms, m, hm, hd, hnew⟩
    · rw [hnew]
      exact h.apart_feed_of_opens ho
    · rw [hnew]
      exact h.apart_feed_of_last hm hd
  roles := by
    rcases messages_feed s r u with ⟨-, -, hnew⟩ | ⟨ms, m, hm, -, hnew⟩
    · rw [hnew]
      exact h.roles_feed_of_opens
    · rw [hnew]
      exact h.roles_feed_of_last hm
  bare := forall_mem_messages_feed h.bare (fun _ h => h) ⟨rfl, rfl⟩ fun _ h => h
  items := forall_mem_messages_feed h.items (fun _ h => h) (fun _ hc => isUsage_of_mem_kept hc)
    fun m hm c hc => (List.mem_append.1 hc).elim (hm c) isUsage_of_mem_kept
  newest := by
    intro m hm
    rcases messages_feed s r u with ⟨-, -, hnew⟩ | ⟨ms, l, hl, -, hnew⟩
    · rw [hnew, List.getLast?_concat, Option.mem_some_iff] at hm
      rw [← hm]
      exact newer_eq_null_or (Or.inl rfl)
    · have hlast := h.newest l (by rw [hl, List.getLast?_concat]; rfl)
      rw [hnew, List.getLast?_concat, Option.mem_some_iff] at hm
      rw [← hm]
      exact newer_eq_null_or hlast
  timed := by
    refine forall_mem_messages_feed h.timed ?_ ?_ ?_
    · exact fun m hm hn => hm (newer_eq_null.1 hn).2
    · exact fun hn => newer_eq_null.2 ⟨(newer_eq_null.1 hn).1, rfl⟩
    · exact fun m hm hn => newer_eq_null.2 ⟨(newer_eq_null.1 hn).1, hm (newer_eq_null.1 hn).2⟩
  id := real_newer (real_real u.responseId) h.id
  raw := h.raw
  usage := tallied_addItems h.usage u.contents
  properties := h.properties_feed

/-- **Every fold of updates** satisfies the invariant. -/
theorem folded_feedAll (s : Store) (us : List Update) : Folded s (feedAll s .empty us) := by
  induction us using List.reverseRecOn with
  | nil => exact .empty
  | append_singleton us u ih =>
    rw [feedAll_append_singleton]
    exact ih.feed u

/-! ## Finished folds -/

theorem settled_role (wanted : Bool) (m : Message) : (m.settled s wanted).role = m.role := by
  cases wanted <;> rfl

theorem settled_id (wanted : Bool) (m : Message) : (m.settled s wanted).id = m.id := by
  cases wanted <;> rfl

theorem settled_created (wanted : Bool) (m : Message) :
    (m.settled s wanted).created = m.created := by
  cases wanted <;> rfl

theorem Folded.settled (h : Folded s r) (wanted : Bool) : Folded s (r.settled s wanted) where
  nothing := by
    intro hn
    have hm : r.messages = [] := List.map_eq_nil_iff.1 hn
    rw [h.nothing hm]
    rfl
  named := List.forall_mem_map.2 fun m hm => by
    rw [settled_id]
    exact h.named m hm
  credited := List.forall_mem_map.2 fun m hm => by
    have ha := h.credited m hm
    cases wanted <;> exact ha
  apart := by
    have ha := h.apart
    unfold Apart at ha ⊢
    simpa only [Response.settled, List.map_map, Function.comp_def, settled_id] using ha
  roles := by
    rw [Response.settled, List.pairwise_map]
    simpa only [settled_role] using h.roles
  bare := List.forall_mem_map.2 fun m hm => by
    have hb := h.bare m hm
    cases wanted <;> exact hb
  items := List.forall_mem_map.2 fun m hm => by
    have hi := h.items m hm
    cases wanted with
    | false => exact hi
    | true => exact isUsage_joined hi
  newest := by
    intro m hm
    rw [Response.settled, List.getLast?_map, Option.mem_def, Option.map_eq_some_iff] at hm
    obtain ⟨l, hl, rfl⟩ := hm
    rw [settled_created]
    exact h.newest l hl
  timed := List.forall_mem_map.2 fun m hm hn => by
    rw [settled_created]
    exact h.timed m hm hn
  id := h.id
  raw := h.raw
  usage := h.usage
  properties := h.properties

theorem Message.Formed.settled {m : Message} (h : m.Formed s) (wanted : Bool) :
    (m.settled s wanted).Formed s := by
  cases wanted with
  | false => exact h
  | true => exact { h with contents := formed_joined h.contents }

theorem Response.Formed.settled (h : r.Formed s) (wanted : Bool) :
    (r.settled s wanted).Formed s :=
  { h with messages := List.forall_mem_map.2 fun m hm => (h.messages m hm).settled wanted }

/-! ## What comes back of it -/

/-- The message with a time, if it has none. -/
def Message.stamped (time : Value) (m : Message) : Message :=
  { m with created := newer m.created time }

theorem filter_of_not_usage {items : List Value} (h : ∀ c ∈ items, s.isUsage c = false) :
    items.filter (fun c => !s.isUsage c) = items :=
  List.filter_eq_self.2 fun c hc => by simp [h c hc]

theorem returned_of_plain {ms : List Message} {role : Value}
    (named : ∀ m ∈ ms, real m.id = m.id) (authors : ∀ m ∈ ms, credited m.author = m.author)
    (bare : ∀ m ∈ ms, m.raw = .null ∧ m.properties = .null)
    (items : ∀ m ∈ ms, ∀ c ∈ m.contents, s.isUsage c = false)
    (roles : (role :: ms.map (·.role)).Pairwise fun x y => y = .null → x = .null) :
    returned s r role ms = ms.map (Message.stamped r.created) := by
  induction ms generalizing role with
  | nil => rfl
  | cons m ms ih =>
    obtain ⟨hid, hids⟩ := List.forall_mem_cons.1 named
    obtain ⟨ha, has⟩ := List.forall_mem_cons.1 authors
    obtain ⟨hb, hbs⟩ := List.forall_mem_cons.1 bare
    obtain ⟨hi, his⟩ := List.forall_mem_cons.1 items
    rw [List.map_cons, List.pairwise_cons] at roles
    have hrole : newer m.role role = m.role := by
      by_cases hm : m.role = .null
      · rw [hm, newer_null_left]
        exact roles.1 _ List.mem_cons_self hm
      · exact newer_of_ne _ hm
    have hback : m.returned s r role = m.stamped r.created := by
      obtain ⟨_, contents, _, _, _, raw, properties⟩ := m
      simp only [Message.returned, Message.stamped, Message.mk.injEq, true_and] at ha hb hrole hid ⊢
      exact ⟨hrole, filter_of_not_usage hi, ha, hid, hb.1.symm, hb.2.symm⟩
    rw [returned, List.map_cons, hback, hrole, ih hids has hbs his roles.2]

/-- If messages without a time are given that of the response, the newest one is still that. -/
theorem Folded.latest_created (h : Folded s r) (hn : r.messages ≠ []) :
    latest (r.messages.map fun m => newer m.created r.created) = r.created := by
  by_cases hc : r.created = .null
  · rw [hc, latest_eq_null_iff]
    refine List.forall_mem_map.2 fun m hm => ?_
    rw [newer_null_right]
    exact h.timed m hm hc
  · rcases List.eq_nil_or_concat r.messages with hnil | ⟨ms, m, hm⟩
    · exact absurd hnil hn
    · rw [List.concat_eq_append] at hm
      have hnew : newer m.created r.created = r.created := by
        rcases h.newest m (by rw [hm, List.getLast?_concat]; rfl) with hlast | hlast
        · rw [hlast, newer_null_left]
        · rw [hlast, newer_of_ne _ hc]
      rw [hm, List.map_append, List.map_singleton, latest_append_singleton, hnew,
        newer_of_ne _ hc]

/-- **A fold comes back from its updates**, each message with a time if the response has one. -/
theorem feedAll_toUpdates_of_folded (h : Folded s r) (hr : r.Formed s) :
    feedAll s .empty r.toUpdates =
      { r with messages := r.messages.map (Message.stamped r.created) } := by
  by_cases hn : r.messages = []
  · rw [h.nothing hn]
    rfl
  · obtain ⟨hid, hconversation, hmodel, hfinish, hraw, hcreated⟩ := fields_reopened (s := s) hn
    have hmessages : (r.reopened s).messages = r.messages.map (Message.stamped r.created) := by
      rw [messages_reopened h.apart]
      refine returned_of_plain h.named h.credited h.bare h.items
        (List.pairwise_cons.2 ⟨fun _ _ _ => rfl, ?_⟩)
      rw [List.pairwise_map]
      exact h.roles
    have husage : addItem s (r.reopened s).usage (usageItem r.usage) = r.usage := by
      rw [usage_reopened h.items]
      exact addItem_usageItem h.usage hr.usage
    have hproperties : mergeProperties s (r.reopened s).properties r.properties = r.properties := by
      rw [properties_reopened fun m hm => (h.bare m hm).2]
      rcases h.properties with hp | ⟨es, hp, hes⟩
      · rw [hp]
        rfl
      · rw [hp]
        exact congrArg Value.map (Entries.merge_nil hes)
    have htime := h.latest_created hn
    rw [feedAll_toUpdates hn, husage, hproperties]
    obtain ⟨messages, id, conversationId, model, created, finish, usage, raw, properties⟩ := r
    have hfields := h.id
    have hrawfield := h.raw
    simp only at hfields hrawfield hid hconversation hmodel hfinish hraw hcreated hmessages htime ⊢
    rw [hid, hfields, hconversation, hmodel, hfinish, hraw, hcreated, htime, hmessages, hrawfield]

end

end Reassembly
