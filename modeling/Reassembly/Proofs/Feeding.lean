import Mathlib.Data.List.Forall2
import Mathlib.Data.List.Induction
import Reassembly.Response.Fold

/-!
# What one update does to the messages

Every fact about the messages of a fold rests on one case distinction: an update either puts a new
message at the end, which then takes the update in, or is taken in by the message that is last. No
other message is touched.

* `messages_feed`: the two cases, with the condition for each.
* `feedAll_append_singleton`: a fold grows by one step at its end.
* `feed_bare`: an update with nothing but items and properties goes to the last message.
* `kept`: the items of an update that go to a message.
-/
namespace Reassembly

/-- The items of an update that are put into a message: all but the usage items. -/
def kept (s : Store) (u : Update) : List Value := u.contents.filter fun c => !s.isUsage c

/-- The id of the message that an update names, null if it names none. -/
def Update.named (u : Update) : Value := real u.messageId

theorem Message.absorb_contents (s : Store) (m : Message) (u : Update) :
    (m.absorb s u).contents = m.contents ++ kept s u := rfl

theorem Message.absorb_id (s : Store) (m : Message) (u : Update) :
    (m.absorb s u).id = newer u.named m.id := rfl

theorem newer_eq_null {new old : Value} : newer new old = .null ↔ new = .null ∧ old = .null := by
  by_cases h : new = .null <;> simp [newer, h]

theorem newer_of_ne {new : Value} (old : Value) (h : new ≠ .null) : newer new old = new := by
  simp [newer, h]

theorem Message.differs_iff (m : Message) (u : Update) :
    m.differs u = true ↔ u.named ≠ .null ∧ m.id ≠ .null ∧ u.named ≠ m.id := by
  simp [Message.differs, Update.named, and_assoc]

/-- The id of a message that takes an update in stays, once it has one. -/
theorem Message.absorb_id_of_not_differs (s : Store) {m : Message} {u : Update}
    (hd : m.differs u = false) (hm : m.id ≠ .null) : (m.absorb s u).id = m.id := by
  rw [Message.absorb_id]
  by_cases hu : u.named = .null
  · rw [hu, newer_null_left]
  · rw [newer_of_ne _ hu]
    by_contra hne
    rw [(Message.differs_iff m u).2 ⟨hu, hm, hne⟩] at hd
    cases hd

/-- Two lists that correspond do so up to their last elements, and in these. -/
theorem forall₂_concat_iff {α β : Type} {R : α → β → Prop} {as : List α} {bs : List β} {a : α}
    {b : β} : List.Forall₂ R (as ++ [a]) (bs ++ [b]) ↔ List.Forall₂ R as bs ∧ R a b := by
  rw [← List.forall₂_reverse_iff]
  simp [List.forall₂_reverse_iff, and_comm]

namespace Response

theorem feedAll_append_singleton (s : Store) (r : Response) (us : List Update) (u : Update) :
    feedAll s r (us ++ [u]) = (feedAll s r us).feed s u := by
  simp [feedAll]

theorem opens_of_last {r : Response} {ms : List Message} {m : Message}
    (h : r.messages = ms ++ [m]) (u : Update) : r.opens u = m.differs u := by
  simp [opens, h]

theorem opens_of_nil {r : Response} (h : r.messages = []) (u : Update) : r.opens u = true := by
  simp [opens, h]

theorem messages_feed_of_opens (s : Store) {r : Response} {u : Update} (h : r.opens u = true) :
    (r.feed s u).messages =
      r.messages ++ [(Message.opened (r.openingRole u)).absorb s u] := by
  simp [feed, target, h, absorbLast_append_singleton]

theorem messages_feed_of_last (s : Store) {r : Response} {u : Update} {ms : List Message}
    {m : Message} (hr : r.messages = ms ++ [m]) (h : m.differs u = false) :
    (r.feed s u).messages = ms ++ [m.absorb s u] := by
  have ho : r.opens u = false := by rw [opens_of_last hr, h]
  simp [feed, target, ho, hr, absorbLast_append_singleton]

/-- **One step.** The update opens a message, because there is none or because the last one has
another id than the update names, or the last message takes it in. -/
theorem messages_feed (s : Store) (r : Response) (u : Update) :
    (r.opens u = true ∧
      (r.messages = [] ∨ ∃ ms m, r.messages = ms ++ [m] ∧ m.differs u = true) ∧
      (r.feed s u).messages = r.messages ++ [(Message.opened (r.openingRole u)).absorb s u]) ∨
    ∃ ms m, r.messages = ms ++ [m] ∧ m.differs u = false ∧
      (r.feed s u).messages = ms ++ [m.absorb s u] := by
  rcases List.eq_nil_or_concat r.messages with hn | ⟨ms, m, hm⟩
  · have ho := opens_of_nil hn u
    exact Or.inl ⟨ho, Or.inl hn, messages_feed_of_opens s ho⟩
  · rw [List.concat_eq_append] at hm
    cases hd : m.differs u with
    | true =>
      have ho : r.opens u = true := by rw [opens_of_last hm, hd]
      exact Or.inl ⟨ho, Or.inr ⟨ms, m, hm, hd⟩, messages_feed_of_opens s ho⟩
    | false => exact Or.inr ⟨ms, m, hm, hd, messages_feed_of_last s hm hd⟩

/-- An update that carries items and properties only goes to the last message. -/
theorem feed_bare (s : Store) {r : Response} {ms : List Message} {m : Message}
    (hr : r.messages = ms ++ [m]) (items : List Value) (properties : Value) :
    r.feed s { Update.blank with contents := items, properties } =
      { r with
        messages := ms ++ [{ m with contents := m.contents ++ items.filter fun c => !s.isUsage c }]
        usage := addItems s r.usage items
        properties := mergeProperties s r.properties properties } := by
  have hd : m.differs { Update.blank with contents := items, properties } = false := rfl
  have hm := messages_feed_of_last s hr hd
  have habsorb : m.absorb s { Update.blank with contents := items, properties } =
      { m with contents := m.contents ++ items.filter fun c => !s.isUsage c } := rfl
  rw [habsorb] at hm
  rw [← hm]
  rfl

theorem messages_feed_ne_nil (s : Store) (r : Response) (u : Update) :
    (r.feed s u).messages ≠ [] := by
  rcases messages_feed s r u with ⟨-, -, h⟩ | ⟨ms, m, -, -, h⟩ <;> simp [h]

end Response

end Reassembly
