import Reassembly.Proofs.Feeding

/-!
# Two folds side by side

Two responses that are the same but for their first messages, and in these for nothing that a
later update asks for, stay so whatever updates come in. An update asks a message for its id and
role only.

* `Stable`: a relation of messages that no update ends.
* `Parallel`: two responses whose first messages are related one by one, and equal otherwise.
* `Parallel.feed`, `Parallel.feedAll`: one update and a run of updates keep it.
-/
namespace Reassembly

/-- Related messages have one id and one role, and stay related when both absorb an update. -/
structure Stable (s : Store) (M : Message → Message → Prop) : Prop where
  id : ∀ {m n}, M m n → m.id = n.id
  role : ∀ {m n}, M m n → m.role = n.role
  absorb : ∀ {m n} (u : Update), M m n → M (m.absorb s u) (n.absorb s u)

/-- The first messages, so many, are related one by one; all else is equal. -/
def Parallel (M : Message → Message → Prop) (count : Nat) (r q : Response) : Prop :=
  ∃ as bs rest, r.messages = as ++ rest ∧ q = { r with messages := bs ++ rest } ∧
    List.Forall₂ M as bs ∧ as.length = count

namespace Response

/-- The part of a message that decides what the next update does. -/
def face (r : Response) : Option (Value × Value) := r.messages.getLast?.map fun m => (m.id, m.role)

theorem opens_of_face {r q : Response} (h : r.face = q.face) (u : Update) :
    r.opens u = q.opens u := by
  unfold opens
  unfold face at h
  cases hr : r.messages.getLast? <;> cases hq : q.messages.getLast? <;> rw [hr, hq] at h
  · cases h
  · cases h
  · simp only [Option.map_some, Option.some.injEq, Prod.mk.injEq] at h
    simp only [Message.differs, h.1]

theorem openingRole_of_face {r q : Response} (h : r.face = q.face) (u : Update) :
    r.openingRole u = q.openingRole u := by
  unfold openingRole
  unfold face at h
  cases hr : r.messages.getLast? <;> cases hq : q.messages.getLast? <;> rw [hr, hq] at h
  · cases h
  · cases h
  · simp only [Option.map_some, Option.some.injEq, Prod.mk.injEq] at h
    simp only [Option.map_some, h.2]

end Response

namespace Parallel

variable {s : Store} {M : Message → Message → Prop} {count : Nat} {r q : Response}

theorem of_map {f : Message → Message} (h : ∀ m ∈ r.messages, M m (f m)) :
    Parallel M r.messages.length r { r with messages := r.messages.map f } := by
  refine ⟨r.messages, r.messages.map f, [], ?_, ?_, ?_, rfl⟩
  · rw [List.append_nil]
  · rw [List.append_nil]
  · rw [List.forall₂_map_right_iff]
    exact List.forall₂_same.2 h

theorem face_eq (hM : Stable s M) (h : Parallel M count r q) : r.face = q.face := by
  obtain ⟨as, bs, rest, hr, rfl, hab, -⟩ := h
  unfold Response.face
  rw [hr]
  rcases List.eq_nil_or_concat rest with rfl | ⟨rest, m, rfl⟩
  · rcases List.eq_nil_or_concat as with rfl | ⟨as, m, rfl⟩
    · rw [List.forall₂_nil_left_iff.1 hab]
    · rcases List.eq_nil_or_concat bs with rfl | ⟨bs, n, rfl⟩
      · simp at hab
      · simp only [List.concat_eq_append] at hab ⊢
        have hmn := (forall₂_concat_iff.1 hab).2
        simp [hM.id hmn, hM.role hmn]
  · simp

/-- **One update** is opened or absorbed on both sides in the same way. -/
theorem feed (hM : Stable s M) (h : Parallel M count r q) (u : Update) :
    Parallel M count (r.feed s u) (q.feed s u) := by
  have hface := h.face_eq hM
  have ho := Response.opens_of_face hface u
  have hrole := Response.openingRole_of_face hface u
  obtain ⟨as, bs, rest, hr, hq, hab, hc⟩ := h
  have hqm : q.messages = bs ++ rest := by rw [hq]
  have hfeed : ∀ ms, (q.feed s u).messages = ms →
      q.feed s u = { r.feed s u with messages := ms } := by
    rintro ms rfl
    rw [hq]
    rfl
  rcases Response.messages_feed s r u with ⟨hopen, -, hnew⟩ | ⟨ms, m, hm, hd, hnew⟩
  · have hq := Response.messages_feed_of_opens s (ho ▸ hopen)
    rw [hqm, ← hrole, List.append_assoc] at hq
    rw [hr, List.append_assoc] at hnew
    exact ⟨as, bs, _, hnew, hfeed _ hq, hab, hc⟩
  · have hclosed : q.opens u = false := by rw [← ho, Response.opens_of_last hm, hd]
    rcases List.eq_nil_or_concat rest with rfl | ⟨rest, l, rfl⟩
    · -- no messages but related ones: the last of these absorbs the update
      rw [List.append_nil] at hr hqm
      rw [hr] at hm
      rw [hm] at hab hc
      rcases List.eq_nil_or_concat bs with rfl | ⟨bs, n, rfl⟩
      · simp at hab
      · rw [List.concat_eq_append] at hab hqm
        obtain ⟨hab, hmn⟩ := forall₂_concat_iff.1 hab
        rw [Response.opens_of_last hqm] at hclosed
        have hq := Response.messages_feed_of_last s hqm hclosed
        refine ⟨ms ++ [m.absorb s u], bs ++ [n.absorb s u], [], ?_, hfeed _ ?_, ?_, ?_⟩
        · rw [List.append_nil, hnew]
        · rw [List.append_nil, hq]
        · exact forall₂_concat_iff.2 ⟨hab, hM.absorb u hmn⟩
        · simpa using hc
    · rw [List.concat_eq_append, ← List.append_assoc] at hr hqm
      rw [hr] at hm
      obtain ⟨rfl, hlm⟩ := List.append_inj' hm rfl
      obtain rfl := List.singleton_inj.1 hlm
      rw [Response.opens_of_last hqm] at hclosed
      have hq := Response.messages_feed_of_last s hqm hclosed
      rw [List.append_assoc] at hq hnew
      exact ⟨as, bs, rest ++ [l.absorb s u], hnew, hfeed _ hq, hab, hc⟩

/-- **A run of updates** keeps two responses parallel. -/
theorem feedAll (hM : Stable s M) (h : Parallel M count r q) (us : List Update) :
    Parallel M count (Response.feedAll s r us) (Response.feedAll s q us) := by
  induction us generalizing r q with
  | nil => exact h
  | cons u us ih => exact ih (h.feed hM u)

end Parallel

end Reassembly
