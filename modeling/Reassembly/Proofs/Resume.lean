import Reassembly.Proofs.Folded
import Reassembly.Proofs.Parallel
import Reassembly.Proofs.Refold

/-!
# Stopping in a stream and going on later

A stream may be stopped, its response kept, and the rest of the stream folded behind the updates
of that response. What comes out is the response of the whole stream, except that the messages
from before the stop have been given the time that the response had then.

* `Response.stamped`: that exception.
* `Resumed`: how a message from before the stop looks in the second run, and `resumed_stable`:
  that no later update brings it closer to the first run or further away.
* `refold_settled`: the second run, in terms of the first one.
* `refold_resumes`: the same for responses as they are made.
-/
namespace Reassembly

open Store Response

/-- The first messages, so many, with a time if they have none. -/
def Response.stamped (count : Nat) (time : Value) (r : Response) : Response :=
  { r with messages := (r.messages.take count).map (Message.stamped time) ++ r.messages.drop count }

/-- The second message is the first one as it was kept, with the same items behind. -/
def Resumed (s : Store) (wanted : Bool) (time : Value) (m n : Message) : Prop :=
  ∃ xs ys, m.contents = xs ++ ys ∧
    n = { m with contents := (if wanted then joined s xs else xs) ++ ys
                 created := newer m.created time }

section
variable {s : Store}

theorem resumed_stable (s : Store) (wanted : Bool) (time : Value) :
    Stable s (Resumed s wanted time) where
  id := by
    rintro m n ⟨xs, ys, -, rfl⟩
    rfl
  role := by
    rintro m n ⟨xs, ys, -, rfl⟩
    rfl
  absorb := by
    rintro m n u ⟨xs, ys, hm, rfl⟩
    refine ⟨xs, ys ++ kept s u, ?_, ?_⟩
    · rw [Message.absorb_contents, hm, List.append_assoc]
    · simp only [Message.absorb, kept, newer_assoc, List.append_assoc]

theorem resumed_stamped_settled (wanted : Bool) (time : Value) (m : Message) :
    Resumed s wanted time m ((m.settled s wanted).stamped time) := by
  refine ⟨m.contents, [], (List.append_nil _).symm, ?_⟩
  cases wanted <;> simp [Message.settled, Message.stamped]

/-- Coalescing at the end makes up for not having coalesced before the stop. -/
theorem Resumed.settled {c₁ c₂ : Bool} (hc : c₁ = true → c₂ = true) {time : Value} {m n : Message}
    (h : Resumed s c₁ time m n) : n.settled s c₂ = (m.settled s c₂).stamped time := by
  obtain ⟨xs, ys, hm, rfl⟩ := h
  cases c₂ with
  | true =>
    cases c₁ with
    | true => simp [Message.settled, Message.stamped, hm, joined_joined_append]
    | false => simp [Message.settled, Message.stamped, hm]
  | false =>
    cases c₁ with
    | true => cases hc rfl
    | false => simp [Message.settled, Message.stamped, hm]

theorem Parallel.settled {c₁ c₂ : Bool} (hc : c₁ = true → c₂ = true) {time : Value} {count : Nat}
    {r q : Response} (h : Parallel (Resumed s c₁ time) count r q) :
    q.settled s c₂ = (r.settled s c₂).stamped count time := by
  obtain ⟨as, bs, rest, hr, rfl, hab, rfl⟩ := h
  have first : bs.map (Message.settled s c₂) =
      (as.map (Message.settled s c₂)).map (Message.stamped time) := by
    clear hr
    induction hab with
    | nil => rfl
    | cons hmn _ ih => simp only [List.map_cons, ih, hmn.settled hc]
  simp only [Response.settled, Response.stamped, hr, List.map_append, first]
  have hlen : (as.map (Message.settled s c₂)).length = as.length := List.length_map _
  rw [← hlen, List.take_left, List.drop_left]

/-- **The second run** goes beside the first one. -/
theorem refold_settled {us vs : List Update} (hu : ∀ u ∈ us, u.Formed s)
    (hv : ∀ u ∈ vs, u.Formed s) (c₁ c₂ : Bool) (hc : c₁ = true → c₂ = true) :
    s.refold ((feedAll s .empty us).settled s c₁).toValue vs c₂ =
      .ok (((feedAll s .empty (us ++ vs)).settled s c₂).stamped
        (feedAll s .empty us).messages.length (feedAll s .empty us).created) := by
  have hformed := (Response.Formed.empty.feedAll hu).settled c₁
  have hfolded := (folded_feedAll s us).settled c₁
  have hback := feedAll_toUpdates_of_folded hfolded hformed
  rw [refold_of_formed (by rwa [response_toValue]) hv, response_toValue, feedAll_append, hback,
    feedAll_append]
  have start := Parallel.of_map (r := feedAll s .empty us) fun m _ =>
    resumed_stamped_settled (s := s) c₁ (feedAll s .empty us).created m
  have run := start.feedAll (resumed_stable s c₁ _) vs
  rw [← run.settled hc]
  simp only [Response.settled, List.map_map]
  rfl

/-! ## Responses as they are made -/

theorem stamped_stamped (time : Value) (m : Message) :
    (m.stamped time).stamped time = m.stamped time := by
  have h : newer (newer m.created time) time = newer m.created time := by
    by_cases hm : m.created = .null
    · by_cases ht : time = .null <;> simp [newer, hm, ht]
    · simp [newer, hm]
  simp only [Message.stamped, h]

theorem stamped_all (r : Response) (time : Value) :
    r.stamped r.messages.length time =
      { r with messages := r.messages.map (Message.stamped time) } := by
  simp [Response.stamped]

theorem refold_again {us : List Update} (hu : ∀ u ∈ us, u.Formed s) (c : Bool) {q : Response}
    (h : s.refold ((feedAll s .empty us).settled s c).toValue [] c = .ok q) :
    s.refold q.toValue [] c = .ok q := by
  have hnone : ∀ u ∈ ([] : List Update), u.Formed s := fun u hm => by cases hm
  have hformed := (Response.Formed.empty.feedAll hu).settled c
  have hback := feedAll_toUpdates_of_folded ((folded_feedAll s us).settled c) hformed
  have htwice := refold_settled hformed.toUpdates hnone c c id
  rw [refold_of_formed (by rwa [response_toValue]) hnone, response_toValue, List.append_nil,
    Except.ok.injEq] at h
  rw [List.append_nil, h] at htwice
  rw [htwice, ← h, hback]
  generalize (feedAll s .empty us).settled s c = p
  have hm : ∀ m : Message, ((m.stamped p.created).settled s c).stamped p.created =
      (m.stamped p.created).settled s c := by
    intro m
    have hs := stamped_stamped p.created m
    unfold Message.stamped at hs ⊢
    cases c with
    | false => exact hs
    | true =>
      simp only [Message.settled, if_true, Message.mk.injEq, true_and, and_true] at hs ⊢
      exact hs
  have hlen : (p.messages.map (Message.stamped p.created)).length =
      (({ p with messages := p.messages.map (Message.stamped p.created) } : Response).settled
        s c).messages.length := (List.length_map _).symm
  rw [hlen, stamped_all]
  simp only [Response.settled, List.map_map, Function.comp_def, hm]

/-- **Resuming.** A valid stream is stopped after `us` and its response kept; `vs` comes later.
Folding `vs` behind the updates of that response gives the response of the whole stream, with a
time for the messages from before the stop. To take a response apart and fold it again at once
only does the latter, and doing so twice does no more. -/
theorem refold_resumes {us vs : List Update} {c₁ c₂ : Bool} (hc : c₂ = true ∨ c₁ = false)
    (hu : ∀ u ∈ us, s.formed .update u.toValue = true)
    (hv : ∀ v ∈ vs, s.formed .update v.toValue = true) :
    ∃ p r, ofUpdates s us c₁ = .ok p ∧ ofUpdates s (us ++ vs) c₂ = .ok r ∧
      s.refold p.toValue vs c₂ = .ok (r.stamped p.messages.length p.created) ∧
      s.refold p.toValue [] c₁ = .ok (p.stamped p.messages.length p.created) ∧
      s.refold (p.stamped p.messages.length p.created).toValue [] c₁ =
        .ok (p.stamped p.messages.length p.created) := by
  have hu : ∀ u ∈ us, u.Formed s := fun u hm => formed_update_iff.1 (hu u hm)
  have hv : ∀ u ∈ vs, u.Formed s := fun u hm => formed_update_iff.1 (hv u hm)
  have hc : c₁ = true → c₂ = true := by
    rintro rfl
    exact hc.resolve_right (by decide)
  have hnone : ∀ u ∈ ([] : List Update), u.Formed s := fun u hm => by cases hm
  have hlen : ((feedAll s .empty us).settled s c₁).messages.length =
      (feedAll s .empty us).messages.length := List.length_map _
  have hagain := refold_settled hu hnone c₁ c₁ id
  rw [List.append_nil] at hagain
  refine ⟨_, _, ofUpdates_of_formed hu c₁,
    ofUpdates_of_formed (List.forall_mem_append.2 ⟨hu, hv⟩) c₂, ?_, ?_, ?_⟩
  · rw [hlen]
    exact refold_settled hu hv c₁ c₂ hc
  · rw [hlen]
    exact hagain
  · rw [hlen]
    exact refold_again hu c₁ hagain

/-- Two messages, the second one with a time, and the rest of its text after the stop. -/
theorem refold_resumes_in_message :
    ∃ p r,
      ofUpdates .empty
        [{ Update.blank with messageId := .text "a", contents := [plainText "Hi."] },
          { Update.blank with messageId := .text "b", contents := [plainText "How are "]
                              created := .time ⟨20000, 0, 0, none⟩ }] false = .ok p ∧
      ofUpdates .empty
        ([{ Update.blank with messageId := .text "a", contents := [plainText "Hi."] },
          { Update.blank with messageId := .text "b", contents := [plainText "How are "]
                              created := .time ⟨20000, 0, 0, none⟩ }] ++
          [{ Update.blank with contents := [plainText "you?"] }]) true = .ok r ∧
      Store.empty.refold p.toValue [{ Update.blank with contents := [plainText "you?"] }] true =
        .ok (r.stamped p.messages.length p.created) ∧
      Store.empty.refold p.toValue [] false = .ok (p.stamped p.messages.length p.created) ∧
      Store.empty.refold (p.stamped p.messages.length p.created).toValue [] false =
        .ok (p.stamped p.messages.length p.created) :=
  refold_resumes (Or.inl rfl) (by decide) (by decide)

end

end Reassembly
