import Reassembly.Proofs.Moves

/-!
# Streams that are added side by side

Any number of streams are added to one transcript at the same time, each by a call that waits for
its updates. In the transcript they are one after the other: each call adds what it would have added
alone, as a whole and when it comes to its end.

* `Store.AddsAlike`: what a call adds alone.
* `streams_interleave`: all of it, for any calls in any order.
-/
namespace Reassembly

open Store

/-- Made in this store and at once, the addition lets the list grow by a batch that is like what the
given batch is in another store. -/
def Store.AddsAlike (s : Store) (ref : Nat) (addition : Addition) (t : Store)
    (batch : List Value) : Prop :=
  ∃ old u alone, s.cell ref = .list old ∧ s.add (.shared ref) addition = (u, .ok .null) ∧
    u.cell ref = .list (old ++ alone) ∧ List.Forall₂ (t.AlikeIn u) batch alone

/-- **Streams that are added side by side do not mix.** Any number of calls add streams to the
transcript of a session. Each of them takes updates from its own source, which may fail at any time,
and may be cancelled; in between, responses and updates are added at once, and objects are made.
Whatever has happened so far, the transcript is what it was at the start, with one batch for each
call that has come to its end, in the order in which they did, and with nothing of the others. A
batch is what its call adds alone: at the start, now, or at any moment at which what it needs is
there. A call that has failed does so alone. And whatever comes later, the transcript keeps what it
has. -/
theorem streams_interleave {s : Store} (hs : s.Sound []) {ref : Nat} {items : List Value}
    (hl : s.cell ref = .list items) {moves : List Move}
    (ha : (Meeting.on s).AllowsAll ref moves) :
    let w := (Meeting.on s).run moves
    ∃ batches : List (List Value),
      w.store.cell ref = .list (items ++ batches.flatten) ∧
      w.done.Nodup ∧
      (∀ n, n ∈ w.done ↔
        ∃ call : Call, w.calls[n]? = some call ∧ call.stage = .ended (.ok .null)) ∧
      List.Forall₂
        (fun n batch => ∃ call : Call, w.calls[n]? = some call ∧ call.place = .shared ref ∧
          call.addition.Clear w.store (w.aside ref) ∧
          ∀ first rest, moves = first ++ rest →
            let t := (Meeting.on s).run first
            call.addition.Clear t.store (t.aside ref) →
            t.store.AddsAlike ref call.addition w.store batch)
        w.done batches ∧
      (∀ (n : Nat) (call : Call) f, w.calls[n]? = some call → call.stage = .ended (.error f) →
        ∀ t : Store, (t.add call.place call.addition).2 = .error f) ∧
      ∀ more, w.AllowsAll ref more →
        let later := w.run more
        ∃ rest added, later.done = w.done ++ rest ∧
          later.store.cell ref = .list (items ++ batches.flatten ++ added) ∧
          ∀ batch ∈ batches, ∀ m ∈ batch, w.store.AlikeIn later.store m m := by
  intro w
  obtain ⟨-, batches, hkept, -, -⟩ := (Meeting.kept_on hs hl).run ha
  rw [List.nil_append] at hkept
  refine ⟨batches, hkept.list, hkept.nodup, fun n => ⟨?_, ?_⟩, hkept.did.imp ?_, ?_, ?_⟩
  · intro hn
    obtain ⟨batch, call, hcall, -, hended, -⟩ := hkept.exists_did hn
    exact ⟨call, hcall, hended⟩
  · rintro ⟨call, hcall, hended⟩
    exact hkept.complete hcall (by rw [hended]; rfl)
  · rintro n batch ⟨call, hcall, hplace, -, hmade⟩
    refine ⟨call, hcall, hplace, hmade.clear, ?_⟩
    rintro first rest rfl t hclear
    obtain ⟨hfirst, hrest⟩ := Meeting.allowsAll_append.1 ha
    obtain ⟨-, before, hbefore, -, -⟩ := (Meeting.kept_on hs hl).run hfirst
    have hlater := (hbefore.run hrest).later
    rw [← Meeting.run_append] at hlater
    obtain ⟨u, alone, hadd, hgrown, halike⟩ := hbefore.alone hclear hlater hmade
    exact ⟨_, u, alone, hbefore.list, hadd, hgrown, halike⟩
  · intro n call f hcall hended
    cases hkept.calls hcall with
    | failed fails =>
      cases hended
      exact fails
    | taking _ _ _ => cases hended
    | done => cases hended
  · intro more hmore later
    obtain ⟨rest, added, hthen, hdone, hlater⟩ := hkept.run hmore
    refine ⟨rest, added.flatten, hdone, ?_, fun batch hb m hm => ?_⟩
    · rw [List.append_assoc, ← List.flatten_append]
      exact hthen.list
    · obtain ⟨n, -, call, -, -, -, hmade⟩ := exists_mem_of_forall₂ hkept.did hb
      exact hlater.frame.alike hkept.sound_aside (hmade.holds hkept.sound_aside m hm)

/-! ## A choir -/

def verse (text id : String) : Value := { vote text with messageId := .text id }.toValue

/-- Four streams are added to the transcript of a session, and between them a response and a list of
updates. Two of the streams yield the same updates, with the same message ids, and one of these is
only written when the streams are under way. One stream fails, and one is cancelled. -/
def choir : List Move :=
  [.build (verse "Aye." "m"),
    .begin (.session (.shared 11)) (some { updates := [.shared 22, .shared 27] }),
    .begin (.session (.shared 11)) (some { updates := [.shared 22, .shared 27] }),
    .pull 0, .pull 1,
    .addResponse (.session (.shared 11)) (.shared 19),
    .build (verse "Late." "n"),
    .begin (.session (.shared 11))
      (some { updates := [.shared 14], failure := some (1, .raised "OSError" "gone") }),
    .begin (.session (.shared 11))
      (some { updates := [.shared 27, .shared 14], cancelAt := some 1 }),
    .pull 1, .pull 3, .pull 4, .pull 1, .pull 3, .pull 4, .pull 0,
    .addUpdates (.list (.shared 10)) true (some { updates := [.shared 14] }),
    .pull 0]

/-- A stream of the choir. -/
def voice : Addition := .updates .async false (some { updates := [.shared 22, .shared 27] })

/-- The list of updates that is added to the choir. -/
def interjection : Addition := .updates .sync true (some { updates := [.shared 14] })

theorem streams_interleave_choir :
    let w := (Meeting.on minutes).run choir
    w.done = [2, 1, 5, 0] ∧
      (∃ response first list last : List Value,
        w.store.cell 10 = .list ([.shared 9] ++ (response ++ (first ++ (list ++ last)))) ∧
        w.store.AddsAlike 10 voice w.store first ∧ w.store.AddsAlike 10 voice w.store last ∧
        minutes.AddsAlike 10 interjection w.store list) ∧
      ∀ t : Store, (t.add (.shared 10) (.updates .async false
        (some { updates := [.shared 14], failure := some (1, .raised "OSError" "gone") }))).2 =
          .error (.raised "OSError" "gone") := by
  intro w
  have hdone : w.done = [2, 1, 5, 0] := by decide +kernel
  have haddition : ∀ {n : Nat} {call : Call} {addition place},
      w.calls[n]? = some ⟨addition, place, .ended (.ok .null)⟩ → w.calls[n]? = some call →
      call.addition = addition := by
    rintro n call addition place hended hcall
    rw [hended] at hcall
    cases hcall
    rfl
  have hallows : (Meeting.on minutes).AllowsAll 10 choir := by decide +kernel
  obtain ⟨batches, hlist, -, -, hbatches, hfailed, -⟩ :=
    @streams_interleave minutes (by decide) 10 [.shared 9] rfl choir hallows
  rw [show ((Meeting.on minutes).run choir).done = [2, 1, 5, 0] from hdone] at hbatches
  obtain _ | ⟨-, _ | ⟨⟨one, hone, -, hfirst, halone⟩, _ | ⟨⟨five, hfive, -, -, hlike⟩,
    _ | ⟨⟨zero, hzero, -, hlast, halone'⟩, hnone⟩⟩⟩⟩ := hbatches
  cases hnone
  rename_i response first list last
  have hpart : one.addition = voice := haddition rfl hone
  have hpart' : zero.addition = voice := haddition rfl hzero
  have hthere : five.addition = interjection := haddition rfl hfive
  rw [hpart] at halone hfirst
  rw [hpart'] at halone' hlast
  rw [hthere] at hlike
  refine ⟨hdone, ⟨response, first, list, last, ?_, ?_, ?_, ?_⟩, ?_⟩
  · simpa only [List.flatten_cons, List.flatten_nil, List.append_nil] using hlist
  · exact halone choir [] (List.append_nil _).symm hfirst
  · exact halone' choir [] (List.append_nil _).symm hlast
  · exact hlike [] choir rfl (by decide +kernel)
  · exact hfailed 3 ⟨_, _, _⟩ _ rfl rfl

end Reassembly
