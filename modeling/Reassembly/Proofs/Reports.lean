import Mathlib.Data.List.Indexes
import Reassembly.Proofs.Metadata
import Reassembly.Proofs.Spans

/-!
# What a run reports

The log and the span of a run, read off the stream alone. The updates that a run folds in are those
before a failure and before a cancellation. Each of them that begins a message has a line in the
log, with the number of that message, the id that the update names and the newest role so far. A
last line with two numbers comes if the run gives a response, and the span has the same two numbers
then.

* `Source.merged`: the updates that a run folds in.
* `openedLines`: the lines for the messages that some updates begin.
* `feedLog_feedAll`, `log_feedAll`: the lines after one more update, and after all of them.
* `reports_agree`: the log and the span of a run, with its response.
-/
namespace Reassembly

open Store Response

/-! ## Which updates are folded in -/

/-- The updates that a run in this mode folds in. -/
def Source.merged {α : Type} (source : Source α) (mode : Mode) : List α :=
  match (source.seenIn mode).cancelAt with
  | none => source.beforeFailure
  | some c => source.beforeFailure.take c.toNat

theorem Source.merged_of_cancelled {α : Type} {source : Source α} {mode : Mode} {j : Nat}
    (h : (source.seenIn mode).CancelledAt j) : source.merged mode = source.updates.take j := by
  obtain ⟨c, hc, rfl, hj, hf⟩ := h
  rw [source.failure_seenIn] at hf
  rw [merged, hc, beforeFailure]
  cases hfail : source.failure with
  | none => rfl
  | some f =>
    have hlt := hf f hfail
    simp only [List.take_take, Nat.min_eq_left (Nat.le_of_lt hlt)]

theorem Source.merged_of_not_cancelled {α : Type} {source : Source α} {mode : Mode}
    (h : ∀ j, ¬(source.seenIn mode).CancelledAt j) : source.merged mode = source.beforeFailure := by
  rw [merged]
  split
  · rfl
  · next c hc =>
    -- a cancellation that nobody notices is asked for behind all updates, or behind the failure
    refine List.take_of_length_le (Nat.le_of_not_lt fun hlt => h c.toNat ⟨c, hc, rfl, ?_, ?_⟩)
    · rw [source.updates_seenIn]
      refine Nat.lt_of_lt_of_le hlt ?_
      unfold beforeFailure
      split
      · exact Nat.le_refl _
      · exact List.length_take_le' _ _
    · rintro ⟨after, f⟩ hf
      rw [source.failure_seenIn] at hf
      rw [Source.length_beforeFailure hf] at hlt
      omega

/-! ## The lines of the updates -/

/-- The line for the message that begins at a place of the stream. -/
def openedLine (s : Store) (us : List Update) (i j : Nat) : LogLine :=
  .opened (i + 1) (us[j]?.bind (·.messageId.text?))
    (s.labelText? (lastKnown ((us.take (j + 1)).map (·.role))))

/-- One line for each message that the updates begin, numbered from one. -/
def openedLines (s : Store) (us : List Update) : List LogLine :=
  (starts us).mapIdx (openedLine s us)

theorem length_openedLines (s : Store) (us : List Update) :
    (openedLines s us).length = (starts us).length := List.length_mapIdx

theorem openedLine_append {us : List Update} {j : Nat} (hj : j < us.length) (s : Store)
    (u : Update) (i : Nat) : openedLine s (us ++ [u]) i j = openedLine s us i j := by
  rw [openedLine, openedLine, List.getElem?_append_left hj, List.take_append_of_le_length hj]

theorem openedLines_append_singleton (s : Store) (us : List Update) (u : Update) :
    openedLines s (us ++ [u]) = openedLines s us ++
      if begins us u then
        [.opened ((starts us).length + 1) u.messageId.text?
          (s.labelText? (newer u.role (lastKnown (us.map (·.role)))))]
      else [] := by
  have hold : (starts us).mapIdx (openedLine s (us ++ [u])) = openedLines s us := by
    refine List.mapIdx_eq_mapIdx_iff.2 fun i hi => openedLine_append ?_ s u i
    exact lt_of_mem_starts (List.getElem_mem hi)
  rw [openedLines, starts_append_singleton, List.mapIdx_append, hold]
  congr 1
  cases begins us u with
  | false => rfl
  | true =>
    have htake : (us ++ [u]).take (us.length + 1) = us ++ [u] := List.take_of_length_le (by simp)
    simp only [List.mapIdx_cons, List.mapIdx_nil, if_true, openedLine, Nat.zero_add, htake,
      List.getElem?_concat_length, Option.bind_some, lastKnown_map_append_singleton]

/-- **One step.** An update is reported if it begins a message, in the newest role so far. -/
theorem feedLog_feedAll (s : Store) (us : List Update) (u : Update) :
    (feedAll s .empty us).feedLog s u =
      if begins us u then
        [.opened ((starts us).length + 1) u.messageId.text?
          (s.labelText? (newer u.role (lastKnown (us.map (·.role)))))]
      else [] := by
  have hall := describedAll_feedAll s us
  have hrole := hall.role_of_last
  rw [flatten_segments] at hrole
  rw [feedLog, (segmented_feedAll s us).opens_iff, hall.length_eq, length_segments, openingRole,
    hrole]

/-- **A run** over updates reports the messages that they begin. -/
theorem log_feedAll (s : Store) (merge : Bool) (us : List Update) :
    ((Progress.start merge).feedAll s us).log = openedLines s us := by
  induction us using List.reverseRecOn with
  | nil => rfl
  | append_singleton us u ih =>
    have hstep : ((Progress.start merge).feedAll s (us ++ [u])).log =
        ((Progress.start merge).feedAll s us).log ++
          ((Progress.start merge).feedAll s us).accumulator.response.feedLog s u := by
      rw [Progress.feedAll, List.foldl_concat]
      rfl
    rw [hstep, ih, Progress.start_feedAll_accumulator, feedLog_feedAll,
      openedLines_append_singleton]

/-! ## The end of a run -/

theorem length_coalesceMessages (s : Store) (ms : List Message) :
    (coalesceMessages s ms).result.length = ms.length := by
  induction ms with
  | nil => rfl
  | cons m ms ih =>
    rw [coalesceMessages]
    split
    · rw [Attempt.map, List.length_cons, ih, List.length_cons]
    · rfl

theorem length_messages_ofUpdates {s : Store} {us : List Update} {wanted : Bool} {r : Response}
    (h : ofUpdates s us wanted = .ok r) : r.messages.length = (starts us).length := by
  have hfold := (describedAll_feedAll s us).length_eq
  rw [length_segments] at hfold
  rw [ofUpdates, Attempt.checked] at h
  split at h
  · cases h
    rw [← hfold, Response.coalesced]
    split
    · exact length_coalesceMessages s _
    · rfl
  · cases h

/-- Where a run is when it ends, and whether something ended it: it has folded in the updates that
come before. -/
theorem run_merged (s : Store) (merge : Bool) (mode : Mode) (source : Source) :
    ((Progress.start merge).run s (source.seenIn mode).pulls).1.accumulator =
        { coalesce := .bool merge, updates := (source.merged mode).length,
          response := feedAll s .empty (source.merged mode) } ∧
      ((Progress.start merge).run s (source.seenIn mode).pulls).1.log =
        openedLines s (source.merged mode) := by
  by_cases hcancel : ∃ j, (source.seenIn mode).CancelledAt j
  · obtain ⟨j, hj⟩ := hcancel
    rw [Progress.run_of_cancelled hj, Source.merged_of_cancelled hj, source.updates_seenIn]
    exact ⟨Progress.start_feedAll_accumulator merge _, log_feedAll s merge _⟩
  · have hnot : ∀ j, ¬(source.seenIn mode).CancelledAt j := fun j hj => hcancel ⟨j, hj⟩
    rw [Progress.run_of_not_cancelled hnot, Source.merged_of_not_cancelled hnot,
      source.beforeFailure_seenIn]
    exact ⟨Progress.start_feedAll_accumulator merge _, log_feedAll s merge _⟩

/-! ## The attributes -/

/-- The values that were recorded under a name, in order. -/
def recorded (name : String) (events : List Event) : List Value :=
  events.filterMap fun
    | .set n v => if n = name then some v else none
    | _ => none

section
variable {name other : String} {events : List Event}

theorem recorded_append (name : String) (xs ys : List Event) :
    recorded name (xs ++ ys) = recorded name xs ++ recorded name ys := List.filterMap_append

theorem recorded_inReconstruction (mode : Mode) :
    recorded name (inReconstruction mode events) = recorded name events := by
  have hspan : inReconstruction mode events =
      [.start reconstructionSpan false [("tessera.operation.name", .text reconstructionSpan),
        ("tessera.reconstruct.mode", .text mode.name)]] ++ events ++
        [.finish reconstructionSpan] := rfl
  rw [hspan, recorded_append, recorded_append]
  exact List.append_nil _

theorem recorded_set (name other : String) (v : Value) :
    recorded name [.set other v] = if other = name then [v] else [] := by
  by_cases h : other = name <;> simp [recorded, h]

theorem recorded_setKnown (name other : String) (v : Value) :
    recorded name (setKnown other v) = if other = name ∧ v ≠ .null then [v] else [] := by
  by_cases h : v = .null
  · simp [setKnown, h, recorded]
  · simp [setKnown, h, recorded_set]

theorem recorded_setTrue_of_ne (s : Store) (h : other ≠ name) (v : Value) :
    recorded name (s.setTrue other v) = [] := by
  rw [Store.setTrue]
  split
  · rw [recorded_set, if_neg h]
  · rfl

theorem recorded_reasons (h : "gen_ai.response.finish_reasons" ≠ name) (reason : Option String) :
    recorded name (reason.map fun reason =>
      Event.set "gen_ai.response.finish_reasons" (.list [.text reason])).toList = [] := by
  cases reason with
  | none => rfl
  | some reason => exact (recorded_set name _ _).trans (if_neg h)

def messageCountName : String := "tessera.response.message_count"

def updateCountName : String := "tessera.update.count"

theorem recorded_responseEvents (s : Store) (r : Response) (n : Nat) :
    recorded messageCountName (responseEvents s r (.int n)) = [.int r.messages.length] ∧
      recorded updateCountName (responseEvents s r (.int n)) = [.int n] := by
  constructor
  · simp only [responseEvents, recorded_append, recorded_set, recorded_setKnown]
    rw [recorded_setTrue_of_ne s (by decide), recorded_setTrue_of_ne s (by decide),
      recorded_reasons (by decide)]
    simp [messageCountName]
  · simp only [responseEvents, recorded_append, recorded_set, recorded_setKnown]
    rw [recorded_setTrue_of_ne s (by decide), recorded_setTrue_of_ne s (by decide),
      recorded_reasons (by decide)]
    simp [updateCountName]

theorem recorded_failureEvents (f : Failure) :
    recorded messageCountName (failureEvents f) = [] ∧
      recorded updateCountName (failureEvents f) = [] := ⟨rfl, rfl⟩

end

/-! ## Runs -/

section
variable {s : Store} {tracing merge : Bool} {mode : Mode} {source : Source}

theorem merged_of_ok {r : Response}
    (h : (reconstruct s tracing mode merge source).outcome = .ok r) :
    source.merged mode = source.updates := by
  have hnot : ∀ j, ¬(source.seenIn mode).CancelledAt j := by
    intro j hj
    rw [(reconstruct_of_cancelled s tracing merge mode hj).1] at h
    cases h
  rw [Source.merged_of_not_cancelled hnot,
    Source.beforeFailure_of_none (reconstruct_ok s tracing merge mode h).1]

theorem reported_of_ok {r : Response}
    (h : (reconstruct s tracing mode merge source).outcome = .ok r) {p : Progress}
    (hp : ((Progress.start merge).run s (source.seenIn mode).pulls).1 = p) :
    (reconstruct s tracing mode merge source).log = p.log ++ [p.accumulator.finishedLog] ∧
      (tracing = true → (reconstruct s tracing mode merge source).events =
        inReconstruction mode (responseEvents s r (.int p.accumulator.updates))) := by
  subst hp
  simp only [reconstruct] at h ⊢
  generalize (Progress.start merge).run s (source.seenIn mode).pulls = ended at h ⊢
  obtain ⟨p, failure⟩ := ended
  cases failure with
  | some f => cases h
  | none =>
    simp only at h ⊢
    simp only [h]
    exact ⟨rfl, fun ht => if_pos ht⟩

/-- What a run that gives none reports at its end: a failure, and not even that if contents cannot
be put together. -/
theorem reported_of_error {f : Failure}
    (h : (reconstruct s tracing mode merge source).outcome = .error f) {p : Progress}
    (hp : ((Progress.start merge).run s (source.seenIn mode).pulls).1 = p) :
    (reconstruct s tracing mode merge source).log = p.log ∧
      ((reconstruct s tracing mode merge source).events = [] ∨
        (reconstruct s tracing mode merge source).events =
          inReconstruction mode (failureEvents f) ∨
        (reconstruct s tracing mode merge source).events = inReconstruction mode []) := by
  subst hp
  simp only [reconstruct] at h ⊢
  generalize (Progress.start merge).run s (source.seenIn mode).pulls = ended at h ⊢
  obtain ⟨p, failure⟩ := ended
  cases failure with
  | some g =>
    cases h
    refine ⟨List.append_nil _, ?_⟩
    cases tracing with
    | false => exact Or.inl rfl
    | true => exact Or.inr (Or.inl rfl)
  | none =>
    simp only at h ⊢
    simp only [h]
    refine ⟨List.append_nil _, ?_⟩
    cases tracing with
    | false => exact Or.inl rfl
    | true => exact Or.inr (Or.inr rfl)

end

/-- **The log and the span agree with the response.** A run reports one message for each update it
folds in that begins one. If it gives a response then it has folded in the whole stream, and it
reports the numbers of messages and updates at the end, in the log and in the span; there are as
many messages as it has reported before. A run that gives none reports neither number. -/
theorem reports_agree (s : Store) (tracing merge : Bool) (mode : Mode) (source : Source) :
    ((Progress.start merge).run s (source.seenIn mode).pulls).1.accumulator.response =
        feedAll s .empty (source.merged mode) ∧
      (∀ r, (reconstruct s tracing mode merge source).outcome = .ok r →
        source.merged mode = source.updates ∧
        r.messages.length = (openedLines s source.updates).length ∧
        (reconstruct s tracing mode merge source).log = openedLines s source.updates ++
          [.finalized r.messages.length source.updates.length] ∧
        (tracing = true →
          recorded messageCountName (reconstruct s tracing mode merge source).events =
            [.int r.messages.length] ∧
          recorded updateCountName (reconstruct s tracing mode merge source).events =
            [.int source.updates.length])) ∧
      ∀ f, (reconstruct s tracing mode merge source).outcome = .error f →
        (reconstruct s tracing mode merge source).log = openedLines s (source.merged mode) ∧
        recorded messageCountName (reconstruct s tracing mode merge source).events = [] ∧
        recorded updateCountName (reconstruct s tracing mode merge source).events = [] := by
  obtain ⟨hacc, hlog⟩ := run_merged s merge mode source
  refine ⟨congrArg (·.response) hacc, fun r hr => ?response, fun f hf => ?failure⟩
  case response =>
    have hall := merged_of_ok hr
    have hlength := length_messages_ofUpdates (reconstruct_ok s tracing merge mode hr).2
    have hfold := (describedAll_feedAll s source.updates).length_eq
    obtain ⟨hlast, hevents⟩ := reported_of_ok hr rfl
    rw [hall] at hacc hlog
    rw [hacc] at hlast hevents
    rw [length_segments] at hfold
    refine ⟨hall, by rw [hlength, length_openedLines], ?_, fun ht => ?_⟩
    · rw [hlast, hlog, Accumulator.finishedLog, hfold, hlength]
    · rw [hevents ht, recorded_inReconstruction, recorded_inReconstruction]
      exact recorded_responseEvents s r _
  case failure =>
    obtain ⟨hlast, hevents⟩ := reported_of_error hf rfl
    refine ⟨hlast.trans hlog, ?_⟩
    rcases hevents with hnone | hfail | hbare
    · rw [hnone]
      exact ⟨rfl, rfl⟩
    · rw [hfail, recorded_inReconstruction, recorded_inReconstruction]
      exact recorded_failureEvents f
    · rw [hbare, recorded_inReconstruction, recorded_inReconstruction]
      exact ⟨rfl, rfl⟩

/-- Three updates: the second has no id and comes with a role, the third begins another message. -/
def briefing : List Update :=
  [{ Update.blank with messageId := .text "" },
    { Update.blank with messageId := .text "a", role := .object .role [.text "assistant"] },
    { Update.blank with messageId := .text "b", contents := [plainText "Go."] }]

/-- The first line has the empty id that its update names, and no role; the other one has the role
of the message before it. A run that is cancelled before the third update reports one message
only. -/
theorem reports_agree_briefing :
    (∃ r, (reconstruct .empty true .async true { updates := briefing }).outcome = .ok r ∧
      r.messages.length = 2 ∧
      (reconstruct .empty true .async true { updates := briefing }).log =
        [.opened 1 (some "") none, .opened 2 (some "b") (some "assistant"), .finalized 2 3] ∧
      recorded updateCountName
        (reconstruct .empty true .async true { updates := briefing }).events = [.int 3]) ∧
      (reconstruct .empty true .async true { updates := briefing, cancelAt := some 2 }).log =
        [.opened 1 (some "") none] := by
  constructor
  · obtain ⟨-, hok, -⟩ := reports_agree .empty true true .async { updates := briefing }
    obtain ⟨-, hlength, hlog, hevents⟩ := hok _ rfl
    exact ⟨_, rfl, hlength, hlog, (hevents rfl).2⟩
  · obtain ⟨-, -, herror⟩ :=
      reports_agree .empty true true .async { updates := briefing, cancelAt := some 2 }
    exact (herror _ rfl).1

end Reassembly
