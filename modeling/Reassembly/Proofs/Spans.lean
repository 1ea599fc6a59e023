import Reassembly.Proofs.Scenes

/-!
# What a tracer hears

A tracer hears of spans, and of what is recorded on them. Reading its events with a stack of open
spans shows whether each span ends, the innermost one first, and on which span everything is. All
that the library records is on the span of a reconstruction: what is known of the response, or why
there is none. Nobody but the tracer notices whether there is one.

* `readSpans`: what has been recorded on which span.
* `Reads`: reading some events first and then the rest; `reads_marks`, `Reads.inSpan`.
* `reconstruct_events`: the events of a reconstruction, for each way in which it can end.
* `tracing_transparent`: tracing is not noticed, and its spans are in order.
-/
namespace Reassembly

/-! ## Reading events -/

/-- Recorded on a span. -/
def Event.isMark : Event → Bool
  | .set _ _ | .errorStatus _ | .exception _ _ => true
  | .tracer _ | .start _ _ _ | .finish _ => false

/-- What is recorded on which span, when these spans are open, the innermost one first. There is no
answer if a span ends that is not the innermost, or never ends, or if something is recorded outside
of all spans. -/
def readSpans : List String → List Event → Option (List (String × Event))
  | [], [] => some []
  | _ :: _, [] => none
  | opened, .tracer _ :: es => readSpans opened es
  | opened, .start span _ _ :: es => readSpans (span :: opened) es
  | [], _ :: _ => none
  | innermost :: opened, .finish span :: es =>
    if span = innermost then readSpans opened es else none
  | innermost :: opened, mark :: es =>
    (readSpans (innermost :: opened) es).map ((innermost, mark) :: ·)

/-- The events leave the open spans as they are, and record these marks. -/
def Reads (opened : List String) (events : List Event) (marks : List (String × Event)) : Prop :=
  ∀ rest, readSpans opened (events ++ rest) = (readSpans opened rest).map (marks ++ ·)

section
variable {opened : List String} {events : List Event} {marks : List (String × Event)}

theorem Reads.read (h : Reads [] events marks) : readSpans [] events = some marks := by
  simpa [readSpans] using h []

theorem reads_marks {es : List Event} (h : ∀ e ∈ es, e.isMark = true) (span : String)
    (opened : List String) : Reads (span :: opened) es (es.map (span, ·)) := by
  intro rest
  induction es with
  | nil => simp
  | cons e es ih =>
    obtain ⟨he, hes⟩ := List.forall_mem_cons.1 h
    have hstep : readSpans (span :: opened) (e :: (es ++ rest)) =
        (readSpans (span :: opened) (es ++ rest)).map ((span, e) :: ·) := by
      cases e <;> first | rfl | cases he
    rw [List.cons_append, hstep, ih hes, Option.map_map]
    rfl

/-- A span of its own leaves the others open. -/
theorem Reads.inSpan {span : String} (h : Reads (span :: opened) events marks) (client : Bool)
    (attributes : List (String × Value)) :
    Reads opened (inSpan span client attributes events) marks := by
  intro rest
  simp only [Reassembly.inSpan, List.cons_append, List.append_assoc, readSpans]
  rw [h]
  simp [readSpans]

end

/-! ## What is recorded -/

theorem responseEvents_set (s : Store) (r : Response) (updates : Value) :
    ∀ e ∈ responseEvents s r updates, ∃ name v, e = .set name v := by
  have known : ∀ name v, ∀ e ∈ setKnown name v, ∃ name v, e = .set name v := by
    intro name v e he
    unfold setKnown at he
    split at he
    · cases he
    · exact ⟨name, v, List.mem_singleton.1 he⟩
  have truth : ∀ name v, ∀ e ∈ s.setTrue name v, ∃ name v, e = .set name v := by
    intro name v e he
    unfold Store.setTrue at he
    split at he
    · exact ⟨name, v, List.mem_singleton.1 he⟩
    · cases he
  intro e he
  simp only [responseEvents, List.mem_append, List.mem_singleton, Option.mem_toList,
    Option.map_eq_some_iff] at he
  rcases he with (((((rfl | he) | he) | he) | he) | he) | ⟨reason, -, rfl⟩
  · exact ⟨_, _, rfl⟩
  · exact known _ _ e he
  · exact known _ _ e he
  · exact known _ _ e he
  · exact truth _ _ e he
  · exact truth _ _ e he
  · exact ⟨_, _, rfl⟩

theorem responseEvents_eq (s : Store) (r : Response) (n : Int) :
    responseEvents s r (.int n) =
      [.set "tessera.response.message_count" (.int r.messages.length),
        .set "tessera.update.count" (.int n)] ++
      (if (s.usage r.usage).input = .null then []
        else [.set "gen_ai.usage.input_tokens" (s.usage r.usage).input]) ++
      (if (s.usage r.usage).output = .null then []
        else [.set "gen_ai.usage.output_tokens" (s.usage r.usage).output]) ++
      (if s.isTrue r.model then [.set "gen_ai.response.model" r.model] else []) ++
      (if s.isTrue r.id then [.set "gen_ai.response.id" r.id] else []) ++
      (s.labelText? r.finish).elim []
        fun reason => [.set "gen_ai.response.finish_reasons" (.list [.text reason])] := by
  have known : setKnown "tessera.update.count" (.int n) = [.set "tessera.update.count" (.int n)] :=
    if_neg nofun
  rw [responseEvents, known]
  cases s.labelText? r.finish <;> rfl

theorem isMark_responseEvents (s : Store) (r : Response) (updates : Value) :
    ∀ e ∈ responseEvents s r updates, e.isMark = true := by
  intro e he
  obtain ⟨name, v, rfl⟩ := responseEvents_set s r updates e he
  rfl

theorem isMark_failureEvents (f : Failure) : ∀ e ∈ failureEvents f, e.isMark = true := by
  simp [failureEvents, Event.isMark]

/-- The marks on the span of a reconstruction that ends this way: by a cancellation, by a failure of
its source, or with a response, as it does if the updates are well formed. -/
structure Marked (s : Store) (mode : Mode) (source : Source) (outcome : Except Failure Response)
    (marks : List Event) : Prop where
  isMark : ∀ e ∈ marks, e.isMark = true
  cancelled : ∀ j, (source.seenIn mode).CancelledAt j →
    outcome = .error .cancelled ∧ marks = failureEvents .cancelled
  failed : (∀ j, ¬(source.seenIn mode).CancelledAt j) → ∀ after f,
    source.failure = some (after, f) → outcome = .error f ∧ marks = failureEvents f
  responds : (∀ j, ¬(source.seenIn mode).CancelledAt j) → source.failure = none →
    (∀ u ∈ source.updates, s.formed .update u.toValue = true) → ∃ r, outcome = .ok r
  finished : ∀ r, outcome = .ok r → marks = responseEvents s r (.int source.updates.length)

/-- **The events of a reconstruction** are those of one span with its marks. -/
theorem reconstruct_events (s : Store) (mode : Mode) (merge : Bool) (source : Source) :
    ∃ marks, (reconstruct s true mode merge source).events = inReconstruction mode marks ∧
      Marked s mode source (reconstruct s true mode merge source).outcome marks := by
  by_cases hcancel : ∃ j, (source.seenIn mode).CancelledAt j
  · obtain ⟨j, hj⟩ := hcancel
    have hrun := Progress.run_of_cancelled (s := s) (p := .start merge) hj
    have hend := (reconstruct_of_cancelled s true merge mode hj).1
    exact ⟨failureEvents .cancelled, by simp [reconstruct, hrun], isMark_failureEvents _,
      fun _ _ => ⟨hend, rfl⟩, fun hnot => absurd hj (hnot j), fun hnot => absurd hj (hnot j),
      fun r hr => by simp [hend] at hr⟩
  · have hnot : ∀ j, ¬(source.seenIn mode).CancelledAt j := fun j hj => hcancel ⟨j, hj⟩
    have hrun := Progress.run_of_not_cancelled (s := s) (p := .start merge) hnot
    rw [source.failure_seenIn, source.beforeFailure_seenIn] at hrun
    cases hf : source.failure with
    | some failure =>
      obtain ⟨after, f⟩ := failure
      have hend := (reconstruct_of_failure s true merge mode hnot hf).1
      rw [hf] at hrun
      refine ⟨failureEvents f, by simp [reconstruct, hrun], isMark_failureEvents _,
        fun j hj => absurd hj (hnot j), fun _ after' g hg => ?_, fun _ hnone => ?_,
        fun r hr => by simp [hend] at hr⟩
      · rw [hf] at hg
        cases hg
        exact ⟨hend, rfl⟩
      · rw [hf] at hnone
        cases hnone
    | none =>
      rw [hf, Source.beforeFailure_of_none hf] at hrun
      have hupdates : ((Progress.start merge).feedAll s source.updates).accumulator.updates =
          source.updates.length := by
        rw [Progress.start_feedAll_accumulator]
      have hresponds : (∀ u ∈ source.updates, s.formed .update u.toValue = true) →
          ∃ r, (reconstruct s true mode merge source).outcome = .ok r := fun hu =>
        ⟨_, (reconstruct_of_success s true merge mode hnot hf).1.trans (congrArg Checked.orFail
          (ofUpdates_of_formed (fun u h => formed_update_iff.1 (hu u h)) merge))⟩
      simp only [reconstruct, hrun, Option.map_none, hupdates] at hresponds ⊢
      refine ⟨_, rfl, ?_, fun j hj => absurd hj (hnot j), fun _ after f hfail => ?_,
        fun _ _ => hresponds, fun r hr => ?_⟩
      · split
        · next h => cases h
        · exact isMark_responseEvents s _ _
        · simp
      · rw [hf] at hfail
        cases hfail
      · rw [hr]

theorem reads_reconstruction {marks : List Event} (h : ∀ e ∈ marks, e.isMark = true) (mode : Mode)
    (opened : List String) :
    Reads opened (inReconstruction mode marks) (marks.map (reconstructionSpan, ·)) :=
  (reads_marks h reconstructionSpan opened).inSpan false _

/-! ## All runs -/

/-- Only the tracer notices whether there is one. -/
def Run.untraced {α : Type} (r : Run α) : Run α := { r with events := [] }

/-- **Tracing is not noticed, and its spans are in order.** Reconstruction, adding updates to a list
and completing a call take as many updates, report the same and end the same way with and without a
tracer. What the tracer hears comes from programs that end every span that they start. A run without
a source starts none. Every other one has one span for its reconstruction, and on it is recorded
what is known of the response, or else once why there is none; and around it that of the call, if it
is one. -/
theorem tracing_transparent (s : Store) :
    (∀ mode merge source, reconstruct? s false mode merge source =
      (reconstruct? s true mode merge source).untraced) ∧
    (∀ present mode sized source, addUpdates s false present mode sized source =
      (addUpdates s true present mode sized source).untraced) ∧
    (∀ (p : Provider) model, p.complete s false model = (p.complete s true model).untraced) ∧
    (∀ messages present mode sized source,
      grow messages ((addUpdates s false present mode sized source).outcome.map
          (·.map Message.toValue)) =
        grow messages ((addUpdates s true present mode sized source).outcome.map
          (·.map Message.toValue))) ∧
    (∀ tracing mode merge source, (Program.toResponse s tracing mode merge source).perform =
      reconstruct? s tracing mode merge source) ∧
    (∀ tracing present mode sized source,
      (Program.addUpdates s tracing present mode sized source).perform =
        addUpdates s tracing present mode sized source) ∧
    (∀ tracing p model, (Program.complete s tracing p model).perform = p.complete s tracing model) ∧
    (∀ mode merge, (reconstruct? s true mode merge none).events = []) ∧
    (∀ present mode sized source, present = false ∨ source = none →
      (addUpdates s true present mode sized source).events = []) ∧
    (∀ mode merge source, ∃ marks,
      Marked s mode source (reconstruct s true mode merge source).outcome marks ∧
      readSpans [] (reconstruct? s true mode merge (some source)).events =
        some (marks.map (reconstructionSpan, ·))) ∧
    (∀ mode sized source, ∃ marks,
      Marked s mode source (reconstruct s true mode true source).outcome marks ∧
      readSpans [] (addUpdates s true true mode sized (some source)).events =
        some (if mode = .sync && sized && source.updates.isEmpty then []
          else marks.map (reconstructionSpan, ·))) ∧
    (∀ (p : Provider) model, ∃ marks,
      Marked s .async p.source (p.complete s true model).outcome marks ∧
      (p.complete s true model).events = completionEvents p.name model
        (inReconstruction .async marks) ∧
      readSpans [] (p.complete s true model).events =
        some (marks.map (reconstructionSpan, ·))) ∧
    (∀ f, failureEvents f =
      [.errorStatus f.message, .exception f.kind f.message, .set "error.type" (.text f.kind)]) ∧
    (∀ r n, responseEvents s r (.int n) =
      [.set "tessera.response.message_count" (.int r.messages.length),
        .set "tessera.update.count" (.int n)] ++
      (if (s.usage r.usage).input = .null then []
        else [.set "gen_ai.usage.input_tokens" (s.usage r.usage).input]) ++
      (if (s.usage r.usage).output = .null then []
        else [.set "gen_ai.usage.output_tokens" (s.usage r.usage).output]) ++
      (if s.isTrue r.model then [.set "gen_ai.response.model" r.model] else []) ++
      (if s.isTrue r.id then [.set "gen_ai.response.id" r.id] else []) ++
      (s.labelText? r.finish).elim []
        fun reason => [.set "gen_ai.response.finish_reasons" (.list [.text reason])]) ∧
    ∀ r updates, ∀ e ∈ responseEvents s r updates, ∃ name v, e = .set name v := by
  have hadded : ∀ tracing mode sized source, addUpdates s tracing true mode sized (some source) =
      if mode = .sync && sized && source.updates.isEmpty then { outcome := .ok [] }
      else (reconstruct s tracing mode true source).map (·.messages) := fun _ _ _ _ => rfl
  have adding : ∀ present mode sized source, addUpdates s false present mode sized source =
      (addUpdates s true present mode sized source).untraced := by
    intro present mode sized source
    cases present with
    | false => rfl
    | true =>
      cases source with
      | none => rfl
      | some source =>
        rw [hadded, hadded]
        split <;> rfl
  refine ⟨fun mode merge source => ?unnoticed, adding, fun _ _ => rfl, fun _ _ _ _ _ => ?grown,
    Program.perform_toResponse s, Program.perform_addUpdates s, Program.perform_complete s,
    fun _ _ => rfl, fun present mode sized source hnone => ?nothing,
    fun mode merge source => ?reconstruction, fun mode sized source => ?added,
    fun p model => ?completion, fun _ => rfl, responseEvents_eq s, responseEvents_set s⟩
  case unnoticed => cases source <;> rfl
  case grown =>
    rw [adding]
    rfl
  case nothing =>
    rcases hnone with rfl | rfl
    · rfl
    · cases present <;> rfl
  case reconstruction =>
    obtain ⟨marks, hevents, hmarked⟩ := reconstruct_events s mode merge source
    refine ⟨marks, hmarked, ?_⟩
    rw [reconstruct?, hevents]
    exact (reads_reconstruction hmarked.isMark mode []).read
  case added =>
    obtain ⟨marks, hevents, hmarked⟩ := reconstruct_events s mode true source
    refine ⟨marks, hmarked, ?_⟩
    rw [hadded]
    split
    · rfl
    · rw [Run.map, hevents]
      exact (reads_reconstruction hmarked.isMark mode []).read
  case completion =>
    obtain ⟨marks, hevents, hmarked⟩ := reconstruct_events s .async true p.source
    have hcall : (p.complete s true model).events =
        completionEvents p.name model (inReconstruction .async marks) := by
      rw [← hevents]
      rfl
    refine ⟨marks, hmarked, hcall, ?_⟩
    rw [hcall]
    exact ((reads_reconstruction hmarked.isMark .async _).inSpan true _).read

/-- A stream that brings all that is recorded of a response. -/
def forecast : Source where
  updates :=
    [{ Update.blank with
        contents := [plainText "Rain", usageItem (.object .details [.int 7, .int 5, .null, .null])]
        responseId := .text "r-1"
        model := .text "m-2" },
      { Update.blank with finish := .object .finish [.text "length"] }]

/-- The tracer hears of a response and what is known of it, of a cancellation, and of a provider
without a stream. -/
theorem tracing_transparent_midway :
    readSpans [] (reconstruct? .empty true .sync true (some forecast)).events =
        some [(reconstructionSpan, .set "tessera.response.message_count" (.int 1)),
          (reconstructionSpan, .set "tessera.update.count" (.int 2)),
          (reconstructionSpan, .set "gen_ai.usage.input_tokens" (.int 7)),
          (reconstructionSpan, .set "gen_ai.usage.output_tokens" (.int 5)),
          (reconstructionSpan, .set "gen_ai.response.model" (.text "m-2")),
          (reconstructionSpan, .set "gen_ai.response.id" (.text "r-1")),
          (reconstructionSpan,
            .set "gen_ai.response.finish_reasons" (.list [.text "length"]))] ∧
      readSpans [] (reconstruct? .empty true .async true (some midway)).events =
        some [(reconstructionSpan, .errorStatus "response reconstruction cancelled"),
          (reconstructionSpan,
            .exception "CancelledError" "response reconstruction cancelled"),
          (reconstructionSpan, .set "error.type" (.text "CancelledError"))] ∧
      (∀ present, (addUpdates .empty true present .sync false none).events = []) ∧
      readSpans [] (Provider.complete .empty true { className := "Mute", stream := none }
        (.text "m")).events =
          some ((failureEvents (.noStream "Mute")).map (reconstructionSpan, ·)) := by
  obtain ⟨-, -, -, -, -, -, -, -, nothing, reconstruction, -, completion, failed, finished, -⟩ :=
    tracing_transparent .empty
  have hmidway : (midway.seenIn .async).CancelledAt 1 := by
    refine ⟨1, rfl, rfl, by decide, fun f hf => ?_⟩
    cases hf
    decide
  refine ⟨?_, ?_, fun present => nothing present .sync false none (.inr rfl), ?_⟩
  · obtain ⟨marks, hmarked, hread⟩ := reconstruction .sync true forecast
    have hresponse : (reconstruct .empty true .sync true forecast).outcome =
        .ok (Response.feedAll .empty .empty forecast.updates) := by decide
    rw [hread, hmarked.finished _ hresponse, finished]
    decide
  · obtain ⟨marks, hmarked, hread⟩ := reconstruction .async true midway
    rw [hread, (hmarked.cancelled 1 hmidway).2, failed]
    rfl
  · obtain ⟨marks, hmarked, -, hread⟩ :=
      completion { className := "Mute", stream := none } (.text "m")
    rw [hread, (hmarked.failed (Source.not_cancelledAt_of_none rfl) 0 _ rfl).2]

end Reassembly
