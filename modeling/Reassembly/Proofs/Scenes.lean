import Reassembly.Proofs.Endings
import Reassembly.Provider
import Reassembly.Transcript

/-!
# Runs as programs

A run takes updates, reports and tells a tracer one thing after the other, and any of its steps may
be the last one. Here it is written down as such a program: a span that is open is ended however the
program goes on, and a failure is noted in it and goes on. What the program does is what the run
says.

* `Program`: programs, and the ways to put them together.
* `Program.toResponse`, `Program.addUpdates`, `Program.complete`: the programs.
* `feedFrom_eq`: taking updates goes as far as `Progress.run` does.
* `perform_toResponse`, `perform_addUpdates`, `perform_complete`: they do what `reconstruct?`,
  `addUpdates` and `Provider.complete` say.
-/
namespace Reassembly

/-- What others can notice of a program. -/
structure Scene where
  pulled : Nat := 0
  log : List LogLine := []
  events : List Event := []

/-- A program that gives a value or fails. What has been noticed of it by then stays. -/
def Program (α : Type) : Type := Scene → Except Failure α × Scene

namespace Program

variable {α β : Type}

def done (a : α) : Program α := fun w => (.ok a, w)

def fail (f : Failure) : Program α := fun w => (.error f, w)

/-- One program after the other. Nothing comes after a failure. -/
def andThen (a : Program α) (next : α → Program β) : Program β := fun w =>
  match a w with
  | (.ok x, w) => next x w
  | (.error f, w) => (.error f, w)

/-- Notes a failure, which goes on. -/
def noting (a : Program α) (note : Failure → Program Unit) : Program α := fun w =>
  match a w with
  | (.ok x, w) => (.ok x, w)
  | (.error f, w) => (.error f, (note f w).2)

/-- An update is taken. -/
def take : Program Unit := fun w => (.ok (), { w with pulled := w.pulled + 1 })

def report (lines : List LogLine) : Program Unit := fun w =>
  (.ok (), { w with log := w.log ++ lines })

/-- Tells the tracer, if there is one. -/
def tell (tracing : Bool) (events : List Event) : Program Unit := fun w =>
  (.ok (), if tracing then { w with events := w.events ++ events } else w)

/-- Runs a program inside of a span, if there is a tracer. The span ends in any case. -/
def inside (tracing : Bool) (span : String) (client : Bool) (attributes : List (String × Value))
    (a : Program α) : Program α := fun w =>
  let (_, w) := tell tracing [.start span client attributes] w
  let (outcome, w) := a w
  (outcome, (tell tracing [.finish span] w).2)

/-- What a program does when nothing has been noticed yet. -/
def perform (a : Program α) : Run α :=
  let (outcome, w) := a {}
  { outcome, pulled := w.pulled, log := w.log, events := w.events }

/-! ## The programs -/

/-- Takes updates, and folds them in. -/
def feedFrom (s : Store) (a : Accumulator) : List Pull → Program Accumulator
  | [] => done a
  | .failure f :: _ => fail f
  | .update u cancelled :: pulls =>
    take.andThen fun _ =>
    if cancelled then fail .cancelled
    else (report (a.response.feedLog s u)).andThen fun _ => feedFrom s (a.feed s u) pulls

/-- Hands the response over. -/
def finish (s : Store) (a : Accumulator) : Program Response :=
  match (a.finished s).checked with
  | .error ps => fail (.invalid ps)
  | .ok r => (report [a.finishedLog]).andThen fun _ => done r

def toResponse (s : Store) (tracing : Bool) (mode : Mode) (merge : Bool) :
    Option Source → Program Response
  | none => fail (.absent .updates)
  | some source =>
    inside tracing reconstructionSpan false
      [("tessera.operation.name", .text reconstructionSpan),
        ("tessera.reconstruct.mode", .text mode.name)]
      (((feedFrom s (.new (.bool merge)) (source.seenIn mode).pulls).noting fun f =>
        tell tracing (failureEvents f)).andThen fun a =>
      (finish s a).andThen fun r =>
      (tell tracing (responseEvents s r (.int a.updates))).andThen fun _ => done r)

def addUpdates (s : Store) (tracing : Bool) (present : Bool) (mode : Mode) (sized : Bool)
    (source : Option Source) : Program (List Message) :=
  if !present then fail (.absent .messages)
  else
    match source with
    | none => fail (.absent .updates)
    | some source =>
      if mode = .sync && sized && source.updates.isEmpty then done []
      else (toResponse s tracing mode true (some source)).andThen fun r => done r.messages

def complete (s : Store) (tracing : Bool) (p : Provider) (model : Value) : Program Response :=
  (inside tracing ("chat " ++ model.written) true
    [("gen_ai.operation.name", .text "chat"), ("gen_ai.provider.name", p.name),
      ("gen_ai.request.model", model)]
    (toResponse s tracing .async true (some p.source))).andThen fun r =>
  (report [.completed p.name.written model.written r.messages.length]).andThen fun _ => done r

/-! ## What they do -/

/-- **Taking updates** goes as far as the consumer of the source comes. -/
theorem feedFrom_eq (s : Store) (pulls : List Pull) (p : Progress) (events : List Event) :
    feedFrom s p.accumulator pulls ⟨p.pulled, p.log, events⟩ =
      match p.run s pulls with
      | (q, none) => (.ok q.accumulator, ⟨q.pulled, q.log, events⟩)
      | (q, some f) => (.error f, ⟨q.pulled, q.log, events⟩) := by
  induction pulls generalizing p with
  | nil => rfl
  | cons pull pulls ih =>
    cases pull with
    | failure f => rfl
    | update u cancelled =>
      cases cancelled with
      | true => rfl
      | false => exact ih (p.take.feed s u)

/-- Whatever the tracer has heard before, it hears the events of the run after it. -/
theorem toResponse_eq (s : Store) (tracing : Bool) (mode : Mode) (merge : Bool)
    (source : Option Source) (events : List Event) :
    let r := reconstruct? s tracing mode merge source
    toResponse s tracing mode merge source { events } =
      (r.outcome, ⟨r.pulled, r.log, events ++ r.events⟩) := by
  cases source with
  | none => simp [toResponse, fail, reconstruct?, Run.refused]
  | some source =>
    have taken := feedFrom_eq s (source.seenIn mode).pulls (.start merge)
    obtain ⟨⟨p, failure⟩, hrun⟩ : ∃ last, (Progress.start merge).run s (source.seenIn mode).pulls =
      last := ⟨_, rfl⟩
    simp only [reconstruct?, reconstruct, hrun] at taken ⊢
    simp only [Progress.start] at taken
    cases failure with
    | some f =>
      cases tracing <;>
        simp [toResponse, inside, noting, andThen, tell, taken, inReconstruction, inSpan,
          Except.isOk, Except.toBool]
    | none =>
      cases hfinished : (p.accumulator.finished s).checked <;> cases tracing <;>
        simp [toResponse, inside, noting, andThen, tell, taken, finish, hfinished, report, done,
          fail, inReconstruction, inSpan, Checked.orFail, Except.isOk, Except.toBool]

theorem perform_toResponse (s : Store) (tracing : Bool) (mode : Mode) (merge : Bool)
    (source : Option Source) :
    (toResponse s tracing mode merge source).perform =
      reconstruct? s tracing mode merge source := by
  rw [perform, toResponse_eq]
  rfl

theorem perform_andThen_done (a : Program α) (f : α → β) :
    (a.andThen fun x => done (f x)).perform = a.perform.map f := by
  simp only [perform, andThen, Run.map]
  split <;> rename_i h <;> rw [h] <;> rfl

theorem perform_addUpdates (s : Store) (tracing present : Bool) (mode : Mode) (sized : Bool)
    (source : Option Source) :
    (addUpdates s tracing present mode sized source).perform =
      Reassembly.addUpdates s tracing present mode sized source := by
  cases present with
  | false => rfl
  | true =>
    cases source with
    | none => rfl
    | some source =>
      have hprogram : addUpdates s tracing true mode sized (some source) =
        if mode = .sync && sized && source.updates.isEmpty then done []
        else (toResponse s tracing mode true (some source)).andThen fun r => done r.messages := rfl
      have hrun : Reassembly.addUpdates s tracing true mode sized (some source) =
        if mode = .sync && sized && source.updates.isEmpty then { outcome := .ok [] }
        else (reconstruct s tracing mode true source).map (·.messages) := rfl
      rw [hprogram, hrun]
      split
      · rfl
      · rw [perform_andThen_done, perform_toResponse]
        rfl

theorem perform_complete (s : Store) (tracing : Bool) (p : Provider) (model : Value) :
    (complete s tracing p model).perform = p.complete s tracing model := by
  have made := toResponse_eq s tracing .async true (some p.source)
  have off : (reconstruct s false .async true p.source).events = [] := rfl
  simp only [reconstruct?] at made
  cases houtcome : (reconstruct s tracing .async true p.source).outcome <;> cases tracing <;>
    simp [perform, complete, Provider.complete, inside, andThen, tell, made, houtcome, off, report,
      done, completionEvents, inSpan]

end Program

end Reassembly
