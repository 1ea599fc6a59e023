import Reassembly.Source

/-!
# Reconstruction

One run over a source: the response or the failure it ends with, how many updates were taken, and
what was reported on the way. There is no partial response: a run that fails has none.

* `reconstruct`: the run.
* `Store.toResponse`: the run on objects of a store, which leaves the response in it.
* `reconstruct_without_tracing`: tracing changes nothing but the events.
* `reconstruct_list`: a list of updates gives the response that its fold makes.
-/
namespace Reassembly

/-- What a run over a source gives. -/
structure Run (α : Type) where
  outcome : Except Failure α
  pulled : Nat := 0
  log : List LogLine := []
  events : List Event := []

namespace Run

/-- A run that was refused before it began. -/
def refused {α : Type} (f : Failure) : Run α := { outcome := .error f }

def map {α β : Type} (f : α → β) (r : Run α) : Run β := { r with outcome := r.outcome.map f }

end Run

/-- The source as the mode sees it: nobody cancels a synchronous run. -/
def Source.seenIn {α : Type} (source : Source α) : Mode → Source α
  | .sync => { source with cancelAt := none }
  | .async => source

/-- Combines the updates of a source into a response; mirrors `to_response` and `to_response_async`.
A failure of the source is recorded in the span; a response that cannot be finished is not. -/
def reconstruct (s : Store) (tracing : Bool) (mode : Mode) (merge : Bool) (source : Source) :
    Run Response :=
  let (p, failure) := (Progress.start merge).run s (source.seenIn mode).pulls
  let finished := (p.accumulator.finished s).checked.orFail
  let outcome : Except Failure Response :=
    match failure with
    | some f => .error f
    | none => finished
  { outcome
    pulled := p.pulled
    log := p.log ++ (if outcome.isOk then [p.accumulator.finishedLog] else [])
    events :=
      if tracing then
        inReconstruction mode
          (match failure, finished with
            | some f, _ => failureEvents f
            | none, .ok r => responseEvents s r (.int p.accumulator.updates)
            | none, .error _ => [])
      else [] }

/-- As `reconstruct`, for a source that may be missing. -/
def reconstruct? (s : Store) (tracing : Bool) (mode : Mode) (merge : Bool) :
    Option Source → Run Response
  | none => .refused (.absent .updates)
  | some source => reconstruct s tracing mode merge source

theorem reconstruct_without_tracing (s : Store) (mode : Mode) (merge : Bool) (source : Source) :
    reconstruct s false mode merge source =
      { reconstruct s true mode merge source with events := [] } := rfl

theorem pullsFrom_list (us all : List Update) (n : Nat) :
    ({ updates := all } : Source).pullsFrom n us = us.map (.update · false) := by
  induction us generalizing n with
  | nil => rfl
  | cons u us ih =>
    simp [Source.pullsFrom, Source.failureBefore, Source.cancelledBy, ih]

theorem Progress.feedAll_accumulator (s : Store) (p : Progress) (us : List Update) :
    (p.feedAll s us).accumulator =
      { p.accumulator with
        updates := p.accumulator.updates + us.length
        response := p.accumulator.response.feedAll s us } := by
  induction us generalizing p with
  | nil => simp [feedAll, Response.feedAll]
  | cons u us ih =>
    have h := ih (p.take.feed s u)
    simp only [feedAll, List.foldl_cons, Response.feedAll] at h ⊢
    rw [h]
    simp only [feed, take, Accumulator.feed, List.length_cons, Int.natCast_add, Int.cast_ofNat_Int]
    congr 1
    omega

theorem reconstruct_list (s : Store) (tracing : Bool) (mode : Mode) (merge : Bool)
    (us : List Update) :
    (reconstruct s tracing mode merge { updates := us }).outcome =
      (Response.ofUpdates s us merge).orFail := by
  have hp : (({ updates := us } : Source).seenIn mode).pulls = us.map (.update · false) := by
    cases mode <;> exact pullsFrom_list us us 0
  simp only [reconstruct, hp, Progress.run_updates, Accumulator.finished,
    Progress.feedAll_accumulator]
  cases merge <;> rfl

/-! ## In a store -/

namespace Store

/-- Feeds an accumulator what the consumer of a source sees, up to the failure that ends it. -/
def consume (s : Store) (accumulator : Value) : List (Pull Value) → Store × Option Failure
  | [] => (s, none)
  | .failure f :: _ => (s, some f)
  | .update u cancelled :: pulls =>
    if cancelled then (s, some .cancelled) else (s.feed accumulator u).consume accumulator pulls

/-- Combines the updates of a source into a response, with an accumulator of its own. -/
def toResponse (s : Store) (mode : Mode) (coalesce : Value) (source : Source Value) :
    Store × Except Failure Value :=
  let (s, accumulator) := s.intern (Accumulator.new coalesce).toValue
  match s.consume accumulator (source.seenIn mode).pulls with
  | (s, some f) => (s, .error f)
  | (s, none) =>
    let (s, response) := s.finalize accumulator
    (s, response.orFail)

end Store

end Reassembly
