import Reassembly.Accumulator

/-!
# Sources of updates

A source yields a list of updates one by one. It may fail after some of them, and the cancellation
of the stream may be asked for at some point. `Source.pulls` is what the consumer sees: one entry
for each time that it asks for an update. The updates are read already, or they are values of a
store.

* `Progress.run`: takes updates until the source ends, fails, or cancellation is noticed, which
  happens between taking an update and folding it in.
* `run_updates`: a source that neither fails nor is cancelled is folded in as a whole.
-/
namespace Reassembly

structure Source (α : Type := Update) where
  updates : List α
  /-- after how many updates the source fails, at the end if it has fewer, and why -/
  failure : Option (Nat × Failure) := none
  /-- the number of the update just before which cancellation is asked for, counted from 0 -/
  cancelAt : Option Int := none
deriving Repr

/-- What asking for an update gives. -/
inductive Pull (α : Type := Update) where
  /-- an update, and whether cancellation has been asked for -/
  | update (u : α) (cancelled : Bool)
  | failure (f : Failure)
deriving Repr

namespace Source

variable {α β : Type}

/-- The source with something done to each update. -/
def map (f : α → β) (source : Source α) : Source β :=
  { updates := source.updates.map f, failure := source.failure, cancelAt := source.cancelAt }

/-- Cancellation has been asked for when update number `n` arrives. -/
def cancelledBy (source : Source α) (n : Nat) : Bool :=
  match source.cancelAt with
  | some c => decide (c ≤ n)
  | none => false

/-- The failure that stands in the place of update number `n`. -/
def failureBefore (source : Source α) (n : Nat) : Option Failure :=
  source.failure.bind fun (after, f) => if after ≤ n then some f else none

def pullsFrom (source : Source α) (n : Nat) : List α → List (Pull α)
  | [] => (source.failure.map fun f => .failure f.2).toList
  | u :: us =>
    match source.failureBefore n with
    | some f => [.failure f]
    | none => .update u (source.cancelledBy n) :: pullsFrom source (n + 1) us

def pulls (source : Source α) : List (Pull α) := source.pullsFrom 0 source.updates

end Source

/-- How far a consumer has come. -/
structure Progress where
  accumulator : Accumulator
  /-- updates taken from the source -/
  pulled : Nat
  log : List LogLine

namespace Progress

def start (coalesce : Bool) : Progress := ⟨.new (.bool coalesce), 0, []⟩

def take (p : Progress) : Progress := { p with pulled := p.pulled + 1 }

def feed (s : Store) (p : Progress) (u : Update) : Progress :=
  { p with
    accumulator := p.accumulator.feed s u
    log := p.log ++ p.accumulator.response.feedLog s u }

/-- One step of the consumer: the new progress, and a failure if it ends the run. -/
def step (s : Store) (p : Progress) : Pull → Progress × Option Failure
  | .failure f => (p, some f)
  | .update u cancelled =>
    if cancelled then (p.take, some .cancelled) else (p.take.feed s u, none)

/-- Consumes a source. -/
def run (s : Store) (p : Progress) : List Pull → Progress × Option Failure
  | [] => (p, none)
  | pull :: pulls =>
    match p.step s pull with
    | (p, some f) => (p, some f)
    | (p, none) => run s p pulls

/-- Takes and folds in all updates of a list. -/
def feedAll (s : Store) (p : Progress) (us : List Update) : Progress :=
  us.foldl (fun p u => p.take.feed s u) p

theorem run_updates (s : Store) (p : Progress) (us : List Update) :
    p.run s (us.map (.update · false)) = (p.feedAll s us, none) := by
  induction us generalizing p with
  | nil => rfl
  | cons u us ih => simp [run, step, ih, feedAll]

end Progress

end Reassembly
