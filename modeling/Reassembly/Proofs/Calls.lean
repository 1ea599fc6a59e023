import Reassembly.Proofs.Leading
import Reassembly.Proofs.Turns

/-!
# Calls that wait

A call that adds a stream to a list of messages waits for each update. While it waits, others go on:
other such calls, calls that add at once, and whoever makes objects. Between two of its updates it
keeps nothing but its accumulator.

* `Stage`, `Store.beginAdding`, `Store.advance`: such a call, from one update to the next.
* `Meeting`, `Move`, `Meeting.run`: any number of calls, in any order, with an account of those that
  have added something.
* `pulls_eq`, `atOnce_updates`: a call that nobody interrupts does what `Store.add` does.
* `Meeting.aside`: the cells that are written to, and what leads to them.
* `Meeting.Allows`: what goes in does not lead there.
-/
namespace Reassembly

open Store

/-! ## One call -/

/-- How far a call has come. -/
inductive Stage where
  /-- It waits for an update. -/
  | taking (accumulator : Value) (pulls : List (Pull Value))
  | ended (outcome : Except Failure Value)

namespace Stage

/-- The call has added what it had to add. -/
def isDone : Stage → Bool
  | .ended (.ok _) => true
  | _ => false

/-- What is put on the account when call number `n` has come this far. -/
def entry (n : Nat) (stage : Stage) : List Nat := if stage.isDone then [n] else []

/-- The cells that the call will write to on its way. -/
def cells : Stage → List Nat
  | .taking accumulator _ => accumulator.refs
  | .ended _ => []

/-- What the source of the call has yet to answer. -/
def pulls : Stage → List (Pull Value)
  | .taking _ pulls => pulls
  | .ended _ => []

/-- The update that the call is about to fold in. -/
def next? : Stage → Option Value
  | .taking _ (.update u false :: _) => some u
  | _ => none

end Stage

/-- There is nothing to do for a list that is known to be empty. -/
def Source.isNothing (source : Source Value) (mode : Mode) (sized : Bool) : Bool :=
  mode = .sync && sized && source.updates.isEmpty

namespace Store

/-- Begins to add the messages that a source of updates makes. -/
def beginAdding (s : Store) (list : Value) (mode : Mode) (sized : Bool)
    (source : Option (Source Value)) : Store × Stage :=
  match needMessages (list != .null), source with
  | .error f, _ => (s, .ended (.error f))
  | .ok _, none => (s, .ended (.error (.absent .updates)))
  | .ok _, some source =>
    if source.isNothing mode sized then (s, .ended (.ok .null))
    else
      let (s, accumulator) := s.intern (Accumulator.new (.bool true)).toValue
      (s, .taking accumulator (source.seenIn mode).pulls)

theorem beginAdding_source (s : Store) (ref : Nat) (mode : Mode) (sized : Bool)
    (source : Source Value) :
    s.beginAdding (.shared ref) mode sized (some source) =
      if source.isNothing mode sized then (s, .ended (.ok .null))
      else ((s.push (Accumulator.new (.bool true)).toValue).1,
        .taking (.shared s.size) (source.seenIn mode).pulls) := rfl

/-- Finalizes an accumulator, and adds the messages of its response. -/
def conclude (s : Store) (list accumulator : Value) : Effect :=
  match s.finalize accumulator with
  | (s, .error ps) => (s, .error (.invalid ps))
  | (s, .ok response) => s.addResponseTo list response

/-- What a call does when its source has answered, up to where it waits again. -/
def advance (s : Store) (list accumulator : Value) : List (Pull Value) → Store × Stage
  | [] =>
    let (s, outcome) := s.conclude list accumulator
    (s, .ended outcome)
  | .failure f :: _ => (s, .ended (.error f))
  | .update u cancelled :: pulls =>
    if cancelled then (s, .ended (.error .cancelled))
    else (s.feed accumulator u, .taking accumulator pulls)

end Store

/-! ## Many calls -/

structure Call where
  addition : Addition
  /-- the list, as the call has found it when it began -/
  place : Value
  stage : Stage

/-- A store, the calls in the order in which they have come in, and those of them that have added
something, in the order in which they did. -/
structure Meeting where
  store : Store
  calls : List Call
  done : List Nat

/-- What can happen next. Calls are numbered in the order in which they come in; one that is over
does nothing any more. -/
inductive Move where
  /-- A call comes in that waits for each update. -/
  | begin (target : Target) (source : Option (Source Value))
  /-- The source of a call answers. -/
  | pull (n : Nat)
  | addResponse (target : Target) (response : Value)
  /-- A call comes in that takes all updates at once. -/
  | addUpdates (target : Target) (sized : Bool) (source : Option (Source Value))
  /-- makes an object -/
  | build (v : Value)

namespace Meeting

/-- Nobody has come in yet. -/
def on (s : Store) : Meeting := ⟨s, [], []⟩

/-- A call comes in and gets this far. -/
def enter (w : Meeting) (addition : Addition) (place : Value) (effect : Store × Stage) :
    Meeting where
  store := effect.1
  calls := w.calls ++ [⟨addition, place, effect.2⟩]
  done := w.done ++ effect.2.entry w.calls.length

def begin (w : Meeting) (place : Value) (mode : Mode) (sized : Bool)
    (source : Option (Source Value)) : Meeting :=
  w.enter (.updates mode sized source) place (w.store.beginAdding place mode sized source)

/-- A call comes in and is over at once. -/
def atOnce (w : Meeting) (place : Value) (addition : Addition) : Meeting :=
  let (s, outcome) := w.store.add place addition
  w.enter addition place (s, .ended outcome)

/-- Call number `n` has come this far. -/
def reach (w : Meeting) (n : Nat) (call : Call) (effect : Store × Stage) : Meeting where
  store := effect.1
  calls := w.calls.set n { call with stage := effect.2 }
  done := w.done ++ effect.2.entry n

def pull (w : Meeting) (n : Nat) : Meeting :=
  match w.calls[n]? with
  | none => w
  | some call =>
    match call.stage with
    | .ended _ => w
    | .taking accumulator pulls => w.reach n call (w.store.advance call.place accumulator pulls)

def perform (w : Meeting) : Move → Meeting
  | .begin target source => w.begin (target.place w.store) .async false source
  | .pull n => w.pull n
  | .addResponse target response => w.atOnce (target.place w.store) (.response response)
  | .addUpdates target sized source =>
    w.atOnce (target.place w.store) (.updates .sync sized source)
  | .build v => { w with store := (w.store.intern v).1 }

def run (w : Meeting) (moves : List Move) : Meeting := moves.foldl perform w

theorem run_append (w : Meeting) (moves more : List Move) :
    w.run (moves ++ more) = (w.run moves).run more := List.foldl_append

end Meeting

theorem Stage.mem_pulls_of_next? {stage : Stage} {u : Value} (h : u ∈ stage.next?) :
    .update u false ∈ stage.pulls := by
  unfold Stage.next? at h
  split at h
  · cases h
    exact List.mem_cons_self
  · cases h

theorem Source.mem_of_mem_pullsFrom {α : Type} {source : Source α} {u : α} {cancelled : Bool}
    {us : List α} {n : Nat} (h : .update u cancelled ∈ source.pullsFrom n us) : u ∈ us := by
  induction us generalizing n with
  | nil => simp [Source.pullsFrom] at h
  | cons v us ih =>
    unfold Source.pullsFrom at h
    split at h
    · simp at h
    · rcases List.mem_cons.1 h with h | h
      · cases h
        exact List.mem_cons_self
      · exact List.mem_cons_of_mem _ (ih h)

theorem Source.mem_updates_of_pull {α : Type} {source : Source α} {u : α} {cancelled : Bool}
    (h : .update u cancelled ∈ source.pulls) : u ∈ source.updates :=
  Source.mem_of_mem_pullsFrom h

/-! ## A call that nobody interrupts -/

section
variable {w : Meeting} {n : Nat} {call : Call}

theorem pull_of_ended (h : w.calls[n]? = some call) {outcome : Except Failure Value}
    (ho : call.stage = .ended outcome) : w.pull n = w := by
  simp only [Meeting.pull, h, ho]

theorem pull_of_taking (h : w.calls[n]? = some call) {accumulator : Value}
    {pulls : List (Pull Value)} (ht : call.stage = .taking accumulator pulls) :
    w.pull n = w.reach n call (w.store.advance call.place accumulator pulls) := by
  simp only [Meeting.pull, h, ht]

theorem getElem?_reach (h : w.calls[n]? = some call) (effect : Store × Stage) :
    (w.reach n call effect).calls[n]? = some { call with stage := effect.2 } :=
  List.getElem?_set_self (List.getElem?_eq_some_iff.1 h).1

theorem pulls_of_ended (h : w.calls[n]? = some call) {outcome : Except Failure Value}
    (ho : call.stage = .ended outcome) (k : Nat) : (Meeting.pull · n)^[k] w = w := by
  induction k with
  | zero => rfl
  | succ k ih =>
    rw [Function.iterate_succ_apply, pull_of_ended h ho]
    exact ih

/-- What is left of a run over a source. -/
def Store.takeRest (s : Store) (list accumulator : Value) (pulls : List (Pull Value)) : Effect :=
  match s.consume accumulator pulls with
  | (s, some f) => (s, .error f)
  | (s, none) => s.conclude list accumulator

/-- A call that is over after the next answer stays as it is then. -/
theorem pulls_of_last (h : w.calls[n]? = some call) {accumulator : Value}
    {pulls : List (Pull Value)} (ht : call.stage = .taking accumulator pulls) (effect : Effect)
    (ho : w.store.advance call.place accumulator pulls = (effect.1, .ended effect.2)) (k : Nat) :
    (Meeting.pull · n)^[k + 1] w = w.reach n call (effect.1, .ended effect.2) := by
  rw [Function.iterate_succ_apply, pull_of_taking h ht, ho, pulls_of_ended (getElem?_reach h _) rfl]

theorem reach_reach (w : Meeting) (n : Nat) (call : Call) (s : Store) {stage : Stage}
    (hstage : stage.isDone = false) (effect : Store × Stage) :
    (w.reach n call (s, stage)).reach n { call with stage } effect = w.reach n call effect := by
  simp [Meeting.reach, Stage.entry, hstage]

theorem reach_enter (w : Meeting) (addition : Addition) (place : Value) (s : Store) {stage : Stage}
    (hstage : stage.isDone = false) (effect : Store × Stage) :
    (w.enter addition place (s, stage)).reach w.calls.length ⟨addition, place, stage⟩ effect =
      w.enter addition place effect := by
  simp [Meeting.enter, Meeting.reach, Stage.entry, hstage]

theorem getElem?_enter (w : Meeting) (addition : Addition) (place : Value)
    (effect : Store × Stage) :
    (w.enter addition place effect).calls[w.calls.length]? = some ⟨addition, place, effect.2⟩ := by
  simp [Meeting.enter]

/-- **If its source answers as often as it can**, a call is over, and has done what was left of its
run. -/
theorem pulls_eq {accumulator : Value} {pulls : List (Pull Value)} (h : w.calls[n]? = some call)
    (ht : call.stage = .taking accumulator pulls) :
    (Meeting.pull · n)^[pulls.length + 1] w =
      w.reach n call ((w.store.takeRest call.place accumulator pulls).1,
        .ended (w.store.takeRest call.place accumulator pulls).2) := by
  induction pulls generalizing w call with
  | nil => exact pulls_of_last h ht _ rfl 0
  | cons pull pulls ih =>
    cases pull with
    | failure f => exact pulls_of_last h ht (w.store, .error f) rfl _
    | update u cancelled =>
      cases cancelled with
      | true => exact pulls_of_last h ht (w.store, .error .cancelled) rfl _
      | false =>
        have hnext : w.pull n =
            w.reach n call (w.store.feed accumulator u, .taking accumulator pulls) :=
          pull_of_taking h ht
        rw [List.length_cons, Function.iterate_succ_apply, hnext, ih (getElem?_reach h _) rfl,
          reach_reach w n call _ rfl]
        rfl

/-- **Beginning and taking the rest** is all that a call does. -/
theorem add_updates_eq (s : Store) (place : Value) (mode : Mode) (sized : Bool)
    (source : Option (Source Value)) :
    s.add place (.updates mode sized source) =
      match s.beginAdding place mode sized source with
      | (s, .ended outcome) => (s, outcome)
      | (s, .taking accumulator pulls) => s.takeRest place accumulator pulls := by
  cases hneed : needMessages (place != .null) with
  | error f => simp only [add, addSourceTo, beginAdding, hneed]
  | ok _ =>
    cases source with
    | none => simp only [add, addSourceTo, beginAdding, hneed]
    | some source =>
      cases hnothing : source.isNothing mode sized with
      | true =>
        have hskip : (mode = .sync && sized && source.updates.isEmpty) = true := hnothing
        simp only [add, addSourceTo, beginAdding, hneed, hnothing, hskip, if_true]
      | false =>
        have hskip : (mode = .sync && sized && source.updates.isEmpty) = false := hnothing
        simp only [add, addSourceTo, beginAdding, hneed, hnothing, hskip, Bool.false_eq_true,
          if_false, toResponse, takeRest]
        generalize (s.intern (Accumulator.new (.bool true)).toValue).1.consume
          (s.intern (Accumulator.new (.bool true)).toValue).2 (source.seenIn mode).pulls = consumed
        obtain ⟨t, failure⟩ := consumed
        cases failure with
        | some f => rfl
        | none =>
          simp only [conclude]
          cases (t.finalize (s.intern (Accumulator.new (.bool true)).toValue).2) with
          | mk u response => cases response <;> rfl

/-- **A call that nobody interrupts** does what it would do at once. -/
theorem atOnce_updates (w : Meeting) (place : Value) (mode : Mode) (sized : Bool)
    (source : Option (Source Value)) :
    ∃ k, w.atOnce place (.updates mode sized source) =
      (Meeting.pull · w.calls.length)^[k] (w.begin place mode sized source) := by
  have hadd := add_updates_eq w.store place mode sized source
  unfold Meeting.atOnce Meeting.begin
  rw [hadd]
  obtain ⟨s, stage⟩ := w.store.beginAdding place mode sized source
  cases stage with
  | ended outcome => exact ⟨0, rfl⟩
  | taking accumulator pulls =>
    refine ⟨pulls.length + 1, ?_⟩
    rw [pulls_eq (getElem?_enter w _ place _) rfl, reach_enter w _ place s rfl]
    rfl

end

/-! ## What may go in -/

/-- The value is a response that obeys its rules and stays clear of what is set aside. Its messages
have cells of their own. -/
structure Store.IsResponse (s : Store) (aside : List Nat) (v : Value) : Prop where
  formed : s.formed .response v = true
  holds : s.Holds aside v
  own : ∀ m ∈ s.responseMessages v, m.isShareable = false

instance (s : Store) (aside : List Nat) (v : Value) : Decidable (s.IsResponse aside v) :=
  decidable_of_iff (s.formed .response v = true ∧ s.Holds aside v ∧
      ∀ m ∈ s.responseMessages v, m.isShareable = false)
    ⟨fun h => ⟨h.1, h.2.1, h.2.2⟩, fun h => ⟨h.formed, h.holds, h.own⟩⟩

/-- What is added obeys its rules, and stays clear of what is set aside. -/
def Addition.Clear (s : Store) (aside : List Nat) : Addition → Prop
  | .response r => r = .null ∨ s.IsResponse aside r
  | .updates _ sized source =>
    ∀ x ∈ source, (sized = true → x.failure = none) ∧ ∀ u ∈ x.updates, s.IsUpdate aside u
  | .update u _ => u = .null ∨ s.IsUpdate aside u

instance (s : Store) (aside : List Nat) : (addition : Addition) → Decidable (addition.Clear s aside)
  | .response r => inferInstanceAs (Decidable (r = .null ∨ s.IsResponse aside r))
  | .updates _ sized source =>
    inferInstanceAs (Decidable (∀ x ∈ source,
      (sized = true → x.failure = none) ∧ ∀ u ∈ x.updates, s.IsUpdate aside u))
  | .update u _ => inferInstanceAs (Decidable (u = .null ∨ s.IsUpdate aside u))

/-- The calls are about the list in this cell, or about none. -/
def Target.IsAt (s : Store) (ref : Nat) (target : Target) : Prop :=
  target.place s = .shared ref ∨ target.place s = .null

instance (s : Store) (ref : Nat) (target : Target) : Decidable (target.IsAt s ref) :=
  inferInstanceAs (Decidable (target.place s = .shared ref ∨ target.place s = .null))

namespace Meeting

/-- The cells that are written to: that of the list, and those of the accumulators at work. -/
def taken (w : Meeting) (ref : Nat) : List Nat := ref :: w.calls.flatMap (·.stage.cells)

/-- The cells that are set aside: those that are written to, and those that lead there. -/
def aside (w : Meeting) (ref : Nat) : List Nat := w.store.leading (w.taken ref)

/-- What is folded in or added obeys its rules, and does not lead to the list to which it is added;
what does would say more each time the list grows. An update need not be there before its turn
comes. -/
def Allows (w : Meeting) (ref : Nat) : Move → Prop
  | .begin target _ => target.IsAt w.store ref
  | .pull n => ∀ call ∈ w.calls[n]?, ∀ u ∈ call.stage.next?, w.store.IsUpdate (w.aside ref) u
  | .addResponse target response =>
    target.IsAt w.store ref ∧ (Addition.response response).Clear w.store (w.aside ref)
  | .addUpdates target sized source =>
    target.IsAt w.store ref ∧ (Addition.updates .sync sized source).Clear w.store (w.aside ref)
  | .build v => w.store.Holds [] v

/-- So it is with each move, when it comes. -/
def AllowsAll (w : Meeting) (ref : Nat) : List Move → Prop
  | [] => True
  | move :: moves => w.Allows ref move ∧ (w.perform move).AllowsAll ref moves

instance (w : Meeting) (ref : Nat) : (move : Move) → Decidable (w.Allows ref move)
  | .begin target _ => inferInstanceAs (Decidable (target.IsAt w.store ref))
  | .pull n =>
    inferInstanceAs (Decidable (∀ call ∈ w.calls[n]?, ∀ u ∈ call.stage.next?,
      w.store.IsUpdate (w.aside ref) u))
  | .addResponse target response =>
    inferInstanceAs (Decidable (target.IsAt w.store ref ∧
      (Addition.response response).Clear w.store (w.aside ref)))
  | .addUpdates target sized source =>
    inferInstanceAs (Decidable (target.IsAt w.store ref ∧
      (Addition.updates .sync sized source).Clear w.store (w.aside ref)))
  | .build v => inferInstanceAs (Decidable (w.store.Holds [] v))

instance decidableAllowsAll (w : Meeting) (ref : Nat) :
    (moves : List Move) → Decidable (w.AllowsAll ref moves)
  | [] => .isTrue trivial
  | move :: moves =>
    have := decidableAllowsAll (w.perform move) ref moves
    inferInstanceAs (Decidable (w.Allows ref move ∧ (w.perform move).AllowsAll ref moves))

theorem allowsAll_append {w : Meeting} {ref : Nat} {moves more : List Move} :
    w.AllowsAll ref (moves ++ more) ↔ w.AllowsAll ref moves ∧ (w.run moves).AllowsAll ref more := by
  induction moves generalizing w with
  | nil => simp [AllowsAll, run]
  | cons move moves ih =>
    simp only [List.cons_append, AllowsAll, ih, and_assoc]
    rfl

end Meeting

end Reassembly
