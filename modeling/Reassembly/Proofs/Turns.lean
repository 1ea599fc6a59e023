import Reassembly.Proofs.Additions
import Reassembly.Session

/-!
# A list of messages over time

A list of messages takes in responses, streams and single updates, one after the other, directly or
as the transcript of a session. Whatever the calls are, it only ever grows by whole batches, and
what is in it stays as it is.

* `Target`, `Turn`, `Store.turns`: the calls, with objects being made in between.
* `turn_grown`, `turns_grown`: what one turn does to the list, and what any number of turns do.
* `same_batch`: the same updates make the same messages, however they are handed over.
* `list_grows_by_batches`: all of it, for one call among any others.
-/
namespace Reassembly

open Store

/-! ## Turns -/

/-- Where messages are to be added: to a list, or to the transcript of a session. -/
inductive Target where
  | list (v : Value)
  | session (v : Value)

def Target.place (s : Store) : Target → Value
  | .list v => v
  | .session v => s.member v "transcript"

inductive Turn where
  | add (target : Target) (addition : Addition)
  /-- makes an object -/
  | build (v : Value)

namespace Store

/-- The store after a turn, whether the turn fails or not. -/
def turn (s : Store) : Turn → Store
  | .add target addition => (s.add (target.place s) addition).1
  | .build v => (s.intern v).1

def turns (s : Store) (ts : List Turn) : Store := ts.foldl turn s

end Store

/-- The turn is about the list in a cell, or about none, and what it adds is proper. -/
def Turn.Proper (s : Store) (ref : Nat) : Turn → Prop
  | .add target addition =>
    (target.place s = .shared ref ∨ target.place s = .null) ∧ addition.Proper s
  | .build v => s.Holds [] v

/-- So it is with each turn, when it comes. -/
def Store.AllProper (s : Store) (ref : Nat) : List Turn → Prop
  | [] => True
  | t :: ts => t.Proper s ref ∧ (s.turn t).AllProper ref ts

instance (s : Store) (ref : Nat) : (t : Turn) → Decidable (t.Proper s ref)
  | .add target addition =>
    inferInstanceAs (Decidable ((target.place s = .shared ref ∨ target.place s = .null) ∧
      addition.Proper s))
  | .build v => inferInstanceAs (Decidable (s.Holds [] v))

instance decidableAllProper (s : Store) (ref : Nat) :
    (ts : List Turn) → Decidable (s.AllProper ref ts)
  | [] => .isTrue trivial
  | t :: ts =>
    have := decidableAllProper (s.turn t) ref ts
    inferInstanceAs (Decidable (t.Proper s ref ∧ (s.turn t).AllProper ref ts))

section
variable {s : Store} {ref : Nat} {old : List Value}

theorem allProper_append {ts more : List Turn} :
    s.AllProper ref (ts ++ more) ↔ s.AllProper ref ts ∧ (s.turns ts).AllProper ref more := by
  induction ts generalizing s with
  | nil => simp [AllProper, turns]
  | cons t ts ih =>
    simp only [List.cons_append, AllProper, ih, and_assoc]
    rfl

/-- **One turn** lets the list grow by a batch. -/
theorem turn_grown (hs : s.Sound []) (hl : s.cell ref = .list old) {t : Turn}
    (hp : t.Proper s ref) : ∃ batch, s.Grown ref batch (s.turn t) := by
  cases t with
  | add target addition =>
    obtain ⟨batch, htakes⟩ := takes_add hs hl hp.1 hp.2
    exact ⟨batch, htakes.grown⟩
  | build v =>
    have hcarry := carries_intern hs v hp
    exact ⟨[], .of_extends hcarry.sound hcarry.grows⟩

/-- **Any number of turns** do. -/
theorem turns_grown (hs : s.Sound []) (hl : s.cell ref = .list old) {ts : List Turn}
    (hp : s.AllProper ref ts) : ∃ batch, s.Grown ref batch (s.turns ts) := by
  induction ts generalizing s old with
  | nil => exact ⟨[], .refl hs ref⟩
  | cons t ts ih =>
    obtain ⟨first, hfirst⟩ := turn_grown hs hl hp.1
    obtain ⟨rest, hrest⟩ := ih hfirst.sound (hfirst.list old hl) hp.2
    exact ⟨first ++ rest, hfirst.trans hrest⟩

/-! ## The same updates in other clothes -/

/-- The source yields these updates and then ends: it does not fail, and nobody cancels the run
before it is over. -/
structure Source.Gives (source : Source Value) (mode : Mode) (us : List Value) : Prop where
  updates : source.updates = us
  failure : source.failure = none
  calm : ∀ j, ¬(source.seenIn mode).CancelledAt j

theorem gives_list (us : List Value) (mode : Mode) :
    ({ updates := us } : Source Value).Gives mode us := by
  refine ⟨rfl, rfl, ?_⟩
  cases mode with
  | sync => exact Source.not_cancelledAt_sync _
  | async => exact Source.not_cancelledAt_of_none rfl

theorem takes_of_gives (hs : s.Sound []) (hl : s.cell ref = .list old) {us : List Value}
    (hu : ∀ u ∈ us, s.IsUpdate [] u) {mode : Mode} (sized : Bool) {source : Source Value}
    (hg : source.Gives mode us) :
    ∃ t batch, s.add (.shared ref) (.updates mode sized (some source)) = (t, .ok .null) ∧
      t.cell ref = .list (old ++ batch) ∧
      List.Forall₂ (s.AlikeIn (t.write (.shared ref) (s.cell ref)))
        ((s.foldOf true us).messages.map (·.toValue)) batch := by
  obtain ⟨rfl, hfailure, hcalm⟩ := hg
  have hproper : (Addition.updates mode sized (some source)).Proper s := ⟨fun _ => hfailure, hu⟩
  obtain ⟨batch, hadded, hgrown⟩ := takes_updates hs hl hproper
  have hcalm : ∀ j, ¬((source.map s.update).seenIn mode).CancelledAt j := by
    intro j
    rw [Source.seenIn_map, Source.cancelledAt_map]
    exact hcalm j
  have hrun := (reconstruct_of_success s false true mode hcalm hfailure).1
  have hread : (source.map s.update).updates = source.updates.map s.update := rfl
  rw [hread, ofUpdates_foldOf fun v hv => (hu v hv).formed] at hrun
  generalize s.add (.shared ref) (.updates mode sized (some source)) = effect at hadded hgrown ⊢
  obtain ⟨t, outcome⟩ := effect
  cases hadded with
  | brokenOff hf =>
    rw [hrun] at hf
    cases hf
  | updates hr alike =>
    rw [hrun] at hr
    cases hr
    exact ⟨t, batch, rfl, hgrown.list old hl, alike⟩

/-- **The same updates** make the same messages, as a list, one by one, or as a stream. -/
theorem same_batch (hs : s.Sound []) (hl : s.cell ref = .list old) {us : List Value}
    (hu : ∀ u ∈ us, s.IsUpdate [] u) {mode mode' : Mode} (sized sized' : Bool)
    {source source' : Source Value} (hg : source.Gives mode us) (hg' : source'.Gives mode' us) :
    ∃ t t' batch batch',
      s.add (.shared ref) (.updates mode sized (some source)) = (t, .ok .null) ∧
        s.add (.shared ref) (.updates mode' sized' (some source')) = (t', .ok .null) ∧
        t.cell ref = .list (old ++ batch) ∧ t'.cell ref = .list (old ++ batch') ∧
        List.Forall₂ ((t.write (.shared ref) (s.cell ref)).AlikeIn
          (t'.write (.shared ref) (s.cell ref))) batch batch' := by
  obtain ⟨t, batch, hadd, hcell, hlike⟩ := takes_of_gives hs hl hu sized hg
  obtain ⟨t', batch', hadd', hcell', hlike'⟩ := takes_of_gives hs hl hu sized' hg'
  refine ⟨t, t', batch, batch', hadd, hadd', hcell, hcell', ?_⟩
  exact forall₂_alikeIn_iff.2 fun depth =>
    (forall₂_alikeIn_iff.1 hlike depth).symm.trans (forall₂_alikeIn_iff.1 hlike' depth)

end

/-! ## All of it -/

/-- **A list of messages only grows by whole batches.** Of any number of turns take one that adds to
the list. It does what it should, and if it fails the list is as before. If not, the list has grown
by the batch at its end, and nothing but the list has changed; what comes later adds to the end, and
changes nothing of what is in the list. And how updates are handed over makes no difference to the
messages that they make. Messages are compared with the list as it was: one that leads to the list
itself says more when the list has grown. -/
theorem list_grows_by_batches {s : Store} (hs : s.Sound []) {ref : Nat} {items : List Value}
    (hl : s.cell ref = .list items) {before after : List Turn} {target : Target}
    {addition : Addition} (hp : s.AllProper ref (before ++ .add target addition :: after)) :
    let t := s.turns before
    let place := target.place t
    let u := (t.add place addition).1
    let later := u.turns after
    ∃ old batch more,
      t.cell ref = .list (items ++ old) ∧
      u.cell ref = .list (items ++ old ++ batch) ∧
      later.cell ref = .list (items ++ old ++ batch ++ more) ∧
      t.Added (u.write (.shared ref) (t.cell ref)) (place != .null) addition
        (t.add place addition).2 batch ∧
      (∀ f, (t.add place addition).2 = .error f → batch = []) ∧
      s.Frame [ref] t ∧ t.Frame [ref] u ∧ u.Frame [ref] later ∧
      ∀ us, (∀ v ∈ us, t.IsUpdate [] v) →
        ∀ (first second : Mode) (sized sized' : Bool) (source source' : Source Value),
        source.Gives first us → source'.Gives second us →
        ∃ w w' made made',
          t.add (.shared ref) (.updates first sized (some source)) = (w, .ok .null) ∧
          t.add (.shared ref) (.updates second sized' (some source')) = (w', .ok .null) ∧
          w.cell ref = .list (items ++ old ++ made) ∧
          w'.cell ref = .list (items ++ old ++ made') ∧
          List.Forall₂ ((w.write (.shared ref) (t.cell ref)).AlikeIn
            (w'.write (.shared ref) (t.cell ref))) made made' := by
  intro t place u later
  obtain ⟨hbefore, hturn, hafter⟩ := allProper_append.1 hp
  obtain ⟨old, hold⟩ := turns_grown hs hl hbefore
  have hlist := hold.list items hl
  obtain ⟨batch, hadded, hbatch⟩ := takes_add hold.sound hlist hturn.1 hturn.2
  have hlist' := hbatch.list _ hlist
  obtain ⟨more, hmore⟩ := turns_grown hbatch.sound hlist' hafter
  refine ⟨old, batch, more, hlist, hlist', hmore.list _ hlist', hadded,
    fun f hf => hadded.batch_of_error hf, hold.frame, hbatch.frame, hmore.frame, ?_⟩
  intro us hu first second sized sized' source source' hg hg'
  exact same_batch hold.sound hlist hu sized sized' hg hg'

/-! ## The minutes of a meeting -/

def vote (text : String) : Update :=
  { Update.blank with role := userRole, contents := [plainText text] }

def verdict : Response :=
  { Response.empty with
    messages := [{ Message.opened userRole with contents := [plainText "Nay."] }] }

/-- A store with a session in cell 11, whose transcript is in cell 10, an update in cell 14 and a
response in cell 19. -/
def minutes : Store :=
  (Store.empty.internAll
    [Session.toValue ⟨.text "board", [(Message.opened userRole).toValue]⟩, (vote "Aye.").toValue,
      verdict.toValue]).1

/-- The session takes in the response; then the list is forgotten, and a stream is cancelled. -/
def votesBefore : List Turn :=
  [.add (.session (.shared 11)) (.response (.shared 19)),
    .add (.list .null) (.update (.shared 14) none),
    .add (.session (.shared 11)) (.updates .async false
      (some { updates := [.shared 14, .shared 14], cancelAt := some 1 }))]

/-- A stream fails at its end, and a list of updates is taken in. -/
def votesAfter : List Turn :=
  [.add (.list (.shared 10)) (.updates .sync false
      (some { updates := [.shared 14], failure := some (1, .raised "OSError" "gone") })),
    .add (.session (.shared 11)) (.updates .sync true (some { updates := [.shared 14] }))]

theorem list_grows_by_batches_minutes :
    let t := minutes.turns votesBefore
    let u := (t.add (.shared 10) (.update (.shared 14) none)).1
    let later := u.turns votesAfter
    ∃ old batch more,
      t.cell 10 = .list ([.shared 9] ++ old) ∧
      u.cell 10 = .list ([.shared 9] ++ old ++ batch) ∧
      later.cell 10 = .list ([.shared 9] ++ old ++ batch ++ more) ∧
      t.Added (u.write (.shared 10) (t.cell 10)) true (.update (.shared 14) none)
        (t.add (.shared 10) (.update (.shared 14) none)).2 batch ∧
      minutes.Frame [10] t ∧ t.Frame [10] u ∧ u.Frame [10] later ∧
      ∃ w w' made made',
        t.add (.shared 10) (.updates .sync true (some { updates := [.shared 14] })) = (w, .ok .null) ∧
        t.add (.shared 10) (.updates .async false (some { updates := [.shared 14] })) =
          (w', .ok .null) ∧
        w.cell 10 = .list ([.shared 9] ++ old ++ made) ∧
        w'.cell 10 = .list ([.shared 9] ++ old ++ made') ∧
        List.Forall₂ ((w.write (.shared 10) (t.cell 10)).AlikeIn
          (w'.write (.shared 10) (t.cell 10))) made made' := by
  have hproper : minutes.AllProper 10
      (votesBefore ++ .add (.list (.shared 10)) (.update (.shared 14) none) :: votesAfter) := by
    decide +kernel
  have hu : ∀ u ∈ [.shared 14], (minutes.turns votesBefore).IsUpdate [] u := by
    decide +kernel
  obtain ⟨old, batch, more, hold, hbatch, hmore, hadded, -, before, during, later, same⟩ :=
    list_grows_by_batches (s := minutes) (by decide) rfl hproper
  refine ⟨old, batch, more, hold, hbatch, hmore, hadded, before, during, later, ?_⟩
  exact same [.shared 14] hu .sync .async true false _ _ (gives_list [.shared 14] .sync)
    (gives_list [.shared 14] .async)

end Reassembly
