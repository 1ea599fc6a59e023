import Reassembly.Proofs.Records
import Reassembly.Reconstruct

/-!
# How runs over a source end

A source may end, fail, or be cancelled, and which of the three a consumer meets first depends on
where they lie. The consumer takes an update, then looks whether it has been cancelled, then folds
the update in. So a cancellation is noticed one update late and hides what comes behind it, while a
failure that stands in the way of that update hides the cancellation.

* `Source.CancelledAt`: the cancellation is noticed with update number `j`.
* `pulls_of_cancelled`, `pulls_of_not_cancelled`: what the consumer of a source sees.
* `run_of_cancelled`, `run_of_not_cancelled`: how far it comes.
* `reconstruct_ends`: the three ways in which a reconstruction ends; none of them is a response to
  a part of the stream.
-/
namespace Reassembly

namespace Source

variable {α : Type}

/-- A consumer notices the cancellation when it takes update number `j`: there is one, and the
source does not fail before it. -/
def CancelledAt (source : Source α) (j : Nat) : Prop :=
  ∃ c, source.cancelAt = some c ∧ c.toNat = j ∧ j < source.updates.length ∧
    ∀ f, source.failure = some f → j < f.1

/-- The updates that come before a failure. -/
def beforeFailure (source : Source α) : List α :=
  match source.failure with
  | none => source.updates
  | some f => source.updates.take f.1

theorem length_beforeFailure {source : Source α} {after : Nat} {f : Failure}
    (h : source.failure = some (after, f)) :
    source.beforeFailure.length = min after source.updates.length := by
  simp [beforeFailure, h]

/-! ## What the consumer sees -/

theorem pullsFrom_of_cancelled {source : Source α} {c : Int} (hc : source.cancelAt = some c)
    (hf : ∀ f, source.failure = some f → c.toNat < f.1) (us : List α) (n : Nat)
    (hn : n ≤ c.toNat) (hj : c.toNat < n + us.length) :
    ∃ u more, source.pullsFrom n us =
      (us.take (c.toNat - n)).map (.update · false) ++ .update u true :: more := by
  induction us generalizing n with
  | nil =>
    simp only [List.length_nil] at hj
    omega
  | cons u us ih =>
    have hnone : source.failureBefore n = none := by
      unfold failureBefore
      cases h : source.failure with
      | none => rfl
      | some f =>
        have hlt : ¬f.1 ≤ n := by
          have := hf f h
          omega
        simp [hlt]
    unfold pullsFrom
    simp only [hnone, cancelledBy, hc]
    by_cases hjn : c.toNat = n
    · have hcn : c ≤ (n : Int) := by omega
      exact ⟨u, source.pullsFrom (n + 1) us, by simp [hjn, hcn]⟩
    · have hcn : ¬c ≤ (n : Int) := by omega
      simp only [List.length_cons] at hj
      obtain ⟨v, more, h⟩ := ih (n + 1) (by omega) (by omega)
      have hstep : c.toNat - n = c.toNat - (n + 1) + 1 := by omega
      exact ⟨v, more, by simp [h, hcn, hstep]⟩

theorem pullsFrom_of_not_cancelled {source : Source α} (us : List α) (n : Nat)
    (hc : ∀ c, source.cancelAt = some c →
      n + us.length ≤ c.toNat ∨ ∃ f, source.failure = some f ∧ f.1 ≤ c.toNat) :
    source.pullsFrom n us =
      (match source.failure with
        | none => us
        | some f => us.take (f.1 - n)).map (.update · false) ++
      (source.failure.map fun f => .failure f.2).toList := by
  induction us generalizing n with
  | nil => cases h : source.failure <;> simp [pullsFrom, h]
  | cons u us ih =>
    have hrest := ih (n + 1) fun c h => (hc c h).imp_left fun hlate => by
      simp only [List.length_cons] at hlate
      omega
    unfold pullsFrom
    cases h : source.failure with
    | none =>
      have hcn : source.cancelledBy n = false := by
        unfold cancelledBy
        cases hs : source.cancelAt with
        | none => rfl
        | some c =>
          rcases hc c hs with hlate | ⟨f, hf, -⟩
          · simp only [List.length_cons] at hlate
            simp only [decide_eq_false_iff_not]
            omega
          · rw [h] at hf
            cases hf
      simp only [h] at hrest
      simp [failureBefore, h, hcn, hrest]
    | some f =>
      simp only [h] at hrest
      by_cases hfn : f.1 ≤ n
      · have hzero : f.1 - n = 0 := by omega
        simp [failureBefore, h, hfn, hzero]
      · have hcn : source.cancelledBy n = false := by
          unfold cancelledBy
          cases hs : source.cancelAt with
          | none => rfl
          | some c =>
            have hlate := hc c hs
            simp only [List.length_cons, h, Option.some.injEq, exists_eq_left'] at hlate
            simp only [decide_eq_false_iff_not]
            omega
        have hstep : f.1 - n = f.1 - (n + 1) + 1 := by omega
        simp [failureBefore, h, hfn, hcn, hrest, hstep]

/-- **Up to the cancellation** the consumer sees the updates, and then one more. -/
theorem pulls_of_cancelled {source : Source α} {j : Nat} (h : source.CancelledAt j) :
    ∃ u more, source.pulls =
      (source.updates.take j).map (.update · false) ++ .update u true :: more := by
  obtain ⟨c, hc, rfl, hj, hf⟩ := h
  exact pullsFrom_of_cancelled hc hf source.updates 0 (by omega) (by omega)

example : ({ updates := [7, 8, 9], cancelAt := some 1 } : Source Nat).pulls =
    [.update 7 false, .update 8 true, .update 9 true] := rfl

/-- **Without a cancellation** it sees the updates that come before a failure, and the failure. -/
theorem pulls_of_not_cancelled {source : Source α} (h : ∀ j, ¬source.CancelledAt j) :
    source.pulls = source.beforeFailure.map (.update · false) ++
      (source.failure.map fun f => .failure f.2).toList := by
  refine pullsFrom_of_not_cancelled source.updates 0 fun c hc => ?_
  by_contra hne
  refine h c.toNat ⟨c, hc, rfl, by omega, fun f hf => ?_⟩
  by_contra hlt
  exact hne (Or.inr ⟨f, hf, by omega⟩)

theorem not_cancelledAt_sync (source : Source α) (j : Nat) :
    ¬(source.seenIn .sync).CancelledAt j := by
  rintro ⟨c, hc, -⟩
  cases hc

/-- A cancellation that is asked for behind the last update is not noticed. -/
theorem not_cancelledAt_of_late {source : Source α} {c : Int} (hc : source.cancelAt = some c)
    (hlate : (source.updates.length : Int) ≤ c) (j : Nat) : ¬source.CancelledAt j := by
  rintro ⟨d, hd, rfl, hj, -⟩
  rw [hc, Option.some.injEq] at hd
  omega

theorem not_cancelledAt_of_none {source : Source α} (hc : source.cancelAt = none) (j : Nat) :
    ¬source.CancelledAt j := by
  rintro ⟨c, h, -⟩
  rw [hc] at h
  cases h

end Source

/-! ## How far the consumer comes -/

namespace Progress

variable {s : Store} {p : Progress}

theorem run_append_updates (us : List Update) (pulls : List Pull) :
    p.run s (us.map (.update · false) ++ pulls) = (p.feedAll s us).run s pulls := by
  induction us generalizing p with
  | nil => rfl
  | cons u us ih => simp [run, step, ih, feedAll]

theorem feedAll_pulled (us : List Update) :
    (p.feedAll s us).pulled = p.pulled + us.length := by
  induction us generalizing p with
  | nil => rfl
  | cons u us ih =>
    have h := ih (p := p.take.feed s u)
    simp only [feedAll, List.foldl_cons, List.length_cons] at h ⊢
    rw [h]
    simp only [feed, take]
    omega

/-- **A cancelled run** has folded in the updates before the one with which it notices. -/
theorem run_of_cancelled {source : Source} {j : Nat} (h : source.CancelledAt j) :
    p.run s source.pulls = ((p.feedAll s (source.updates.take j)).take, some .cancelled) := by
  obtain ⟨u, more, hp⟩ := Source.pulls_of_cancelled h
  rw [hp, run_append_updates]
  rfl

/-- **Any other run** has folded in the updates before a failure, all if there is none. -/
theorem run_of_not_cancelled {source : Source} (h : ∀ j, ¬source.CancelledAt j) :
    p.run s source.pulls =
      (p.feedAll s source.beforeFailure, source.failure.map (·.2)) := by
  rw [Source.pulls_of_not_cancelled h, run_append_updates]
  cases source.failure <;> rfl

theorem start_feedAll_accumulator (merge : Bool) (us : List Update) :
    ((start merge).feedAll s us).accumulator =
      { coalesce := .bool merge, updates := us.length, response := Response.feedAll s .empty us } := by
  rw [feedAll_accumulator]
  simp [start, Accumulator.new]

end Progress

/-! ## How a reconstruction ends -/

theorem Source.updates_seenIn {α : Type} (source : Source α) (mode : Mode) :
    (source.seenIn mode).updates = source.updates := by cases mode <;> rfl

theorem Source.failure_seenIn {α : Type} (source : Source α) (mode : Mode) :
    (source.seenIn mode).failure = source.failure := by cases mode <;> rfl

theorem Source.beforeFailure_seenIn {α : Type} (source : Source α) (mode : Mode) :
    (source.seenIn mode).beforeFailure = source.beforeFailure := by cases mode <;> rfl

theorem Source.beforeFailure_of_none {α : Type} {source : Source α} (h : source.failure = none) :
    source.beforeFailure = source.updates := by
  simp only [beforeFailure, h]

section
variable (s : Store) (tracing merge : Bool) (mode : Mode) {source : Source}

theorem reconstruct_of_run {p : Progress} {f : Failure}
    (h : (Progress.start merge).run s (source.seenIn mode).pulls = (p, some f)) :
    (reconstruct s tracing mode merge source).outcome = .error f ∧
      (reconstruct s tracing mode merge source).pulled = p.pulled := by
  simp [reconstruct, h]

theorem reconstruct_of_cancelled {j : Nat} (h : (source.seenIn mode).CancelledAt j) :
    (reconstruct s tracing mode merge source).outcome = .error .cancelled ∧
      (reconstruct s tracing mode merge source).pulled = j + 1 := by
  obtain ⟨-, -, -, hj, -⟩ := id h
  have hrun := reconstruct_of_run s tracing merge mode (Progress.run_of_cancelled h)
  simp only [Progress.take, Progress.feedAll_pulled, List.length_take] at hrun
  rw [Nat.min_eq_left (by omega)] at hrun
  simpa [Progress.start] using hrun

theorem reconstruct_of_failure {after : Nat} {f : Failure}
    (h : ∀ j, ¬(source.seenIn mode).CancelledAt j) (hf : source.failure = some (after, f)) :
    (reconstruct s tracing mode merge source).outcome = .error f ∧
      (reconstruct s tracing mode merge source).pulled = min after source.updates.length := by
  rw [← source.failure_seenIn mode] at hf
  have hrun := Progress.run_of_not_cancelled (s := s) (p := .start merge) h
  rw [hf] at hrun
  have hend := reconstruct_of_run s tracing merge mode hrun
  rw [Progress.feedAll_pulled, Source.length_beforeFailure hf, source.updates_seenIn] at hend
  simpa [Progress.start] using hend

theorem reconstruct_of_success (h : ∀ j, ¬(source.seenIn mode).CancelledAt j)
    (hf : source.failure = none) :
    (reconstruct s tracing mode merge source).outcome =
        (Response.ofUpdates s source.updates merge).orFail ∧
      (reconstruct s tracing mode merge source).pulled = source.updates.length := by
  have hall : (source.seenIn mode).beforeFailure = source.updates := by
    rw [source.beforeFailure_seenIn, Source.beforeFailure_of_none hf]
  have hrun := Progress.run_of_not_cancelled (s := s) (p := .start merge) h
  rw [source.failure_seenIn, hf, hall] at hrun
  simp only [reconstruct, hrun, Option.map_none, Accumulator.finished,
    Progress.start_feedAll_accumulator, Progress.feedAll_pulled]
  constructor
  · cases merge <;> rfl
  · simp [Progress.start]

theorem reconstruct_ok {r : Response}
    (h : (reconstruct s tracing mode merge source).outcome = .ok r) :
    source.failure = none ∧ Response.ofUpdates s source.updates merge = .ok r := by
  by_cases hc : ∃ j, (source.seenIn mode).CancelledAt j
  · obtain ⟨j, hj⟩ := hc
    rw [(reconstruct_of_cancelled s tracing merge mode hj).1] at h
    cases h
  · have hc : ∀ j, ¬(source.seenIn mode).CancelledAt j := fun j hj => hc ⟨j, hj⟩
    cases hf : source.failure with
    | some f =>
      rw [(reconstruct_of_failure s tracing merge mode hc hf).1] at h
      cases h
    | none =>
      rw [(reconstruct_of_success s tracing merge mode hc hf).1] at h
      cases ho : Response.ofUpdates s source.updates merge with
      | error ps =>
        rw [ho] at h
        cases h
      | ok q =>
        rw [ho] at h
        cases h
        exact ⟨rfl, rfl⟩

end

/-- **A reconstruction ends in one of three ways.** It is cancelled with the update with which it
notices, after the updates before that one have been folded in; or it fails as the source does; or
it gives what the list of all updates gives. So no run gives a response to a part of the stream,
and what is asked for too late, or of a synchronous run, cancels nothing. -/
theorem reconstruct_ends (s : Store) (tracing merge : Bool) (source : Source) :
    (∀ j, source.CancelledAt j →
      (reconstruct s tracing .async merge source).outcome = .error .cancelled ∧
      (reconstruct s tracing .async merge source).pulled = j + 1 ∧
      ((Progress.start merge).run s source.pulls).1.accumulator =
        { coalesce := .bool merge, updates := j,
          response := Response.feedAll s .empty (source.updates.take j) }) ∧
    ((∀ j, ¬source.CancelledAt j) → ∀ after f, source.failure = some (after, f) →
      (reconstruct s tracing .async merge source).outcome = .error f ∧
      (reconstruct s tracing .async merge source).pulled = min after source.updates.length) ∧
    ((∀ j, ¬source.CancelledAt j) → source.failure = none →
      (reconstruct s tracing .async merge source).outcome =
        (reconstruct s tracing .sync merge { updates := source.updates }).outcome ∧
      (reconstruct s tracing .async merge source).pulled = source.updates.length ∧
      ((∀ u ∈ source.updates, s.formed .update u.toValue = true) →
        ∃ r, (reconstruct s tracing .async merge source).outcome = .ok r)) ∧
    (∀ after f, source.failure = some (after, f) →
      (reconstruct s tracing .sync merge source).outcome = .error f ∧
      (reconstruct s tracing .sync merge source).pulled = min after source.updates.length) ∧
    (∀ c, source.cancelAt = some c → c < 0 → source.updates ≠ [] →
      (∀ f, source.failure = some f → 0 < f.1) →
      (reconstruct s tracing .async merge source).outcome = .error .cancelled) ∧
    (∀ c, source.cancelAt = some c → (source.updates.length : Int) ≤ c →
      (reconstruct s tracing .async merge source).outcome =
        (reconstruct s tracing .sync merge source).outcome) ∧
    (∀ mode r, (reconstruct s tracing mode merge source).outcome = .ok r →
      source.failure = none ∧ Response.ofUpdates s source.updates merge = .ok r) ∧
    Failure.cancelled.kind = "CancelledError" ∧
    Failure.cancelled.message = "response reconstruction cancelled" := by
  refine ⟨?cancelled, ?failed, ?finished, ?sync, ?beforehand, ?late, ?whole, rfl, rfl⟩
  case cancelled =>
    intro j hj
    have hend := reconstruct_of_cancelled s tracing merge .async hj
    refine ⟨hend.1, hend.2, ?_⟩
    obtain ⟨-, -, -, hlt, -⟩ := id hj
    rw [Progress.run_of_cancelled hj, Progress.take, Progress.start_feedAll_accumulator,
      List.length_take, Nat.min_eq_left (by omega)]
  case failed =>
    intro hc after f hf
    exact reconstruct_of_failure s tracing merge .async hc hf
  case finished =>
    intro hc hf
    have hend := reconstruct_of_success s tracing merge .async hc hf
    refine ⟨?_, hend.2, ?_⟩
    · rw [hend.1, reconstruct_list]
    · intro hu
      rw [hend.1]
      have hformed : ∀ u ∈ source.updates, u.Formed s := fun u h => formed_update_iff.1 (hu u h)
      refine ⟨_, congrArg Checked.orFail (ofUpdates_of_formed hformed merge)⟩
  case sync =>
    intro after f hf
    exact reconstruct_of_failure s tracing merge .sync source.not_cancelledAt_sync hf
  case beforehand =>
    intro c hc hneg hne hfail
    have hzero : c.toNat = 0 := by omega
    have hpos : 0 < source.updates.length := List.length_pos_of_ne_nil hne
    exact (reconstruct_of_cancelled s tracing merge .async ⟨c, hc, hzero, hpos, hfail⟩).1
  case late =>
    intro c hc hlate
    have hnot := Source.not_cancelledAt_of_late hc hlate
    cases hf : source.failure with
    | some f =>
      rw [(reconstruct_of_failure s tracing merge .async hnot hf).1,
        (reconstruct_of_failure s tracing merge .sync source.not_cancelledAt_sync hf).1]
    | none =>
      rw [(reconstruct_of_success s tracing merge .async hnot hf).1,
        (reconstruct_of_success s tracing merge .sync source.not_cancelledAt_sync hf).1]
  case whole =>
    intro mode r h
    exact reconstruct_ok s tracing merge mode h

/-- A source of two updates that fails at its end, with a cancellation before the second one. -/
def midway : Source where
  updates := [.blank, .blank]
  failure := some (2, .raised "OSError" "gone")
  cancelAt := some 1

/-- The cancellation comes first, unless nobody looks for it. -/
theorem reconstruct_ends_midway :
    ((reconstruct .empty true .async true midway).outcome = .error .cancelled ∧
      (reconstruct .empty true .async true midway).pulled = 2) ∧
    (reconstruct .empty true .sync true midway).outcome = .error (.raised "OSError" "gone") ∧
      (reconstruct .empty true .sync true midway).pulled = 2 := by
  obtain ⟨cancelled, -, -, sync, -⟩ := reconstruct_ends .empty true true midway
  have hmidway : midway.CancelledAt 1 := by
    refine ⟨1, rfl, rfl, by decide, fun f hf => ?_⟩
    cases hf
    decide
  obtain ⟨houtcome, hpulled, -⟩ := cancelled 1 hmidway
  exact ⟨⟨houtcome, hpulled⟩, sync 2 _ rfl⟩

end Reassembly
