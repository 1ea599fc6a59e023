import Reassembly.Proofs.Bench
import Reassembly.Proofs.Endings

/-!
# Reconstruction in a store

A run over a source of updates is a sequence of calls on an accumulator of its own: the updates that
it takes before it ends are fed to it, and if the run comes to its end it is finalized. So what is
known of accumulators that work side by side is known of such runs, and how a run ends is what
reading all updates first would give.

* `toResponse_of_cancelled`, `toResponse_of_failure`, `toResponse_of_success`: the calls that a run
  is made of.
* `toResponse_ends`: how it ends, and what it leaves of the store.
* `toResponse_of_updates`: a source that neither fails nor is cancelled gives the response that its
  updates make.
-/
namespace Reassembly

open Store

/-! ## Sources of values -/

namespace Source

variable {α β : Type} {source : Source α} {mode : Mode}

theorem cancelledAt_map (f : α → β) (j : Nat) :
    (source.map f).CancelledAt j ↔ source.CancelledAt j := by
  simp [CancelledAt, map]

theorem seenIn_map (f : α → β) : (source.map f).seenIn mode = (source.seenIn mode).map f := by
  cases mode <;> rfl

theorem mem_of_mem_beforeFailure {x : α} (h : x ∈ source.beforeFailure) : x ∈ source.updates := by
  unfold beforeFailure at h
  split at h
  · exact h
  · exact List.mem_of_mem_take h

end Source

/-! ## The calls that a run is made of -/

/-- The calls that fold updates into an accumulator of their own. -/
def foldingActs (c : Bool) (us : List Value) : List Act := .new c :: us.map (.feed 0)

theorem consume_append_updates (s : Store) (accumulator : Value) (us : List Value)
    (pulls : List (Pull Value)) :
    s.consume accumulator (us.map (.update · false) ++ pulls) =
      (us.foldl (fun s u => s.feed accumulator u) s).consume accumulator pulls := by
  induction us generalizing s with
  | nil => rfl
  | cons u us ih => exact ih (s.feed accumulator u)

theorem run_feeds {b : Bench} {slot : Slot} (h : b.slots = [slot]) (us : List Value) :
    b.run (us.map (.feed 0)) =
      { b with
        store := us.foldl (fun s u => s.feed slot.accumulator u) b.store
        slots := [{ slot with fed := slot.fed ++ us }] } := by
  induction us generalizing b slot with
  | nil =>
    simp only [Bench.run, List.map_nil, List.foldl_nil, List.append_nil]
    rw [← h]
  | cons u us ih =>
    have hstep : b.perform (.feed 0 u) =
        { b with
          store := b.store.feed slot.accumulator u
          slots := [{ slot with fed := slot.fed ++ [u] }] } := by
      simp [Bench.perform, h]
    have hrest := ih (b := b.perform (.feed 0 u)) (by rw [hstep])
    simp only [Bench.run, List.map_cons, List.foldl_cons] at hrest ⊢
    rw [hrest, hstep]
    simp

/-- Where the calls have left the bench. -/
theorem run_foldingActs (s : Store) (c : Bool) (us : List Value) :
    (Bench.on s).run (foldingActs c us) =
      { store := us.foldl (fun s' u => s'.feed (.shared s.size) u)
          (s.push (Accumulator.new (.bool c)).toValue).1
        slots := [⟨.shared s.size, c, us⟩]
        handed := [] } := by
  have hnew : ((Bench.on s).perform (.new c)).slots = [⟨.shared s.size, c, []⟩] := rfl
  have hfeeds := run_feeds hnew us
  unfold Bench.run at hfeeds ⊢
  rw [foldingActs, List.foldl_cons, hfeeds]
  rfl

theorem toResponse_of_pulls {s : Store} {mode : Mode} {c : Bool} {source : Source Value}
    {us : List Value} {ending : List (Pull Value)}
    (h : (source.seenIn mode).pulls = us.map (.update · false) ++ ending) :
    s.toResponse mode (.bool c) source =
      match ((Bench.on s).run (foldingActs c us)).store.consume (.shared s.size) ending with
      | (t, some f) => (t, .error f)
      | (t, none) => ((t.finalize (.shared s.size)).1, (t.finalize (.shared s.size)).2.orFail) := by
  rw [run_foldingActs]
  unfold toResponse
  rw [h]
  simp only [← consume_append_updates]
  rfl

section
variable {s : Store} {mode : Mode} {c : Bool} {source : Source Value}

theorem toResponse_of_cancelled {j : Nat} (h : (source.seenIn mode).CancelledAt j) :
    s.toResponse mode (.bool c) source =
      (((Bench.on s).run (foldingActs c (source.updates.take j))).store, .error .cancelled) := by
  obtain ⟨u, more, hp⟩ := Source.pulls_of_cancelled h
  rw [source.updates_seenIn] at hp
  rw [toResponse_of_pulls hp]
  rfl

theorem toResponse_of_failure {after : Nat} {f : Failure}
    (h : ∀ j, ¬(source.seenIn mode).CancelledAt j) (hf : source.failure = some (after, f)) :
    s.toResponse mode (.bool c) source =
      (((Bench.on s).run (foldingActs c source.beforeFailure)).store, .error f) := by
  have hp := Source.pulls_of_not_cancelled h
  rw [source.failure_seenIn, hf, source.beforeFailure_seenIn] at hp
  rw [toResponse_of_pulls hp]
  rfl

theorem toResponse_of_success (h : ∀ j, ¬(source.seenIn mode).CancelledAt j)
    (hf : source.failure = none) :
    ∃ outcome, s.toResponse mode (.bool c) source =
        (((Bench.on s).run (foldingActs c source.updates ++ [.finalize 0])).store, outcome.orFail) ∧
      ((Bench.on s).run (foldingActs c source.updates ++ [.finalize 0])).handed =
        [⟨c, source.updates, outcome⟩] := by
  have hp := Source.pulls_of_not_cancelled h
  rw [source.failure_seenIn, hf, source.beforeFailure_seenIn, Source.beforeFailure_of_none hf] at hp
  rw [toResponse_of_pulls hp, Bench.run_append, run_foldingActs]
  exact ⟨_, rfl, rfl⟩

end

/-! ## How a run ends -/

/-- In a store that can be read without an accumulator's help nothing is set aside. -/
theorem Bench.Kept.sound_all {b : Bench} (h : b.Kept) : b.store.Sound [] := by
  refine h.sound.all fun x hx => ?_
  obtain ⟨v, hv, hxv⟩ := List.mem_flatMap.1 hx
  obtain ⟨slot, hm, rfl⟩ := List.mem_map.1 hv
  obtain ⟨y, hy, -, hcell⟩ := (h.slots slot hm).place
  rw [hy] at hxv
  rw [List.mem_singleton.1 hxv, hcell]
  exact ⟨rfl, ((h.slots slot hm).holds_reading h.sound).all⟩

theorem allowsAll_feeds {b : Bench} (h : b.Kept) (n : Nat) {us : List Value}
    (hu : ∀ u ∈ us, b.store.IsUpdate b.cells u) : b.AllowsAll (us.map (.feed n)) := by
  induction us generalizing b with
  | nil => trivial
  | cons u us ih =>
    obtain ⟨hu, hus⟩ := List.forall_mem_cons.1 hu
    obtain ⟨hkept, hlater⟩ := h.feed n hu
    exact ⟨hu, ih hkept fun v hv => hlater.isUpdate h.sound (hus v hv)⟩

theorem allowsAll_foldingActs {s : Store} (hs : s.Sound []) (c : Bool) {us : List Value}
    (hu : ∀ u ∈ us, s.IsUpdate [] u) : (Bench.on s).AllowsAll (foldingActs c us) := by
  obtain ⟨hkept, hlater⟩ := (Bench.kept_on hs).new c
  exact ⟨trivial, allowsAll_feeds hkept 0 fun u h => hlater.isUpdate hs (hu u h)⟩

/-- **A run in a store** ends as it would if all updates were read first. What it makes is new: no
cell that was there has changed. -/
theorem toResponse_ends {s : Store} (hs : s.Sound []) (tracing : Bool) (mode : Mode) (c : Bool)
    {source : Source Value} (hu : ∀ v ∈ source.updates, s.IsUpdate [] v) :
    s.Later [] (s.toResponse mode (.bool c) source).1 [] ∧
      match (reconstruct s tracing mode c (source.map s.update)).outcome with
      | .error f => (s.toResponse mode (.bool c) source).2 = .error f
      | .ok r => ∃ v, (s.toResponse mode (.bool c) source).2 = .ok v ∧
          (s.toResponse mode (.bool c) source).1.Holds [] v ∧
          s.AlikeIn (s.toResponse mode (.bool c) source).1 r.toValue v := by
  have later : ∀ (us : List Value) (more : List Act), (∀ u ∈ us, u ∈ source.updates) →
      ((Bench.on s).run (foldingActs c us)).AllowsAll more →
      ((Bench.on s).run (foldingActs c us ++ more)).Kept ∧
        s.Later [] ((Bench.on s).run (foldingActs c us ++ more)).store [] := by
    intro us more hus hmore
    have hall := Bench.allowsAll_append.2
      ⟨allowsAll_foldingActs hs c fun u h => hu u (hus u h), hmore⟩
    obtain ⟨hkept, hlater⟩ := (Bench.kept_on hs).run hall
    exact ⟨hkept, hlater.frame, hkept.sound_all, fun x hx => absurd hx List.not_mem_nil⟩
  by_cases hc : ∃ j, (source.seenIn mode).CancelledAt j
  · obtain ⟨j, hj⟩ := hc
    have hrecords : ((source.map s.update).seenIn mode).CancelledAt j := by
      rw [Source.seenIn_map]
      exact (Source.cancelledAt_map _ j).2 hj
    have hl := (later (source.updates.take j) [] (fun u => List.mem_of_mem_take) trivial).2
    rw [List.append_nil] at hl
    rw [toResponse_of_cancelled hj, (reconstruct_of_cancelled s tracing c mode hrecords).1]
    exact ⟨hl, rfl⟩
  · have hc : ∀ j, ¬(source.seenIn mode).CancelledAt j := fun j hj => hc ⟨j, hj⟩
    have hrecords : ∀ j, ¬((source.map s.update).seenIn mode).CancelledAt j := by
      intro j
      rw [Source.seenIn_map, Source.cancelledAt_map]
      exact hc j
    cases hf : source.failure with
    | some f =>
      have hl := (later source.beforeFailure [] (fun u => Source.mem_of_mem_beforeFailure) trivial).2
      rw [List.append_nil] at hl
      rw [toResponse_of_failure hc hf, (reconstruct_of_failure s tracing c mode hrecords hf).1]
      exact ⟨hl, rfl⟩
    | none =>
      obtain ⟨outcome, hrun, hhanded⟩ := toResponse_of_success (s := s) (c := c) hc hf
      obtain ⟨hkept, hl⟩ := later source.updates [.finalize 0] (fun u h => h) ⟨trivial, trivial⟩
      have hfold := ofUpdates_foldOf (fun v hv => (hu v hv).formed) c
      have hread : (source.map s.update).updates = source.updates.map s.update := rfl
      rw [hrun, (reconstruct_of_success s tracing c mode hrecords hf).1, hread, hfold]
      refine ⟨hl, ?_⟩
      have hmem : (⟨c, source.updates, outcome⟩ : Handed) ∈
          ((Bench.on s).run (foldingActs c source.updates ++ [.finalize 0])).handed := by
        rw [hhanded]
        exact List.mem_singleton.2 rfl
      obtain ⟨v, hv, hheld, hlike⟩ := (hkept.handed _ hmem).outcome
      have hwork := working_foldOf hs hu c
      refine ⟨v, congrArg Checked.orFail hv, hheld.all, fun depth => ?_⟩
      rw [← hlike depth, hl.frame.foldOf hs hu, hl.frame.layers hs depth _ hwork.holds]

/-- **A run to the end** gives the response that the updates make. -/
theorem toResponse_of_updates {s : Store} (hs : s.Sound []) (mode : Mode) (c : Bool)
    {us : List Value} (hu : ∀ v ∈ us, s.IsUpdate [] v) :
    ∃ t v, s.toResponse mode (.bool c) { updates := us } = (t, .ok v) ∧ s.Later [] t [] ∧
      t.Holds [] v ∧ s.AlikeIn t (s.foldOf c us).toValue v := by
  let source : Source Value := { updates := us }
  have hall : ∀ v ∈ source.updates, s.IsUpdate [] v := hu
  have hends := toResponse_ends hs false mode c hall
  have hread : source.map s.update = { updates := us.map s.update } := rfl
  rw [hread, reconstruct_list, ofUpdates_foldOf fun v hv => (hu v hv).formed] at hends
  obtain ⟨hlater, v, hv, hheld, hlike⟩ := hends
  exact ⟨_, v, Prod.ext rfl hv, hlater, hheld, hlike⟩

end Reassembly
