import Reassembly.Proofs.Streams

/-!
# Accumulators are isolated

Calls on several accumulators may follow each other in any order, and may feed the same update to
several of them, or several times to one. Each accumulator then gives what it would have given
alone, and can be used again; what it has given is never changed.

* `fedSince`: the updates that went into one accumulator since it was last finalized, read off the
  calls.
* `slots_run`: a bench keeps account of them.
* `Handed.Kept.toResponse`: what has been handed over is what a run over its updates gives.
* `finalize_isolated`: the whole statement, for one accumulator among any number.
-/
namespace Reassembly

open Store

/-! ## What went into an accumulator -/

/-- What accumulator `n` holds after a call, if it held `us` before. -/
def Act.fedTo (n : Nat) (us : List Value) : Act → List Value
  | .feed m update => if m = n then us ++ [update] else us
  | .finalize m => if m = n then [] else us
  | .new _ | .build _ => us

/-- The updates that these calls have fed to accumulator `n` since they last finalized it, or since
their start. -/
def fedSince (n : Nat) (acts : List Act) : List Value := acts.foldl (Act.fedTo n) []

section
variable {b : Bench} {n : Nat} {slot : Slot}

/-- **One call** changes the account of an accumulator as `fedTo` says. -/
theorem slots_perform (h : b.slots[n]? = some slot) (act : Act) :
    (b.perform act).slots[n]? = some { slot with fed := act.fedTo n slot.fed } := by
  have hlt := (List.getElem?_eq_some_iff.1 h).1
  have other : ∀ {m : Nat} {later : Slot}, m ≠ n → (b.slots.set m later)[n]? = some slot :=
    fun hne => by rw [List.getElem?_set_ne hne, h]
  cases act with
  | new c =>
    show (b.slots ++ _)[n]? = some slot
    rw [List.getElem?_append_left hlt, h]
  | build v => exact h
  | feed m update =>
    by_cases hm : m = n
    · subst hm
      simp only [Bench.perform, h, Act.fedTo, if_pos]
      rw [List.getElem?_set_self hlt]
    · simp only [Bench.perform, Act.fedTo, if_neg hm]
      split
      · exact h
      · exact other hm
  | finalize m =>
    by_cases hm : m = n
    · subst hm
      simp only [Bench.perform, h, Act.fedTo, if_pos]
      rw [List.getElem?_set_self hlt]
    · simp only [Bench.perform, Act.fedTo, if_neg hm]
      split
      · exact h
      · exact other hm

theorem slots_run (h : b.slots[n]? = some slot) (acts : List Act) :
    (b.run acts).slots[n]? = some { slot with fed := acts.foldl (Act.fedTo n) slot.fed } := by
  induction acts generalizing b slot with
  | nil => exact h
  | cons act acts ih => exact ih (slots_perform h act)

theorem slots_new (b : Bench) (c : Bool) :
    (b.perform (.new c)).slots[b.slots.length]? = some ⟨.shared b.store.size, c, []⟩ := by
  show (b.slots ++ [Slot.mk (.shared b.store.size) c []])[b.slots.length]? = _
  simp

theorem mem_handed_run {h : Handed} (hm : h ∈ b.handed) (acts : List Act) :
    h ∈ (b.run acts).handed := by
  induction acts generalizing b with
  | nil => exact hm
  | cons act acts ih =>
    refine ih ?_
    cases act with
    | new c => exact hm
    | build v => exact hm
    | feed n update =>
      simp only [Bench.perform]
      split
      · exact hm
      · exact hm
    | finalize n =>
      simp only [Bench.perform]
      split
      · exact hm
      · exact List.mem_append_left _ hm

end

/-! ## What an accumulator gives -/

/-- **What has been handed over** is, by value, what a run over its updates gives. -/
theorem Handed.Kept.toResponse {s : Store} {aside : List Nat} {h : Handed} (hk : h.Kept s aside)
    (hs : s.Sound []) (mode : Mode) :
    ∃ v t w, h.outcome = .ok v ∧
      s.toResponse mode (.bool h.coalesce) { updates := h.fed } = (t, .ok w) ∧ t.Alike v w := by
  obtain ⟨v, hv, hheld, hlike⟩ := hk.outcome
  have hu : ∀ u ∈ h.fed, s.IsUpdate [] u := fun u hm =>
    ⟨(hk.fed u hm).formed, (hk.fed u hm).holds.all⟩
  obtain ⟨t, w, hrun, hlater, -, hsame⟩ := toResponse_of_updates hs mode h.coalesce hu
  have hkeep : s.AlikeIn t v v := hlater.frame.alike hs hheld.all
  have hfold : s.AlikeIn s v (s.foldOf h.coalesce h.fed).toValue := hlike.symm
  exact ⟨v, t, w, hv, hrun, (hkeep.symm.trans hfold).trans hsame⟩

theorem Slot.Kept.accumulator_of_empty {s : Store} {aside : List Nat} {slot : Slot}
    (h : slot.Kept s aside) (he : slot.fed = []) :
    s.accumulator slot.accumulator = Accumulator.new (.bool slot.coalesce) := by
  obtain ⟨x, hx, -, hcell⟩ := h.place
  have hread : slot.reading s = Accumulator.new (.bool slot.coalesce) := by
    unfold Slot.reading
    rw [he]
    rfl
  rw [hx, accumulator_of_cell hcell, hread]

/-- **Accumulators are isolated.** Say an accumulator is made among any others, and any calls follow
on any of them. Finalizing it then gives, by value, what a run over the updates gives that were fed
to it since it was last finalized. It is as new afterwards. And whatever is called then, no cell of
the response changes, nor does anything that can be read from it. -/
theorem finalize_isolated {s : Store} (hs : s.Sound []) {first between more : List Act} {c : Bool}
    {n : Nat} (hn : n = ((Bench.on s).run first).slots.length)
    (ha : (Bench.on s).AllowsAll (first ++ .new c :: between ++ .finalize n :: more)) (mode : Mode) :
    let accumulator : Value := .shared ((Bench.on s).run first).store.size
    let before := (Bench.on s).run (first ++ .new c :: between)
    let after := before.perform (.finalize n)
    let later := after.run more
    ∃ v, before.store.finalize accumulator = (after.store, .ok v) ∧
      (∃ t w, later.store.toResponse mode (.bool c) { updates := fedSince n between } = (t, .ok w) ∧
        t.Alike v w) ∧
      after.store.accumulator accumulator = .new (.bool c) ∧
      (∀ x ∈ after.store.reachedBy v, later.store.cell x = after.store.cell x) ∧
      after.store.AlikeIn later.store v v := by
  intro accumulator before after later
  obtain ⟨hbefore, hfinal, hmore⟩ := Bench.allowsAll_append.1 ha
  obtain ⟨kbefore, -⟩ := (Bench.kept_on hs).run hbefore
  obtain ⟨kafter, -⟩ := kbefore.step hfinal
  obtain ⟨klater, hlater⟩ := kafter.run hmore
  -- what the account of the accumulator says before and after it is finalized
  have hslot : before.slots[n]? = some ⟨accumulator, c, fedSince n between⟩ := by
    have hnew := slots_new ((Bench.on s).run first) c
    rw [← hn] at hnew
    have hrun := slots_run hnew between
    show ((Bench.on s).run (first ++ .new c :: between)).slots[n]? = _
    rw [Bench.run_append]
    exact hrun
  have hempty : after.slots[n]? = some ⟨accumulator, c, []⟩ := by
    have h := slots_perform hslot (.finalize n)
    simp only [Act.fedTo, if_pos] at h
    exact h
  let handed : Handed := ⟨c, fedSince n between, (before.store.finalize accumulator).2⟩
  have hafter : after.store = (before.store.finalize accumulator).1 ∧ handed ∈ after.handed := by
    simp [after, handed, Bench.perform, hslot]
  obtain ⟨v, hv, hheld, -⟩ := (kafter.handed handed hafter.2).outcome
  obtain ⟨v', t, w, hv', hrun, hlike⟩ :=
    (klater.handed handed (mem_handed_run hafter.2 more)).toResponse klater.sound_all mode
  have heq : v' = v := by
    rw [hv] at hv'
    exact (Except.ok.inj hv').symm
  refine ⟨v, Prod.ext hafter.1.symm hv, ⟨t, w, hrun, heq ▸ hlike⟩, ?_, ?_, ?_⟩
  · exact (kafter.slots _ (List.mem_of_getElem? hempty)).accumulator_of_empty rfl
  · intro x hx
    obtain ⟨hlt, hout⟩ := (reachedBy_region kafter.sound hheld).1 x hx
    exact hlater.frame.cell x hlt hout
  · exact hlater.frame.alike kafter.sound hheld

/-! ## Two accumulators that hear the same -/

/-- An update that says one word. -/
def word (text : String) : Value := { Update.blank with contents := [plainText text] }.toValue

/-- A store with two updates, in cells 10 and 13. -/
def spoken : Store := (Store.empty.internAll [word "hel", word "lo"]).1

/-- The first update goes into both accumulators; then the second accumulator is finalized, and
hears the other update twice. -/
def talk : List Act :=
  [.feed 1 (.shared 10), .feed 0 (.shared 10), .finalize 1, .feed 1 (.shared 13),
    .feed 1 (.shared 13)]

/-- And they go on after the second accumulator has been finalized again. -/
def smallTalk : List Act := [.feed 1 (.shared 13), .finalize 0, .feed 0 (.shared 10), .finalize 1]

theorem finalize_isolated_talk :
    let before := (Bench.on spoken).run ([.new false] ++ .new true :: talk)
    let after := before.perform (.finalize 1)
    let later := after.run smallTalk
    ∃ v, before.store.finalize (.shared 15) = (after.store, .ok v) ∧
      (∃ t w, later.store.toResponse .sync (.bool true) { updates := [.shared 13, .shared 13] } =
        (t, .ok w) ∧ t.Alike v w) ∧
      after.store.accumulator (.shared 15) = .new (.bool true) ∧
      (∀ x ∈ after.store.reachedBy v, later.store.cell x = after.store.cell x) ∧
      after.store.AlikeIn later.store v v :=
  finalize_isolated (by decide) rfl (by decide +kernel) .sync

end Reassembly
