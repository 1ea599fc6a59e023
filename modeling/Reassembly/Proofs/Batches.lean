import Reassembly.Proofs.Calls

/-!
# What a call adds

A call that waits for its updates keeps an accumulator, and what the accumulator holds is what the
updates make that the call has been given so far. When its source has no more, the list grows by
that, whatever has happened to the store in the meantime.

* `gives_of_pulls`, `add_failed`: what the answers of a source say of it.
* `Store.Brings`: a batch is what an addition makes; `Brings.later`, `Brings.alike`: it stays so,
  and is the same whenever it is made.
* `conclude_grows`: the end of a call.
-/
namespace Reassembly

open Store

/-! ## What a source has been good for -/

namespace Source

variable {source : Source Value} {mode : Mode} {us : List Value}

theorem gives_of_pulls (h : (source.seenIn mode).pulls = us.map (.update · false)) :
    source.Gives mode us := by
  have calm : ∀ j, ¬(source.seenIn mode).CancelledAt j := by
    intro j hj
    obtain ⟨u, more, hp⟩ := pulls_of_cancelled hj
    have hm : .update u true ∈ us.map (Pull.update · false) := by
      rw [← h, hp]
      exact List.mem_append_right _ List.mem_cons_self
    obtain ⟨v, -, hv⟩ := List.mem_map.1 hm
    cases hv
  have hp := pulls_of_not_cancelled calm
  rw [source.failure_seenIn, source.beforeFailure_seenIn, h] at hp
  cases hf : source.failure with
  | some f =>
    rw [hf] at hp
    have hm : .failure f.2 ∈ us.map (Pull.update · false) := by
      rw [hp]
      exact List.mem_append_right _ List.mem_cons_self
    obtain ⟨v, -, hv⟩ := List.mem_map.1 hm
    cases hv
  | none =>
    rw [hf, beforeFailure_of_none hf, Option.map_none, Option.toList_none, List.append_nil] at hp
    have inj : Function.Injective (Pull.update (α := Value) · false) := by
      intro v w h
      cases h
      rfl
    exact ⟨(List.map_injective_iff.2 inj hp).symm, hf, calm⟩

end Source

section
variable {s t : Store} {aside more : List Nat} {ref : Nat}

theorem add_failed {mode : Mode} {sized : Bool} {source : Source Value}
    (starts : source.isNothing mode sized = false) {us : List Value} {pulls : List (Pull Value)}
    (given : (source.seenIn mode).pulls = us.map (.update · false) ++ pulls) {f : Failure}
    (fails : ∀ (s : Store) accumulator, s.consume accumulator pulls = (s, some f)) :
    (s.add (.shared ref) (.updates mode sized (some source))).2 = .error f := by
  rw [add_updates_eq, beginAdding_source, starts]
  simp only [Bool.false_eq_true, if_false, takeRest, given, consume_append_updates, fails]

/-! ## What a call has added -/

/-- The batch is what the addition makes, if one reads it now. Nothing of that leads to what is set
aside. -/
inductive Store.Brings (s : Store) (aside : List Nat) : Addition → List Value → Prop
  | response {r} (hr : s.IsResponse aside r) : s.Brings aside (.response r) (s.responseMessages r)
  | updates {mode sized source batch} (gives : source.Gives mode source.updates)
      (hu : ∀ u ∈ source.updates, s.IsUpdate aside u) (holds : ∀ m ∈ batch, s.Holds aside m)
      (alike :
        List.Forall₂ s.Alike ((s.foldOf true source.updates).messages.map (·.toValue)) batch) :
      s.Brings aside (.updates mode sized (some source)) batch

theorem holds_foldOf (hs : s.Sound aside) {us : List Value} (hu : ∀ u ∈ us, s.IsUpdate aside u) :
    ∀ m ∈ (s.foldOf true us).messages.map (·.toValue), s.Holds aside m :=
  List.forall_mem_map.2 fun m hm =>
    holds_message.2 ((holds_response.1 (working_foldOf hs hu true).holds).messages m hm)

theorem Store.IsResponse.ne_null {v : Value} (h : s.IsResponse aside v) : v ≠ .null := by
  obtain ⟨-, messages, items, -, -, -, hhead⟩ := formed_response h.formed
  exact ne_null_of_object hhead

theorem Store.IsResponse.holds_messages (hs : s.Sound aside) {v : Value}
    (h : s.IsResponse aside v) : ∀ m ∈ s.responseMessages v, s.Holds aside m := by
  obtain ⟨-, messages, items, hitems, -, -, hhead⟩ := formed_response h.formed
  have hmessages := holds_object.1 (hhead ▸ hs.head h.holds) messages (by simp)
  rw [responseMessages_of_head hhead hitems]
  exact holds_list.1 (hitems ▸ hs.head hmessages)

theorem Store.Later.isResponse (h : s.Later aside t more) (hs : s.Sound aside) {v : Value}
    (hv : s.IsResponse aside v) :
    t.IsResponse more v ∧ t.responseMessages v = s.responseMessages v := by
  obtain ⟨-, messages, items, hitems, -, -, hhead⟩ := formed_response hv.formed
  have hmessages : s.Holds aside messages :=
    holds_object.1 (hhead ▸ hs.head hv.holds) messages (by simp)
  have hsame : t.responseMessages v = s.responseMessages v := by
    rw [responseMessages_of_head hhead hitems, responseMessages_of_head
      ((h.frame.head hv.holds).trans hhead) ((h.frame.head hmessages).trans hitems)]
  refine ⟨⟨?_, h.holds hv.holds, ?_⟩, hsame⟩
  · exact formed_of_alikeIn hs h.sound hv.holds (h.holds hv.holds) (h.frame.alike hs hv.holds)
      hv.formed
  · rw [hsame]
    exact hv.own

/-- **What a call has added** stays what its addition makes. -/
theorem Store.Brings.later (h : s.Later aside t more) (hs : s.Sound aside) {addition : Addition}
    {batch : List Value} (hm : s.Brings aside addition batch) : t.Brings more addition batch := by
  cases hm with
  | response hr =>
    obtain ⟨hlater, hsame⟩ := h.isResponse hs hr
    rw [← hsame]
    exact .response hlater
  | updates gives hu holds alike =>
    refine .updates gives (fun u hm => h.isUpdate hs (hu u hm))
      (fun m hm => h.holds (holds m hm)) ?_
    have hkept : List.Forall₂ (s.AlikeIn t) _ _ :=
      (forall₂_alikeIn_iff (s := s) (t := t)).2 fun depth => by
        rw [forall₂_alikeIn_iff.1 alike depth]
        exact List.map_congr_left fun m hm => (h.frame.layers hs depth m (holds m hm)).symm
    rw [h.frame.foldOf hs hu]
    exact (h.frame.forall₂_alike hs (holds_foldOf hs hu)).1 hkept

/-! ## One step of a call -/

theorem Slot.Kept.sound_all {slot : Slot} (h : slot.Kept t aside) (hs : s.Sound [])
    (ht : t.Sound aside) (inside : ∀ y ∈ aside, y < s.size) {x : Nat}
    (hx : slot.accumulator = .shared x) (hf : s.Frame [x] t) : t.Sound [] := by
  refine sound_all_of_frame hs ht hf inside fun y hy _ => ?_
  obtain ⟨z, hz, -, hcell⟩ := h.place
  obtain rfl : x = z := Value.shared.inj (hx.symm.trans hz)
  rw [List.mem_singleton.1 hy, hcell]
  exact ⟨rfl, (h.holds_reading ht).all⟩

theorem Slot.Kept.ne_of_list {slot : Slot} (h : slot.Kept s aside) {x : Nat}
    (hx : slot.accumulator = .shared x) {old : List Value} (hl : s.cell ref = .list old) :
    x ≠ ref := by
  rintro rfl
  obtain ⟨z, hz, -, hcell⟩ := h.place
  obtain rfl : x = z := Value.shared.inj (hx.symm.trans hz)
  rw [hl] at hcell
  cases hcell

/-- **The end of a call**: the list grows by what the updates make that it has been given. -/
theorem conclude_grows (hall : s.Sound []) (hs : s.Sound aside) (href : ref ∈ aside)
    {old : List Value} (hl : s.cell ref = .list old) {x : Nat} {fed : List Value}
    (hk : Slot.Kept s aside ⟨.shared x, true, fed⟩) :
    ∃ t batch, s.conclude (.shared ref) (.shared x) = (t, .ok .null) ∧
      t.cell ref = .list (old ++ batch) ∧ t.Sound [] ∧ t.Sound aside ∧ s.Frame [ref, x] t ∧
      (∀ m ∈ batch, t.Holds aside m) ∧
      List.Forall₂ t.Alike ((t.foldOf true fed).messages.map (·.toValue)) batch := by
  obtain ⟨t, v, hfinal, sound, size, others, kept, new⟩ := hk.finalize hs rfl
  have hne : ref ≠ x := (hk.ne_of_list rfl hl).symm
  have hframe : s.Frame [x] t := ⟨size, fun y hy hn => others y hy (by simpa using hn)⟩
  have ht : t.Sound [] := kept.sound_all hall sound hs.inside rfl hframe
  have hlist : t.cell ref = .list old := (others ref (hs.inside ref href) hne).trans hl
  obtain ⟨w, hw, hheld, hlike⟩ := new.outcome
  cases hw
  obtain ⟨hv0, hmade, hms⟩ := responseMessages_of_alikeIn sound hheld hlike
  obtain ⟨u, got, hgrow, hcell, hkeep, hsound, hgot, hsame⟩ :=
    growBy_clear sound href hlist hms
  have hgrown := grown_growBy ht hlist fun m hm => (hms m hm).all
  rw [hgrow] at hgrown
  have hkeepAside : t.Frame aside u := hkeep.mono fun y hy _ => List.mem_singleton.1 hy ▸ href
  refine ⟨u, got, ?_, hcell, hgrown.sound, hsound, ?_, hgot, ?_⟩
  · have hfinal : s.finalize (.shared x) = (t, .ok v) := hfinal
    simp only [conclude, hfinal, addResponseTo_of_ne_null ref hv0, hgrow]
  · exact (hframe.mono fun y hy _ => by simp_all).trans (hkeep.mono fun y hy _ => by simp_all)
  · rw [hkeepAside.foldOf sound new.fed]
    exact (hkeepAside.forall₂_alike sound (holds_foldOf sound new.fed)).1
      (forall₂_alikeIn_trans hmade hsame)

end

/-! ## The same addition at another time -/

section
variable {s t u : Store} {aside more most : List Nat} {addition : Addition}
  {batch alone : List Value}

/-- The same addition makes the same messages in every later store. -/
theorem Store.Brings.alike (hs : s.Sound aside) (hc : addition.Clear s aside)
    (ht : s.Later aside t more) (hu : s.Later aside u most) (hb : t.Brings more addition batch)
    (ha : u.Brings most addition alone) : List.Forall₂ (t.AlikeIn u) batch alone := by
  cases hb with
  | response hr =>
    cases ha with
    | response _ =>
      have hclear := hc.resolve_left hr.ne_null
      have hheld := hclear.holds_messages hs
      rw [(ht.isResponse hs hclear).2, (hu.isResponse hs hclear).2]
      refine List.forall₂_same.2 fun m hm => ?_
      exact (ht.frame.alike hs (hheld m hm)).symm.trans (hu.frame.alike hs (hheld m hm))
  | @updates _ _ source _ _ _ _ alike =>
    cases ha with
    | updates _ _ _ alike' =>
      have hall : ∀ v ∈ source.updates, s.IsUpdate aside v := (hc source rfl).2
      rw [ht.frame.foldOf hs hall] at alike
      rw [hu.frame.foldOf hs hall] at alike'
      have hbatch := (ht.frame.forall₂_alike hs (holds_foldOf hs hall)).2 alike
      have halone := (hu.frame.forall₂_alike hs (holds_foldOf hs hall)).2 alike'
      exact forall₂_alikeIn_iff.2 fun depth =>
        (forall₂_alikeIn_iff.1 hbatch depth).symm.trans (forall₂_alikeIn_iff.1 halone depth)

end

section
variable {s : Store} {aside : List Nat} {addition : Addition} {batch : List Value}

/-- What has been added came of something that is clear of what is set aside. -/
theorem Store.Brings.clear (h : s.Brings aside addition batch) : addition.Clear s aside := by
  cases h with
  | response hr => exact .inr hr
  | updates gives hu _ _ =>
    rintro x ⟨⟩
    exact ⟨fun _ => gives.failure, hu⟩

theorem Store.Brings.holds (hs : s.Sound aside) (h : s.Brings aside addition batch) :
    ∀ m ∈ batch, s.Holds aside m := by
  cases h with
  | response hr => exact hr.holds_messages hs
  | updates _ _ holds _ => exact holds

end

end Reassembly
