import Reassembly.Proofs.Meetings

/-!
# Moves of a meeting

Each move leaves the list as it is, or lets it grow by one batch: that of the call that has come to
its end. A call that takes all of its updates at once goes through the same moves as one that waits
for them, with nobody in between.

* `Kept.begin`, `Kept.pull`: a call comes in, and goes on when its source answers.
* `Kept.addResponse`, `Kept.addUpdates`: a call comes in and is over at once.
* `Kept.step`, `Kept.run`: one move, and any number of them.
* `Kept.alone`: what a call would have added at an earlier time.
-/
namespace Reassembly

open Store

namespace Meeting

section
variable {w v : Meeting} {ref n : Nat} {items : List Value} {batches made : List (List Value)}
  {own : List Nat} {call : Call}

/-! ## A call comes in -/

theorem next_enter (w : Meeting) (ref : Nat) (addition : Addition) (place : Value)
    (effect : Store × Stage) (sound : effect.1.Sound []) (frame : w.store.Frame [ref] effect.1)
    (cells : ∀ x ∈ effect.2.cells, w.store.size ≤ x) :
    w.Next ref w.calls.length [] ⟨addition, place, effect.2⟩ (w.enter addition place effect) where
  sound := sound
  frame := frame
  owned := fun x hx => by cases hx
  cells := fun x hx => .inr (cells x hx)
  others := by
    intro m hm
    show (w.calls ++ _)[m]? = _
    rcases Nat.lt_or_gt_of_ne hm with hlt | hgt
    · rw [List.getElem?_append_left hlt]
    · rw [List.getElem?_eq_none (by simp; omega), List.getElem?_eq_none (by omega)]
  reached := getElem?_enter w addition place effect
  before := fun c hc => by simp at hc

theorem Kept.enter_failed (h : w.Kept ref items batches) {addition : Addition} {place : Value}
    {f : Failure} (fails : ∀ t : Store, (t.add place addition).2 = .error f) :
    w.Onward ref items batches (w.enter addition place (w.store, .ended (.error f))) := by
  have hx := next_enter w ref addition place (w.store, .ended (.error f)) h.sound
    (.refl _ _) fun x hx => by cases hx
  refine h.onward [] hx ?_ (.failed fails) rfl .nil
  rw [List.append_nil]
  exact h.list

theorem Kept.begin_nothing (h : w.Kept ref items batches) {mode : Mode} {sized : Bool}
    {source : Source Value} (hnothing : source.isNothing mode sized = true)
    (hsized : sized = true → source.failure = none) :
    w.Onward ref items batches (w.begin (.shared ref) mode sized (some source)) := by
  have hx := next_enter w ref (.updates mode sized (some source)) (.shared ref)
    (w.store, .ended (.ok .null)) h.sound (.refl _ _) fun x hx => by cases hx
  rw [begin, beginAdding_source, if_pos hnothing]
  simp only [Source.isNothing, Bool.and_eq_true, decide_eq_true_eq, List.isEmpty_iff] at hnothing
  obtain ⟨⟨rfl, rfl⟩, hnone⟩ := hnothing
  have gives : source.Gives .sync source.updates := ⟨rfl, hsized rfl, Source.not_cancelledAt_sync _⟩
  refine h.onward [[]] hx ?_ .done rfl
    (.cons ⟨_, hx.reached, rfl, rfl, .updates gives ?_ (fun m hm => by cases hm) ?_⟩ .nil)
  · rw [List.flatten_concat, List.append_nil]
    exact h.list
  · rw [hnone]
    exact fun u hu => by cases hu
  · rw [hnone]
    exact .nil

theorem Kept.begin_taking (h : w.Kept ref items batches) {mode : Mode} {sized : Bool}
    {source : Source Value} (starts : source.isNothing mode sized = false) :
    w.Onward ref items batches (w.begin (.shared ref) mode sized (some source)) := by
  let a := Accumulator.new (.bool true)
  let waiting : Store × Stage :=
    ((w.store.push a.toValue).1, .taking (.shared w.store.size) (source.seenIn mode).pulls)
  have hgrows : w.store.Extends waiting.1 := extends_push w.store a.toValue
  have hnew : w.store.size < waiting.1.size := by
    rw [size_push]
    exact Nat.lt_succ_self _
  have hx := next_enter w ref (.updates mode sized (some source)) (.shared ref) waiting
    (h.sound.push (holds_of_refs_nil rfl) rfl) (.of_extends _ hgrows)
    fun x hx => Nat.le_of_eq (List.mem_singleton.1 hx).symm
  have hin : w.store.size ∈ (w.enter _ _ waiting).aside ref :=
    mem_aside hx.reached (List.mem_singleton.2 rfl) hnew
  have hslot : Slot.Kept waiting.1 _ ⟨.shared w.store.size, true, []⟩ :=
    ⟨⟨_, rfl, hin, cell_push_self _ _⟩, fun u hu => by cases hu⟩
  rw [begin, beginAdding_source, starts]
  refine h.onward [] hx ?_ (.taking starts rfl hslot) rfl .nil
  rw [List.append_nil, ← h.list]
  exact hgrows.cell (lt_size_of_list h.list)

theorem Kept.begin (h : w.Kept ref items batches) {place : Value}
    (hplace : place = .shared ref ∨ place = .null) (mode : Mode) {sized : Bool}
    {source : Option (Source Value)} (hsized : ∀ x ∈ source, sized = true → x.failure = none) :
    w.Onward ref items batches (w.begin place mode sized source) := by
  rcases hplace with rfl | rfl
  · cases source with
    | none => exact h.enter_failed fun t => rfl
    | some source =>
      cases starts : source.isNothing mode sized with
      | true => exact h.begin_nothing starts (hsized source rfl)
      | false => exact h.begin_taking starts
  · exact h.enter_failed fun t => rfl

theorem Kept.addResponse (h : w.Kept ref items batches) {place response : Value}
    (hplace : place = .shared ref ∨ place = .null)
    (hr : (Addition.response response).Clear w.store (w.aside ref)) :
    w.Onward ref items batches (w.atOnce place (.response response)) := by
  rcases hplace with rfl | rfl
  · rcases hr with rfl | hr
    · exact h.enter_failed fun t => rfl
    · have hheld := hr.holds_messages h.sound_aside
      let batch := w.store.responseMessages response
      let t := w.store.write (.shared ref) (.list (items ++ batches.flatten ++ batch))
      have hadd : w.store.add (.shared ref) (.response response) = (t, .ok .null) := by
        refine (addResponseTo_of_ne_null ref hr.ne_null).trans ?_
        rw [growBy_list h.list, internAll_of_plain hr.own]
      have hgrown := grown_growBy h.sound h.list fun m hm => (hheld m hm).all
      rw [growBy_list h.list, internAll_of_plain hr.own] at hgrown
      have hx := next_enter w ref (.response response) (.shared ref)
        (t, .ended (.ok .null)) hgrown.sound hgrown.frame fun x hx => by cases hx
      obtain ⟨hlater, hsame⟩ := (hx.later h).isResponse h.sound_aside hr
      have hmade := Brings.response hlater
      rw [hsame] at hmade
      rw [atOnce, hadd]
      refine h.onward [batch] hx ?_ .done rfl
        (.cons ⟨_, hx.reached, rfl, rfl, hmade⟩ .nil)
      rw [List.flatten_concat, ← List.append_assoc]
      exact hgrown.list _ h.list
  · exact h.enter_failed fun t => rfl

/-! ## A source answers -/

theorem next_reach (ref : Nat) {c : Call} (hn : w.calls[n]? = some c)
    (hopen : c.stage.isDone = false) (effect : Store × Stage) (sound : effect.1.Sound [])
    (frame : w.store.Frame (ref :: c.stage.cells) effect.1)
    (cells : ∀ x ∈ effect.2.cells, x ∈ c.stage.cells) :
    w.Next ref n c.stage.cells { c with stage := effect.2 } (w.reach n c effect) where
  sound := sound
  frame := frame
  owned := fun x hx => ⟨c, hn, hx⟩
  cells := fun x hx => .inl (cells x hx)
  others := fun m hm => List.getElem?_set_ne (Ne.symm hm)
  reached := getElem?_reach hn effect
  before := by
    intro d hd
    rw [hn] at hd
    cases hd
    exact hopen

theorem Kept.reach_failed (h : w.Kept ref items batches) {c : Call} (hn : w.calls[n]? = some c)
    (hopen : c.stage.isDone = false) {f : Failure}
    (fails : ∀ t : Store, (t.add c.place c.addition).2 = .error f) :
    w.Onward ref items batches (w.reach n c (w.store, .ended (.error f))) := by
  have hx := next_reach ref hn hopen (w.store, .ended (.error f)) h.sound
    (.refl _ _) fun x hx => by cases hx
  refine h.onward [] hx ?_ (.failed fails) rfl .nil
  rw [List.append_nil]
  exact h.list

section
variable {mode : Mode} {sized : Bool} {source : Source Value} {x : Nat} {fed : List Value}

theorem Kept.reach_update (h : w.Kept ref items batches) {u : Value} {pulls : List (Pull Value)}
    (hn : w.calls[n]? = some ⟨.updates mode sized (some source), .shared ref,
      .taking (.shared x) (.update u false :: pulls)⟩)
    (starts : source.isNothing mode sized = false)
    (given : (source.seenIn mode).pulls = fed.map (.update · false) ++ .update u false :: pulls)
    (slot : Slot.Kept w.store (w.aside ref) ⟨.shared x, true, fed⟩)
    (hu : w.store.IsUpdate (w.aside ref) u) :
    w.Onward ref items batches (w.pull n) := by
  let grown : Slot := Slot.after ⟨.shared x, true, fed⟩ u
  let t := w.store.write (.shared x) (grown.reading w.store).toValue
  obtain ⟨hstore, kept⟩ : w.store.feed (.shared x) u = t ∧ grown.Kept t (w.aside ref) :=
    slot.feed h.sound_aside hu rfl
  obtain ⟨hlt, hne⟩ := h.cells hn (List.mem_singleton.2 rfl)
  have hsound : t.Sound (w.aside ref) :=
    h.sound_aside.write (mem_aside hn (List.mem_singleton.2 rfl) hlt) _
  have hall : t.Sound [] :=
    kept.sound_all h.sound hsound h.sound_aside.inside rfl (.of_write List.mem_cons_self _)
  have hx := next_reach ref hn rfl (t, .taking (.shared x) pulls) hall
    (.of_write (List.mem_cons_of_mem _ List.mem_cons_self) _) fun y hy => hy
  have hslot := kept.later (hx.settled h hsound fun y hy => hy) hsound fun y hy => by
    cases hy
    refine ⟨mem_aside hx.reached (List.mem_singleton.2 rfl) ?_, rfl⟩
    exact Nat.lt_of_lt_of_le hlt hx.frame.size
  have hadvance : w.store.advance (.shared ref) (.shared x) (.update u false :: pulls) =
      (t, .taking (.shared x) pulls) := congrArg (·, _) hstore
  rw [pull_of_taking hn rfl, hadvance]
  refine h.onward [] hx ?_ (.taking starts ?_ hslot) rfl .nil
  · rw [List.append_nil, ← h.list]
    exact w.store.cell_write_of_ne fun he => hne (Value.shared.inj he)
  · rw [given, List.map_append, List.append_assoc]
    rfl

/-- **A call comes to its end**, and adds what its updates make. -/
theorem Kept.reach_end (h : w.Kept ref items batches)
    (hn : w.calls[n]? = some ⟨.updates mode sized (some source), .shared ref,
      .taking (.shared x) []⟩)
    (given : (source.seenIn mode).pulls = fed.map (.update · false) ++ [])
    (slot : Slot.Kept w.store (w.aside ref) ⟨.shared x, true, fed⟩) :
    w.Onward ref items batches (w.pull n) := by
  obtain ⟨t, batch, hend, hlist, hall, hsound, hframe, hheld, hlike⟩ :=
    conclude_grows h.sound h.sound_aside h.ref_mem h.list slot
  have hx := next_reach ref hn rfl (t, .ended (.ok .null)) hall hframe
    fun y hy => by cases hy
  have settled := hx.settled h hsound fun y hy => by cases hy
  rw [List.append_nil] at given
  obtain ⟨rfl, hfailure, hcalm⟩ := Source.gives_of_pulls given
  have hmade : Brings (w.reach n _ (t, .ended (.ok .null))).store _
      (.updates mode sized (some source)) batch := .updates ⟨rfl, hfailure, hcalm⟩
    (fun u hu => (hx.later h).isUpdate h.sound_aside (slot.fed u hu))
    (fun m hm => settled.holds (hheld m hm)) hlike
  have hadvance : w.store.advance (.shared ref) (.shared x) [] = (t, .ended (.ok .null)) := by
    show ((w.store.conclude _ _).1, Stage.ended (w.store.conclude _ _).2) = _
    rw [hend]
  rw [pull_of_taking hn rfl, hadvance]
  refine h.onward [batch] hx ?_ .done rfl (.cons ⟨_, hx.reached, rfl, rfl, hmade⟩ .nil)
  rw [List.flatten_concat, ← List.append_assoc]
  exact hlist

end

/-- **The source of a call answers.** -/
theorem Kept.pull (h : w.Kept ref items batches)
    (ha : ∀ c ∈ w.calls[n]?, ∀ u ∈ c.stage.next?, w.store.IsUpdate (w.aside ref) u) :
    w.Onward ref items batches (w.pull n) := by
  cases hn : w.calls[n]? with
  | none =>
    have hpull : w.pull n = w := by simp only [Meeting.pull, hn]
    rw [hpull]
    exact h.refl
  | some c =>
    cases h.calls hn with
    | failed _ =>
      rw [pull_of_ended hn rfl]
      exact h.refl
    | done =>
      rw [pull_of_ended hn rfl]
      exact h.refl
    | @taking mode sized source x pulls fed starts given slot =>
      cases pulls with
      | nil => exact h.reach_end hn given slot
      | cons pull pulls =>
        cases pull with
        | failure f =>
          rw [pull_of_taking hn rfl]
          exact h.reach_failed hn rfl fun t => add_failed starts given fun s a => rfl
        | update u cancelled =>
          cases cancelled with
          | true =>
            rw [pull_of_taking hn rfl]
            exact h.reach_failed hn rfl fun t => add_failed starts given fun s a => rfl
          | false => exact h.reach_update hn starts given slot (ha _ hn u rfl)

theorem pulls_of_pull {d : Call} (hd : d ∈ (w.pull n).calls[n]?) :
    ∃ c ∈ w.calls[n]?, ∀ p ∈ d.stage.pulls, p ∈ c.stage.pulls := by
  cases hn : w.calls[n]? with
  | none =>
    have hpull : w.pull n = w := by simp only [Meeting.pull, hn]
    rw [hpull, hn] at hd
    cases hd
  | some c =>
    refine ⟨c, rfl, ?_⟩
    cases ht : c.stage with
    | ended outcome =>
      rw [pull_of_ended hn ht, hn] at hd
      cases hd
      rw [ht]
      exact fun p hp => hp
    | taking accumulator pulls =>
      rw [pull_of_taking hn ht, getElem?_reach hn] at hd
      cases hd
      cases pulls with
      | nil => exact fun p hp => hp
      | cons pull pulls =>
        cases pull with
        | failure f => exact fun p hp => by cases hp
        | update u cancelled =>
          cases cancelled with
          | true => exact fun p hp => by cases hp
          | false => exact fun p hp => List.mem_cons_of_mem _ hp

theorem updates_of_begin {place : Value} {mode : Mode} {sized : Bool}
    {source : Option (Source Value)} {c : Call} {u : Value}
    (hc : c ∈ (w.begin place mode sized source).calls[w.calls.length]?)
    (hu : .update u false ∈ c.stage.pulls) : ∃ x ∈ source, u ∈ x.updates := by
  rw [begin, getElem?_enter] at hc
  cases hc
  simp only at hu
  unfold beginAdding at hu
  split at hu
  · cases hu
  · cases hu
  · next x _ =>
    split at hu
    · cases hu
    · refine ⟨x, rfl, ?_⟩
      have hm := Source.mem_updates_of_pull hu
      rw [x.updates_seenIn] at hm
      exact hm

/-- **The source of a call answers again and again.** -/
theorem Kept.pulls (h : w.Kept ref items batches)
    (hu : ∀ c ∈ w.calls[n]?, ∀ u, .update u false ∈ c.stage.pulls →
      w.store.IsUpdate (w.aside ref) u) (k : Nat) :
    w.Onward ref items batches ((Meeting.pull · n)^[k] w) := by
  induction k generalizing w batches with
  | zero => exact h.refl
  | succ k ih =>
    have hstep := h.pull fun c hc u hn => hu c hc u (Stage.mem_pulls_of_next? hn)
    refine hstep.trans fun {made} hkept => ih hkept fun d hd u hm => ?_
    obtain ⟨c, hc, hpulls⟩ := pulls_of_pull hd
    exact hstep.later.isUpdate h.sound_aside (hu c hc u (hpulls _ hm))

theorem Kept.addUpdates (h : w.Kept ref items batches) {place : Value}
    (hplace : place = .shared ref ∨ place = .null) (mode : Mode) {sized : Bool}
    {source : Option (Source Value)}
    (hsource : (Addition.updates mode sized source).Clear w.store (w.aside ref)) :
    w.Onward ref items batches (w.atOnce place (.updates mode sized source)) := by
  obtain ⟨k, hk⟩ := atOnce_updates w place mode sized source
  have hbegin := h.begin hplace mode fun x hx => (hsource x hx).1
  rw [hk]
  refine hbegin.trans fun {made} hkept => hkept.pulls (fun c hc u hm => ?_) k
  obtain ⟨x, hx, hin⟩ := updates_of_begin hc hm
  exact hbegin.later.isUpdate h.sound_aside ((hsource x hx).2 u hin)

theorem Kept.build (h : w.Kept ref items batches) {object : Value}
    (ho : w.store.Holds [] object) : w.Onward ref items batches (w.perform (.build object)) := by
  have hcarry := carries_intern h.sound object ho
  have hlater : w.store.Later (w.aside ref) (w.store.intern object).1
      ((w.perform (.build object)).aside ref) :=
    later_leading h.sound hcarry.sound (.of_extends _ hcarry.grows) fun y hy => .inl hy
  have cell : ∀ {x}, x < w.store.size → (w.store.intern object).1.cell x = w.store.cell x :=
    hcarry.grows.cell
  refine ⟨[], [], ⟨hcarry.sound, ?_, h.apart, ?_, ?_, ?_, ?_⟩, (List.append_nil _).symm, hlater⟩
  · rw [List.append_nil, ← h.list]
    exact cell (lt_size_of_list h.list)
  · intro m c hm
    refine (h.calls hm).later hlater h.sound_aside fun x hx => ?_
    have hlt := (h.cells hm hx).1
    exact ⟨mem_aside hm hx (Nat.lt_of_lt_of_le hlt hcarry.frame.size), cell hlt⟩
  · rw [List.append_nil]
    exact h.did.imp fun _ _ ⟨c, hc, hplace, hended, hmade⟩ =>
      ⟨c, hc, hplace, hended, hmade.later hlater h.sound_aside⟩
  · exact h.nodup
  · exact h.complete

/-- **Each move** leaves the list as it is or lets it grow by one batch. -/
theorem Kept.step (h : w.Kept ref items batches) {move : Move} (ha : w.Allows ref move) :
    w.Onward ref items batches (w.perform move) := by
  cases move with
  | begin target source => exact h.begin ha .async fun x _ hs => by cases hs
  | pull n => exact h.pull ha
  | addResponse target response => exact h.addResponse ha.1 ha.2
  | addUpdates target sized source => exact h.addUpdates ha.1 .sync ha.2
  | build object => exact h.build ha

/-- **Any number of moves** do. -/
theorem Kept.run (h : w.Kept ref items batches) {moves : List Move} (ha : w.AllowsAll ref moves) :
    w.Onward ref items batches (w.run moves) := by
  induction moves generalizing w batches with
  | nil => exact h.refl
  | cons move moves ih => exact (h.step ha.1).trans fun hkept => ih hkept ha.2

theorem kept_on {s : Store} (hs : s.Sound []) (hl : s.cell ref = .list items) :
    (Meeting.on s).Kept ref items [] where
  sound := hs
  list := by rw [List.flatten_nil, List.append_nil]; exact hl
  apart := fun hm => by cases hm
  calls := fun hm => by cases hm
  did := .nil
  nodup := .nil
  complete := fun hm => by cases hm

end

/-! ## The same call alone -/

section
variable {w : Meeting} {ref : Nat} {items : List Value} {batches : List (List Value)}

theorem Kept.atOnce (h : w.Kept ref items batches) {addition : Addition}
    (ho : w.Onward ref items batches (w.atOnce (.shared ref) addition))
    (hok : (w.store.add (.shared ref) addition).2 = .ok .null) :
    ∃ t batch more, w.store.add (.shared ref) addition = (t, .ok .null) ∧
      t.cell ref = .list (items ++ batches.flatten ++ batch) ∧
      w.store.Later (w.aside ref) t more ∧ t.Brings more addition batch := by
  obtain ⟨-, made, hkept, -, hlater⟩ := ho
  let v := w.atOnce (.shared ref) addition
  have hcall : v.calls[w.calls.length]? = some ⟨addition, .shared ref, .ended (.ok .null)⟩ := by
    rw [← hok]
    exact getElem?_enter w addition _ _
  have hdone : v.done = w.done ++ [w.calls.length] := by
    show w.done ++ Stage.entry _ (.ended (w.store.add _ _).2) = _
    rw [hok]
    rfl
  have hdid := List.forall₂_drop_append _ _ _ hkept.did
  rw [hdone, ← h.did.length_eq, List.drop_left] at hdid
  obtain ⟨batch, rest, ⟨c, hc, -, -, hmade⟩, hrest, rfl⟩ := List.forall₂_cons_left_iff.1 hdid
  cases hrest
  rw [hcall] at hc
  cases hc
  have hlist := hkept.list
  rw [List.flatten_concat, ← List.append_assoc] at hlist
  exact ⟨_, batch, _, Prod.ext rfl hok, hlist, hlater, hmade⟩

end

section
variable {w : Meeting} {ref : Nat} {items : List Value} {batches : List (List Value)}

/-- An addition that has made something would have been fine at any time at which what it needs was
there, and would have added as much. -/
theorem Kept.alone (h : w.Kept ref items batches) {addition : Addition}
    (hc : addition.Clear w.store (w.aside ref)) {u : Store} {more : List Nat}
    (hl : w.store.Later (w.aside ref) u more) {batch : List Value}
    (hm : u.Brings more addition batch) :
    ∃ t alone, w.store.add (.shared ref) addition = (t, .ok .null) ∧
      t.cell ref = .list (items ++ batches.flatten ++ alone) ∧
      List.Forall₂ (u.AlikeIn t) batch alone := by
  have hadded : w.Onward ref items batches (w.atOnce (.shared ref) addition) ∧
      (w.store.add (.shared ref) addition).2 = .ok .null := by
    cases hm with
    | response hr =>
      refine ⟨h.addResponse (.inl rfl) hc, ?_⟩
      exact congrArg Prod.snd (addResponseTo_of_ne_null ref hr.ne_null)
    | @updates mode sized source _ gives hu _ _ =>
      have hall : ∀ v ∈ source.updates, w.store.IsUpdate [] v := fun v hv =>
        ⟨((hc source rfl).2 v hv).formed, ((hc source rfl).2 v hv).holds.all⟩
      obtain ⟨t, -, hadd, -⟩ := takes_of_gives h.sound h.list hall sized gives
      exact ⟨h.addUpdates (.inl rfl) mode hc, congrArg Prod.snd hadd⟩
  obtain ⟨t, alone, more', hadd, hlist, hlater, hmade⟩ := h.atOnce hadded.1 hadded.2
  exact ⟨t, alone, hadd, hlist, hm.alike h.sound_aside hc hl hlater hmade⟩

end

end Meeting

end Reassembly
