import Reassembly.Accumulator
import Reassembly.Proofs.Carried
import Reassembly.Proofs.Steady

/-!
# Accumulators side by side

A bench is a store on which any number of accumulators are at work. Calls on them may come in any
order, with objects being made in between. Each accumulator writes to its own cell only, and what it
hands over is made of cells that nobody writes to.

* `Bench`, `Act`, `Bench.run`: sequences of calls, with a record of what went into each accumulator
  since it was last finalized, and of what has been handed over.
* `feed_working`, `finalize_working`: what one call on an accumulator does to the store.
* `Bench.Kept`: every accumulator holds the fold of its updates, and every response that has been
  handed over is what its updates make.
* `Store.Later`: a later store, in which no cell has changed but those of the accumulators.
* `Kept.step`, `Kept.run`: one call keeps all this, and so does any sequence of calls.
-/
namespace Reassembly

open Store

/-! ## One accumulator -/

section
variable {s : Store} {aside : List Nat} {x : Nat} {a : Accumulator}

theorem growLists_of_counts {es fs : Value} (he : s.obeys (.optional .counts) es = true) :
    s.growLists es fs = s := by
  have steps : ∀ {gs gs' : Entries Value}, (∀ e ∈ gs, e.2.isInteger = true) →
      gs'.foldl (fun s f => s.growList gs f) s = s := by
    intro gs gs' hg
    induction gs' with
    | nil => rfl
    | cons f fs ih =>
      have hstep : s.growList gs f = s := by
        cases hf : gs.get? f.1 with
        | none => simp [growList, hf]
        | some v =>
          obtain ⟨n, hn⟩ := isInteger_iff.1 (hg _ (Entries.mem_of_get? hf))
          exact growList_of_number s gs f hf (by rw [show v = .int n from hn]; rfl)
      rw [List.foldl_cons, hstep]
      exact ih
  unfold growLists
  split
  · next gs _ hgs _ =>
    refine steps ?_
    rcases obeys_counts.1 he with rfl | ⟨hs, hhead, hint⟩
    · cases hgs
    · simp only [Store.entries?, hhead, Option.some.injEq] at hgs
      rw [← hgs]
      exact fun e he => (hint e he).2
  · rfl

theorem growItemLists_of_formed {total : Value} {items : List Value}
    (ht : s.obeys (.optional (.one .details)) total = true)
    (hi : ∀ c ∈ items, s.formed .content c = true) : s.growItemLists total items = s := by
  induction items generalizing total with
  | nil => rfl
  | cons c cs ih =>
    obtain ⟨hc, hcs⟩ := List.forall_mem_cons.1 hi
    unfold growItemLists
    split
    · exact ih ht hcs
    · exact ih ht hcs
    · rw [growLists_of_counts (usage_formed ht).counts]
      exact ih (obeys_addItem ht hc) hcs

theorem accumulator_of_cell (h : s.cell x = a.toValue) : s.accumulator (.shared x) = a := by
  rw [← s.accumulator_toValue a]
  simp only [accumulator, head, h, Accumulator.toValue]

/-- **Feeding** writes to the accumulator and to nothing else. -/
theorem feed_working (ha : s.cell x = a.toValue) (hr : a.response.Working s aside) {u : Value}
    (hu : s.IsUpdate aside u) :
    s.feed (.shared x) u = s.write (.shared x) (a.feed s (s.update u)).toValue := by
  unfold Store.feed
  simp only [accumulator_of_cell ha,
    growItemLists_of_formed hr.formed.usage fun c hc => hu.read.contents c hc]

/-- **Finalizing** hands over a response made of new cells, and leaves the accumulator as new. -/
theorem finalize_working (hs : s.Sound aside) (hx : x ∈ aside) (ha : s.cell x = a.toValue)
    {c : Bool} (hc : a.coalesce = .bool c) (hr : a.response.Working s aside) :
    ∃ t v, s.finalize (.shared x) = (t, .ok v) ∧ t.Sound aside ∧ t.Holds aside v ∧
      s.AlikeIn t (a.response.settled s c).toValue v ∧ s.size ≤ t.size ∧
      t.cell x = a.renewed.toValue ∧ ∀ y, y < s.size → y ≠ x → t.cell y = s.cell y := by
  have hdone : a.finished s = .done (a.response.settled s c) := by
    have hwanted : s.isTrue a.coalesce = c := by
      rw [hc]
      cases c <;> rfl
    rw [Accumulator.finished, hwanted, coalesced_of_formed hr.formed]
  have hsettle := carries_settleResponse hs (hr.settled hs c).holds
  have hintern := hsettle.trans (carries_intern hsettle.sound _ hsettle.holds)
  let settled := s.settleResponse (a.response.settled s c)
  let interned := settled.1.intern settled.2.toValue
  have hframe : interned.1.Frame aside (interned.1.write (.shared x) a.renewed.toValue) :=
    .of_write hx _
  have hsize : s.size ≤ interned.1.size := hintern.frame.size
  have hin := hs.inside x hx
  refine ⟨interned.1.write (.shared x) a.renewed.toValue, interned.2, ?_, hintern.sound.write hx _,
    hframe.holds hintern.holds, ?_, ?_, ?_, ?_⟩
  · simp only [finalize, accumulator_of_cell ha, hdone]
    rfl
  · exact hintern.alike.trans (hframe.alike hintern.sound hintern.holds)
  · rw [size_write]
    exact hsize
  · exact cell_write_self _ (by omega)
  · intro y hy hne
    rw [cell_write_of_ne _ fun h => hne (Value.shared.inj h).symm]
    exact hintern.grows.cell hy

end

/-! ## Many accumulators -/

/-- An accumulator of a bench, and the updates that went into it since it was last finalized. -/
structure Slot where
  accumulator : Value
  coalesce : Bool
  fed : List Value

/-- What an accumulator has handed over, and the updates that had gone into it. -/
structure Handed where
  coalesce : Bool
  fed : List Value
  outcome : Checked Value

structure Bench where
  store : Store
  slots : List Slot
  handed : List Handed

/-- What can happen next. Accumulators are numbered in the order in which they are made; a call on
one that is not there does nothing. -/
inductive Act where
  /-- makes an accumulator -/
  | new (coalesce : Bool)
  | feed (n : Nat) (update : Value)
  | finalize (n : Nat)
  /-- makes any other object -/
  | build (v : Value)

namespace Bench

/-- A store at which no accumulator is at work yet. -/
def on (s : Store) : Bench := ⟨s, [], []⟩

def perform (b : Bench) : Act → Bench
  | .new coalesce =>
    let (s, accumulator) := b.store.intern (Accumulator.new (.bool coalesce)).toValue
    { b with store := s, slots := b.slots ++ [⟨accumulator, coalesce, []⟩] }
  | .feed n update =>
    match b.slots[n]? with
    | none => b
    | some slot =>
      { b with
        store := b.store.feed slot.accumulator update
        slots := b.slots.set n { slot with fed := slot.fed ++ [update] } }
  | .finalize n =>
    match b.slots[n]? with
    | none => b
    | some slot =>
      let (s, outcome) := b.store.finalize slot.accumulator
      { store := s
        slots := b.slots.set n { slot with fed := [] }
        handed := b.handed ++ [⟨slot.coalesce, slot.fed, outcome⟩] }
  | .build v => { b with store := (b.store.intern v).1 }

def run (b : Bench) (acts : List Act) : Bench := acts.foldl perform b

/-- The cells of the accumulators. -/
def cells (b : Bench) : List Nat := (b.slots.map (·.accumulator)).flatMap Value.refs

/-- What is fed is an update that obeys its rules, and nothing leads to an accumulator of the
bench. -/
def Allows (b : Bench) : Act → Prop
  | .feed _ update => b.store.IsUpdate b.cells update
  | .build v => b.store.Holds b.cells v
  | _ => True

/-- So it is at each of the calls, when its turn comes. -/
def AllowsAll (b : Bench) : List Act → Prop
  | [] => True
  | act :: acts => b.Allows act ∧ (b.perform act).AllowsAll acts

instance (b : Bench) : (act : Act) → Decidable (b.Allows act)
  | .feed _ update => inferInstanceAs (Decidable (b.store.IsUpdate b.cells update))
  | .build v => inferInstanceAs (Decidable (b.store.Holds b.cells v))
  | .new _ | .finalize _ => .isTrue trivial

instance decidableAllowsAll (b : Bench) : (acts : List Act) → Decidable (b.AllowsAll acts)
  | [] => .isTrue trivial
  | act :: acts =>
    have := decidableAllowsAll (b.perform act) acts
    inferInstanceAs (Decidable (b.Allows act ∧ (b.perform act).AllowsAll acts))

theorem run_append (b : Bench) (acts more : List Act) :
    b.run (acts ++ more) = (b.run acts).run more := List.foldl_append

theorem allowsAll_append {b : Bench} {acts more : List Act} :
    b.AllowsAll (acts ++ more) ↔ b.AllowsAll acts ∧ (b.run acts).AllowsAll more := by
  induction acts generalizing b with
  | nil => simp [AllowsAll, run]
  | cons act acts ih =>
    simp only [List.cons_append, AllowsAll, ih, and_assoc]
    rfl

end Bench

/-! ## What is true of a bench -/

/-- The accumulator as its updates make it. -/
def Slot.reading (s : Store) (slot : Slot) : Accumulator where
  coalesce := .bool slot.coalesce
  updates := slot.fed.length
  response := Response.feedAll s .empty (slot.fed.map s.update)

/-- The accumulator has a cell of its own, which holds what its updates make. -/
structure Slot.Kept (s : Store) (aside : List Nat) (slot : Slot) : Prop where
  place : ∃ x, slot.accumulator = .shared x ∧ x ∈ aside ∧ s.cell x = (slot.reading s).toValue
  fed : ∀ u ∈ slot.fed, s.IsUpdate aside u

/-- There is a response, it is made of cells that nobody writes to, and it is what the updates
make. -/
structure Handed.Kept (s : Store) (aside : List Nat) (h : Handed) : Prop where
  outcome : ∃ v, h.outcome = .ok v ∧ s.Holds aside v ∧
    s.Alike (s.foldOf h.coalesce h.fed).toValue v
  fed : ∀ u ∈ h.fed, s.IsUpdate aside u

structure Bench.Kept (b : Bench) : Prop where
  sound : b.store.Sound b.cells
  apart : (b.slots.map (·.accumulator)).Nodup
  slots : ∀ slot ∈ b.slots, slot.Kept b.store b.cells
  handed : ∀ h ∈ b.handed, h.Kept b.store b.cells

/-! ## Later stores -/

/-- A later store: nothing has changed but what was set aside, and what is set aside now was so
before or is new. -/
structure Store.Later (s : Store) (aside : List Nat) (t : Store) (more : List Nat) : Prop where
  frame : s.Frame aside t
  sound : t.Sound more
  fresh : ∀ x ∈ more, x ∈ aside ∨ s.size ≤ x

section
variable {s t u : Store} {aside more most : List Nat} {v : Value}

theorem Store.Later.holds (h : s.Later aside t more) (hv : s.Holds aside v) : t.Holds more v := by
  intro x hx
  obtain ⟨hlt, ha⟩ := hv x hx
  refine ⟨Nat.lt_of_lt_of_le hlt h.frame.size, fun hm => ?_⟩
  rcases h.fresh x hm with hold | hnew
  · exact ha hold
  · omega

theorem Store.Later.isUpdate (h : s.Later aside t more) (hs : s.Sound aside)
    (hv : s.IsUpdate aside v) : t.IsUpdate more v :=
  ⟨formed_of_alikeIn hs h.sound hv.holds (h.holds hv.holds) (h.frame.alike hs hv.holds) hv.formed,
    h.holds hv.holds⟩

theorem Store.Frame.reading (h : s.Frame aside t) (hs : s.Sound aside) {slot : Slot}
    (hfed : ∀ u ∈ slot.fed, s.IsUpdate aside u) : slot.reading t = slot.reading s := by
  unfold Slot.reading
  rw [h.feedAll hs hfed]

theorem Slot.Kept.holds_reading (hs : s.Sound aside) {slot : Slot} (h : slot.Kept s aside) :
    s.Holds aside (slot.reading s).toValue := by
  simp only [Accumulator.toValue, holds_object, List.forall_mem_cons]
  exact ⟨holds_of_refs_nil rfl, holds_of_refs_nil rfl, (working_feedAll hs h.fed).holds, holds_null,
    fun v hv => by cases hv⟩

theorem Slot.Kept.later (h : s.Later aside t more) (hs : s.Sound aside) {slot : Slot}
    (hk : slot.Kept s aside)
    (hc : ∀ x, slot.accumulator = .shared x → x ∈ more ∧ t.cell x = s.cell x) :
    slot.Kept t more := by
  obtain ⟨x, hx, -, hcell⟩ := hk.place
  obtain ⟨hm, hsame⟩ := hc x hx
  refine ⟨⟨x, hx, hm, ?_⟩, fun u hu => h.isUpdate hs (hk.fed u hu)⟩
  rw [hsame, hcell, h.frame.reading hs hk.fed]

theorem Handed.Kept.later (h : s.Later aside t more) (hs : s.Sound aside) {handed : Handed}
    (hk : handed.Kept s aside) : handed.Kept t more := by
  obtain ⟨v, hv, hheld, hlike⟩ := hk.outcome
  have hfold := working_foldOf hs hk.fed handed.coalesce
  refine ⟨⟨v, hv, h.holds hheld, ?_⟩, fun u hu => h.isUpdate hs (hk.fed u hu)⟩
  rw [h.frame.foldOf hs hk.fed]
  intro depth
  rw [h.frame.layers hs depth _ hfold.holds, h.frame.layers hs depth v hheld, hlike depth]

/-- The accumulator with one update more. -/
def Slot.after (slot : Slot) (update : Value) : Slot := { slot with fed := slot.fed ++ [update] }

/-- **Feeding an accumulator** writes to its cell, which then holds what all its updates make. -/
theorem Slot.Kept.feed (hs : s.Sound aside) {slot : Slot} (h : slot.Kept s aside) {update : Value}
    (hu : s.IsUpdate aside update) {x : Nat} (hx : slot.accumulator = .shared x) :
    s.feed slot.accumulator update =
        s.write (.shared x) ((slot.after update).reading s).toValue ∧
      (slot.after update).Kept (s.write (.shared x) ((slot.after update).reading s).toValue)
        aside := by
  obtain ⟨y, hy, hin, hcell⟩ := h.place
  obtain rfl : x = y := Value.shared.inj (hx.symm.trans hy)
  have hgrown : (slot.reading s).feed s (s.update update) = (slot.after update).reading s := by
    simp only [Slot.reading, Slot.after, Accumulator.feed, List.map_append, List.map_singleton,
      Response.feedAll_append_singleton, List.length_append, List.length_singleton,
      Int.natCast_add, Int.natCast_one]
  have hstore : s.feed slot.accumulator update =
      s.write (.shared x) ((slot.after update).reading s).toValue := by
    rw [hx, ← hgrown]
    exact feed_working hcell (working_feedAll hs h.fed) hu
  have frame : s.Frame aside (s.write (.shared x) ((slot.after update).reading s).toValue) :=
    .of_write hin _
  have hl : s.Later aside (s.write (.shared x) ((slot.after update).reading s).toValue) aside :=
    ⟨frame, hs.write hin _, fun y hy => Or.inl hy⟩
  have hall : ∀ u ∈ (slot.after update).fed, s.IsUpdate aside u :=
    List.forall_mem_append.2 ⟨h.fed, List.forall_mem_singleton.2 hu⟩
  refine ⟨hstore, ⟨x, hx, hin, ?_⟩, fun u hm => hl.isUpdate hs (hall u hm)⟩
  rw [frame.reading hs hall]
  exact s.cell_write_self (hs.inside x hin)

/-- **Finalizing an accumulator** hands over what its updates make, and leaves it without any. -/
theorem Slot.Kept.finalize (hs : s.Sound aside) {slot : Slot} (h : slot.Kept s aside) {x : Nat}
    (hx : slot.accumulator = .shared x) :
    ∃ t v, s.finalize slot.accumulator = (t, .ok v) ∧ t.Sound aside ∧ s.size ≤ t.size ∧
      (∀ y, y < s.size → y ≠ x → t.cell y = s.cell y) ∧
      ({ slot with fed := [] } : Slot).Kept t aside ∧
      (⟨slot.coalesce, slot.fed, .ok v⟩ : Handed).Kept t aside := by
  obtain ⟨y, hy, hin, hcell⟩ := h.place
  obtain rfl : x = y := Value.shared.inj (hx.symm.trans hy)
  obtain ⟨t, v, hfinal, sound, hheld, hlike, size, hnew, others⟩ :=
    finalize_working hs hin hcell rfl (working_feedAll hs h.fed)
  have frame : s.Frame aside t := ⟨size, fun y hy ha => others y hy fun hyx => ha (hyx ▸ hin)⟩
  have hl : s.Later aside t aside := ⟨frame, sound, fun y hy => Or.inl hy⟩
  have hfold : (s.foldOf slot.coalesce slot.fed).Working s aside :=
    working_foldOf hs h.fed slot.coalesce
  rw [← hx] at hfinal
  refine ⟨t, v, hfinal, sound, size, others, ⟨⟨x, hx, hin, hnew⟩, fun u hu => by cases hu⟩,
    ⟨v, rfl, hheld, ?_⟩, fun u hu => hl.isUpdate hs (h.fed u hu)⟩
  rw [frame.foldOf hs h.fed]
  intro depth
  rw [frame.layers hs depth _ hfold.holds]
  exact hlike depth

theorem Store.Later.trans (h : s.Later aside t more) (k : t.Later more u most) :
    s.Later aside u most where
  frame :=
    { size := Nat.le_trans h.frame.size k.frame.size
      cell := by
        intro x hx ha
        have hm : x ∉ more := by
          intro hm
          rcases h.fresh x hm with hold | hnew
          · exact ha hold
          · omega
        rw [k.frame.cell x (Nat.lt_of_lt_of_le hx h.frame.size) hm, h.frame.cell x hx ha] }
  sound := k.sound
  fresh := by
    intro x hx
    rcases k.fresh x hx with hold | hnew
    · exact h.fresh x hold
    · exact Or.inr (Nat.le_trans h.frame.size hnew)

end

/-! ## One call -/

theorem Store.Sound.push_aside {s : Store} {aside : List Nat} (hs : s.Sound aside) (v : Value) :
    s.Later aside (s.push v).1 (aside ++ [s.size]) := by
  have hf : s.Frame aside (s.push v).1 := .of_extends aside (extends_push s v)
  have old : ∀ y, y < (s.push v).1.size → y ∉ aside ++ [s.size] → y < s.size ∧ y ∉ aside := by
    intro y hy ha
    rw [size_push] at hy
    rw [List.mem_append, List.mem_singleton, not_or] at ha
    exact ⟨by omega, ha.1⟩
  have holds : ∀ {w}, s.Holds aside w → (s.push v).1.Holds (aside ++ [s.size]) w := by
    intro w hw y hy
    obtain ⟨hlt, ha⟩ := hw y hy
    rw [size_push, List.mem_append, List.mem_singleton]
    refine ⟨by omega, fun h => ?_⟩
    rcases h with h | rfl
    · exact ha h
    · exact Nat.lt_irrefl _ hlt
  refine ⟨hf, ⟨fun y hy => ?_, fun y hy ha => ?_, fun y hy ha => ?_⟩, fun y hy => ?_⟩
  · rw [size_push]
    rcases List.mem_append.1 hy with hy | hy
    · have := hs.inside y hy
      omega
    · rw [List.mem_singleton.1 hy]
      omega
  · obtain ⟨hlt, ha⟩ := old y hy ha
    rw [hf.cell y hlt ha]
    exact hs.shareable y hlt ha
  · obtain ⟨hlt, ha⟩ := old y hy ha
    rw [hf.cell y hlt ha]
    exact holds (hs.closed y hlt ha)
  · rcases List.mem_append.1 hy with hy | hy
    · exact Or.inl hy
    · exact Or.inr (Nat.le_of_eq (List.mem_singleton.1 hy).symm)

theorem forall_mem_set {α : Type} {l : List α} {n : Nat} {a : α} {p : α → Prop}
    (h : ∀ m, m ≠ n → ∀ x, l[m]? = some x → p x) (ha : p a) : ∀ x ∈ l.set n a, p x := by
  intro x hx
  obtain ⟨m, hm⟩ := List.mem_iff_getElem?.1 hx
  by_cases hn : m = n
  · have hlt := (List.getElem?_eq_some_iff.1 hm).1
    rw [List.length_set] at hlt
    rw [hn, List.getElem?_set_self (hn ▸ hlt), Option.some.injEq] at hm
    rw [← hm]
    exact ha
  · rw [List.getElem?_set_ne (Ne.symm hn)] at hm
    exact h m hn x hm

theorem map_accumulator_set {slots : List Slot} {n : Nat} {slot later : Slot}
    (hn : slots[n]? = some slot) (h : later.accumulator = slot.accumulator) :
    (slots.set n later).map (·.accumulator) = slots.map (·.accumulator) := by
  rw [List.map_set, h]
  refine List.ext_getElem? fun m => ?_
  by_cases hm : n = m
  · subst hm
    obtain ⟨hlt, hget⟩ := List.getElem?_eq_some_iff.1 hn
    simp [hlt, hget]
  · rw [List.getElem?_set_ne hm]

section
variable {b : Bench}

theorem mem_cells {slot : Slot} {x : Nat} (hm : slot ∈ b.slots)
    (hx : slot.accumulator = .shared x) : x ∈ b.cells := by
  refine List.mem_flatMap.2 ⟨.shared x, List.mem_map.2 ⟨slot, hm, hx⟩, ?_⟩
  simp [Value.refs]

theorem Bench.Kept.apart_of_ne (h : b.Kept) {m n : Nat} {slot other : Slot}
    (hm : b.slots[m]? = some slot) (hn : b.slots[n]? = some other) (hne : m ≠ n) :
    slot.accumulator ≠ other.accumulator := by
  intro heq
  obtain ⟨hlt, hslot⟩ := List.getElem?_eq_some_iff.1 hm
  obtain ⟨hlt', hother⟩ := List.getElem?_eq_some_iff.1 hn
  have hinj := List.nodup_iff_injective_get.1 h.apart
  have hm : m < (b.slots.map (·.accumulator)).length := by simpa using hlt
  have hn : n < (b.slots.map (·.accumulator)).length := by simpa using hlt'
  have hfin : (⟨m, hm⟩ : Fin _) = ⟨n, hn⟩ := hinj (by simp [hslot, hother, heq])
  exact hne (Fin.mk.inj hfin)

/-- **A call on one accumulator** that writes to its cell only keeps the bench. -/
theorem Bench.Kept.touch (h : b.Kept) {n : Nat} {slot : Slot} {x : Nat} {t : Store} (later : Slot)
    (handed : List Handed) (hn : b.slots[n]? = some slot) (hx : slot.accumulator = .shared x)
    (sound : t.Sound b.cells) (size : b.store.size ≤ t.size)
    (others : ∀ y, y < b.store.size → y ≠ x → t.cell y = b.store.cell y)
    (same : later.accumulator = slot.accumulator) (kept : later.Kept t b.cells)
    (new : ∀ h ∈ handed, h.Kept t b.cells) :
    (⟨t, b.slots.set n later, b.handed ++ handed⟩ : Bench).Kept ∧
      b.store.Later b.cells t (⟨t, b.slots.set n later, b.handed ++ handed⟩ : Bench).cells := by
  have hmap := map_accumulator_set hn same
  have hcells : (⟨t, b.slots.set n later, b.handed ++ handed⟩ : Bench).cells = b.cells := by
    unfold Bench.cells
    rw [hmap]
  have hin := mem_cells (List.mem_of_getElem? hn) hx
  have hl : b.store.Later b.cells t b.cells :=
    ⟨⟨size, fun y hy ha => others y hy fun hyx => ha (hyx ▸ hin)⟩, sound, fun y hy => Or.inl hy⟩
  refine ⟨⟨?_, ?_, ?_, ?_⟩, ?_⟩
  · rw [hcells]
    exact sound
  · rw [hmap]
    exact h.apart
  · rw [hcells]
    refine forall_mem_set (fun m hm other hother => ?_) kept
    have hmem := List.mem_of_getElem? hother
    refine (h.slots other hmem).later hl h.sound fun y hy => ?_
    have hyx : y ≠ x := by
      rintro rfl
      exact h.apart_of_ne hother hn hm (hy.trans hx.symm)
    have hycells := mem_cells hmem hy
    exact ⟨hycells, others y (h.sound.inside y hycells) hyx⟩
  · rw [hcells, List.forall_mem_append]
    exact ⟨fun h' hh => (h.handed h' hh).later hl h.sound, new⟩
  · rw [hcells]
    exact hl

theorem Bench.Kept.new (h : b.Kept) (c : Bool) :
    (b.perform (.new c)).Kept ∧
      b.store.Later b.cells (b.perform (.new c)).store (b.perform (.new c)).cells := by
  have hl := h.sound.push_aside (Accumulator.new (.bool c)).toValue
  have hcells : (b.perform (.new c)).cells = b.cells ++ [b.store.size] := by
    simp only [Bench.cells, Bench.perform, List.map_append, List.flatMap_append]
    rfl
  have hlater : b.store.Later b.cells (b.perform (.new c)).store (b.cells ++ [b.store.size]) := hl
  rw [hcells]
  refine ⟨⟨?_, ?_, ?_, ?_⟩, hlater⟩
  · rw [hcells]
    exact hlater.sound
  · show ((b.slots ++ [Slot.mk (.shared b.store.size) c []]).map (·.accumulator)).Nodup
    rw [List.map_append, List.nodup_append]
    refine ⟨h.apart, List.nodup_singleton _, fun v hv w hw heq => ?_⟩
    obtain ⟨slot, hm, hslot⟩ := List.mem_map.1 hv
    have hnew : slot.accumulator = .shared b.store.size := by
      rw [hslot, heq]
      exact List.mem_singleton.1 hw
    exact Nat.lt_irrefl _ (h.sound.inside _ (mem_cells hm hnew))
  · rw [hcells]
    show ∀ slot ∈ b.slots ++ [Slot.mk (.shared b.store.size) c []], _
    rw [List.forall_mem_append, List.forall_mem_singleton]
    refine ⟨fun slot hm => (h.slots slot hm).later hlater h.sound fun x hx => ?_, ?_⟩
    · have hin := mem_cells hm hx
      exact ⟨List.mem_append_left _ hin,
        (extends_push b.store _).cell (h.sound.inside x hin)⟩
    · refine ⟨⟨b.store.size, rfl, by simp, ?_⟩, fun u hu => by cases hu⟩
      exact cell_push_self b.store _
  · rw [hcells]
    exact fun h' hh => (h.handed h' hh).later hlater h.sound

theorem Bench.Kept.feed (h : b.Kept) (n : Nat) {update : Value}
    (hu : b.store.IsUpdate b.cells update) :
    (b.perform (.feed n update)).Kept ∧ b.store.Later b.cells (b.perform (.feed n update)).store
      (b.perform (.feed n update)).cells := by
  cases hn : b.slots[n]? with
  | none =>
    simp only [Bench.perform, hn]
    exact ⟨h, .refl _ _, h.sound, fun y hy => Or.inl hy⟩
  | some slot =>
    have hslot := h.slots slot (List.mem_of_getElem? hn)
    obtain ⟨x, hx, hin, -⟩ := hslot.place
    obtain ⟨hstore, kept⟩ := hslot.feed h.sound hu hx
    have touched := h.touch (slot.after update) [] hn hx (h.sound.write hin _)
      (Nat.le_of_eq (size_write _ _ _).symm)
      (fun y _ hne => b.store.cell_write_of_ne fun he => hne (Value.shared.inj he).symm) rfl kept
      fun h' hh => by cases hh
    simp only [Bench.perform, hn, hstore]
    rw [List.append_nil] at touched
    exact touched

theorem Bench.Kept.finalize (h : b.Kept) (n : Nat) :
    (b.perform (.finalize n)).Kept ∧ b.store.Later b.cells (b.perform (.finalize n)).store
      (b.perform (.finalize n)).cells := by
  cases hn : b.slots[n]? with
  | none =>
    simp only [Bench.perform, hn]
    exact ⟨h, .refl _ _, h.sound, fun y hy => Or.inl hy⟩
  | some slot =>
    have hslot := h.slots slot (List.mem_of_getElem? hn)
    obtain ⟨x, hx, -⟩ := hslot.place
    obtain ⟨t, v, hfinal, sound, size, others, kept, new⟩ := hslot.finalize h.sound hx
    have touched := h.touch { slot with fed := [] } [⟨slot.coalesce, slot.fed, .ok v⟩] hn hx sound
      size others rfl kept (List.forall_mem_singleton.2 new)
    simp only [Bench.perform, hn, hfinal]
    exact touched

theorem Bench.Kept.build (h : b.Kept) {v : Value} (hv : b.store.Holds b.cells v) :
    (b.perform (.build v)).Kept ∧
      b.store.Later b.cells (b.perform (.build v)).store (b.perform (.build v)).cells := by
  have hcarry := carries_intern h.sound v hv
  have hl : b.store.Later b.cells (b.store.intern v).1 b.cells :=
    ⟨hcarry.frame, hcarry.sound, fun y hy => Or.inl hy⟩
  refine ⟨⟨hcarry.sound, h.apart, fun slot hm => ?_, fun h' hh => ?_⟩, hl⟩
  · refine (h.slots slot hm).later hl h.sound fun x hx => ?_
    have hin := mem_cells hm hx
    exact ⟨hin, hcarry.grows.cell (h.sound.inside x hin)⟩
  · exact (h.handed h' hh).later hl h.sound

/-- **One call** keeps the bench, and changes no cell but those of its accumulators. -/
theorem Bench.Kept.step (h : b.Kept) {act : Act} (ha : b.Allows act) :
    (b.perform act).Kept ∧ b.store.Later b.cells (b.perform act).store (b.perform act).cells := by
  cases act with
  | new c => exact h.new c
  | feed n update => exact h.feed n ha
  | finalize n => exact h.finalize n
  | build v => exact h.build ha

/-- **Any sequence of calls** does. -/
theorem Bench.Kept.run (h : b.Kept) {acts : List Act} (ha : b.AllowsAll acts) :
    (b.run acts).Kept ∧ b.store.Later b.cells (b.run acts).store (b.run acts).cells := by
  induction acts generalizing b with
  | nil => exact ⟨h, .refl _ _, h.sound, fun y hy => Or.inl hy⟩
  | cons act acts ih =>
    obtain ⟨hstep, hlater⟩ := h.step ha.1
    obtain ⟨hkept, hrest⟩ := ih hstep ha.2
    exact ⟨hkept, hlater.trans hrest⟩

theorem Bench.kept_on {s : Store} (hs : s.Sound []) : (Bench.on s).Kept where
  sound := hs
  apart := .nil
  slots := fun slot h => by cases h
  handed := fun h hh => by cases hh

end

end Reassembly
