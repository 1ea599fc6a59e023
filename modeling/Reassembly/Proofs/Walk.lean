import Mathlib.Data.Nat.Find
import Reassembly.Proofs.Records

/-!
# The walk

A pass of coalescing, step by step. `Walk.step` does what one round of a loop of the pass does, and
each read and each write of it may fail: outside of the list, or where there is no text to read.
`mergePass` has no such failures to tell of, since a place comes with a proof that it is there, and
an item without a text counts as one with an empty text.

* `Walk.step`, `Walk.run`: a round, and any number of rounds.
* `IsRun`: a maximal run, by the places where it begins and ends. No two runs share a place.
* `Partway`, `Settled`: what may stand at a place during a pass, and what stands there after it.
* `Walk.step_sound`: a round that is begun in a sound state does not fail. It leaves a sound state
  with the same outcome ahead, and there is less left to do.
* `merging_safe`: **a pass is safe and ends**, and the two passes may change places.
-/
namespace Reassembly

/-- What a read or a write runs into. -/
inductive Fault where
  /-- The list has no such place. -/
  | outside (i : Nat)
  /-- A hole, or an item of another kind. -/
  | textless (v : Value)
deriving DecidableEq, Repr

/-- The items from one place up to another. -/
def between (items : List Value) (a b : Nat) : List Value := (items.take b).drop a

/-- How far a pass is in its list. -/
inductive Walk where
  /-- It looks for a run from a place on. -/
  | scanning (places : List Value) (start : Nat)
  /-- It takes out the items of the run that begins with an item at a place. It has got their texts
  up to some other place. -/
  | emptying (places : List Value) (start : Nat) (first : Value) (parts : List String) (i : Nat)
  | ended (places : List Value)
  /-- A merged item could not be made. -/
  | stopped (places : List Value) (problems : List Problem)
deriving DecidableEq, Repr

namespace Walk

def places : Walk → List Value
  | scanning places _ => places
  | emptying places _ _ _ _ => places
  | ended places => places
  | stopped places _ => places

def read (places : List Value) (i : Nat) : Except Fault Value :=
  match places[i]? with
  | some v => .ok v
  | none => .error (.outside i)

def write (places : List Value) (i : Nat) (v : Value) : Except Fault (List Value) :=
  if i < places.length then .ok (places.set i v) else .error (.outside i)

def readItem (s : Store) (k : Kind) (v : Value) : Except Fault TextItem :=
  match s.textItem? k v with
  | some item => .ok item
  | none => .error (.textless v)

/-- The item made of an item and the texts of a run. -/
def made (k : Kind) (item : TextItem) (parts : List String) : Value :=
  TextItem.toValue k { item with annotations := .null, raw := .null, text := String.join parts }

/-- A run is through: one item stands for it. -/
def replace (s : Store) (k : Kind) (places : List Value) (start : Nat) (first : Value)
    (parts : List String) (stop : Nat) : Except Fault Walk := do
  let item ← readItem s k first
  match runProblems s k first with
  | [] => return scanning (← write places start (made k item parts)) stop
  | problems => return stopped places problems

/-- One round of a loop. -/
def step (s : Store) (k : Kind) : Walk → Except Fault Walk
  | scanning places start =>
    if start + 1 < places.length then do
      let first ← read places start
      if mergeable s k first then
        let next ← read places (start + 1)
        if mergeable s k next then
          let item ← readItem s k first
          return emptying places start first [item.text] (start + 1)
        else return scanning places (start + 2)
      else return scanning places (start + 1)
    else return ended places
  | emptying places start first parts i =>
    if i < places.length then do
      let v ← read places i
      if mergeable s k v then
        let item ← readItem s k v
        return emptying (← write places i .null) start first (parts ++ [item.text]) (i + 1)
      else replace s k places start first parts i
    else replace s k places start first parts i
  | walk => return walk

/-- So many rounds. -/
def run (s : Store) (k : Kind) : Nat → Walk → Except Fault Walk
  | 0, walk => return walk
  | n + 1, walk => do run s k n (← step s k walk)

/-- What the pass comes to from a run on that has been emptied. -/
def afterRun (s : Store) (k : Kind) (start : Nat) (first : Value) (run : Emptied) :
    Attempt (List Value) :=
  match runProblems s k first with
  | [] => mergeFrom s k (run.places.set start (mergedItem s k first run.others)) run.stop
  | problems => ⟨run.places, problems⟩

/-- What a pass over the items comes to from here. The items that have been taken out of their run
are told by their places. -/
def outcome (s : Store) (k : Kind) (items : List Value) : Walk → Attempt (List Value)
  | scanning places start => mergeFrom s k places start
  | emptying places start first _ i =>
    afterRun s k start first (emptyRun s k places (between items (start + 1) i) i)
  | ended places => .done places
  | stopped places problems => ⟨places, problems⟩

/-- A bound for the rounds that are left. -/
def left : Walk → Nat
  | scanning places start => 2 * (places.length - start) + 1
  | emptying places _ _ _ i => 2 * (places.length - i) + 2
  | ended _ => 0
  | stopped _ _ => 0

section
variable {s : Store} {k : Kind} {places : List Value} {v : Value} {i : Nat}

@[simp]
theorem ok_bind {α β : Type} (a : α) (f : α → Except Fault β) : (Except.ok a >>= f) = f a := rfl

theorem read_of_lt (h : i < places.length) : read places i = .ok places[i] := by
  rw [read, List.getElem?_eq_getElem h]

theorem write_of_lt (h : i < places.length) (v : Value) :
    write places i v = .ok (places.set i v) := if_pos h

theorem readItem_of_mergeable (h : mergeable s k v = true) :
    ∃ item, s.textItem? k v = some item ∧ readItem s k v = .ok item ∧
      item.text = itemText s k v := by
  unfold mergeable at h
  split at h
  · next item hi =>
    refine ⟨item, hi, ?_, ?_⟩
    · rw [readItem, hi]
    · rw [itemText, hi]
      rfl
  · cases h

theorem made_eq_mergedItem {item : TextItem} {first : Value}
    (h : s.textItem? k first = some item) (others : List Value) :
    made k item (itemText s k first :: others.map (itemText s k)) =
      mergedItem s k first others := by
  rw [made, mergedItem, itemProperties, h]
  rfl

end

end Walk

/-! ## Runs by their places -/

/-- The item at a place may merge with others of the kind. -/
def mergesAt (s : Store) (k : Kind) (items : List Value) (j : Nat) : Bool :=
  items[j]?.any (mergeable s k)

/-- The places from `a` up to `b` hold a maximal run of two or more items that merge. -/
structure IsRun (s : Store) (k : Kind) (items : List Value) (a b : Nat) : Prop where
  two : a + 2 ≤ b
  merges : ∀ j, a ≤ j → j < b → mergesAt s k items j = true
  before : ∀ j, j + 1 = a → mergesAt s k items j = false
  behind : mergesAt s k items b = false

/-- The item that stands for a run. -/
def runItem (s : Store) (k : Kind) (items : List Value) (a b : Nat) : Value :=
  mergedItem s k (items.getD a .null) (between items (a + 1) b)

/-- The place has what it had, or the pass has been at its run: at the first place of a run is the
item that stands for the run, at the others are holes. -/
def Partway (s : Store) (k : Kind) (items places : List Value) (j : Nat) : Prop :=
  places[j]? = items[j]? ∨ ∃ a b, IsRun s k items a b ∧ a ≤ j ∧ j < b ∧
    places[j]? = some (if j = a then runItem s k items a b else .null)

/-- The place has what the pass leaves there: the item that stands for a run or a hole if there is a
run at the place, else what it had. -/
structure Settled (s : Store) (k : Kind) (items places : List Value) (j : Nat) : Prop where
  in_run : ∀ a b, IsRun s k items a b → a ≤ j → j < b →
    places[j]? = some (if j = a then runItem s k items a b else .null)
  alone : (∀ a b, IsRun s k items a b → ¬(a ≤ j ∧ j < b)) → places[j]? = items[j]?

section
variable {s : Store} {k : Kind} {items places : List Value} {a b c d i j start : Nat}

theorem mergesAt_of_same (h : places[j]? = items[j]?) (hj : j < places.length) :
    mergesAt s k items j = mergeable s k places[j] := by
  rw [mergesAt, ← h, List.getElem?_eq_getElem hj]
  rfl

theorem lt_of_mergesAt (h : mergesAt s k items j = true) : j < items.length := by
  by_contra hj
  rw [mergesAt, List.getElem?_eq_none (by omega)] at h
  cases h

theorem between_succ (h : i < items.length) (ha : a ≤ i) :
    between items a (i + 1) = between items a i ++ [items[i]] := by
  rw [between, List.take_succ_eq_append_getElem h,
    List.drop_append_of_le_length (by rw [List.length_take]; omega)]
  rfl

theorem between_self (items : List Value) (a : Nat) : between items a a = [] := by
  rw [between, List.drop_eq_nil_of_le (by rw [List.length_take]; omega)]

/-- **No two runs share a place.** -/
theorem IsRun.eq_of_common (h : IsRun s k items a b) (h' : IsRun s k items c d) (haj : a ≤ j)
    (hjb : j < b) (hcj : c ≤ j) (hjd : j < d) : a = c ∧ b = d := by
  -- a run that began or ended inside of the other one would not be maximal
  have starts : ∀ {a b c d}, IsRun s k items a b → IsRun s k items c d → a ≤ j → c ≤ j → j < b →
      ¬a < c := by
    intro a b c d h h' haj hcj hjb hlt
    have hin := h.merges (c - 1) (by omega) (by omega)
    rw [h'.before (c - 1) (by omega)] at hin
    cases hin
  have ends : ∀ {a b c d}, IsRun s k items a b → IsRun s k items c d → c ≤ j → j < b → j < d →
      ¬b < d := by
    intro a b c d h h' hcj hjb hjd hlt
    have hin := h'.merges b (by omega) hlt
    rw [h.behind] at hin
    cases hin
  have hac := starts h h' haj hcj hjb
  have hca := starts h' h hcj haj hjd
  have hbd := ends h h' hcj hjb hjd
  have hdb := ends h' h haj hjd hjb
  omega

theorem exists_isRun (hb : ∀ j, j + 1 = a → mergesAt s k items j = false)
    (ha : mergesAt s k items a = true) (hn : mergesAt s k items (a + 1) = true) :
    ∃ b, IsRun s k items a b := by
  have hend : ∃ m, mergesAt s k items (a + 1 + m) = false := by
    refine ⟨items.length, ?_⟩
    rw [mergesAt, List.getElem?_eq_none (by omega)]
    rfl
  classical
  have hlast := Nat.find_spec hend
  have hpos : Nat.find hend ≠ 0 := by
    intro h
    rw [h, Nat.add_zero, hn] at hlast
    cases hlast
  refine ⟨a + 1 + Nat.find hend, by omega, fun j haj hjb => ?_, hb, hlast⟩
  rcases Nat.lt_or_ge a j with hlt | hge
  · have hm := Nat.find_min hend (m := j - (a + 1)) (by omega)
    rw [show a + 1 + (j - (a + 1)) = j by omega] at hm
    simpa using hm
  · rw [show j = a by omega]
    exact ha

theorem Settled.partway (h : Settled s k items places j) : Partway s k items places j := by
  by_cases hr : ∃ a b, IsRun s k items a b ∧ a ≤ j ∧ j < b
  · obtain ⟨a, b, hab, ha, hb⟩ := hr
    exact Or.inr ⟨a, b, hab, ha, hb, h.in_run a b hab ha hb⟩
  · exact Or.inl (h.alone fun a b hab hj => hr ⟨a, b, hab, hj.1, hj.2⟩)

theorem Settled.of_alone (h : ∀ a b, IsRun s k items a b → ¬(a ≤ j ∧ j < b))
    (hj : places[j]? = items[j]?) : Settled s k items places j :=
  ⟨fun a b hab ha hb => absurd ⟨ha, hb⟩ (h a b hab), fun _ => hj⟩

theorem Settled.of_run (h : IsRun s k items a b) (haj : a ≤ j) (hjb : j < b)
    (hj : places[j]? = some (if j = a then runItem s k items a b else .null)) :
    Settled s k items places j := by
  refine ⟨fun c d hcd hcj hjd => ?_, fun hno => absurd ⟨haj, hjb⟩ (hno a b h)⟩
  obtain ⟨rfl, rfl⟩ := h.eq_of_common hcd haj hjb hcj hjd
  exact hj

theorem Settled.congr {places' : List Value} (h : Settled s k items places j)
    (hj : places'[j]? = places[j]?) : Settled s k items places' j :=
  ⟨fun a b hab ha hb => hj.trans (h.in_run a b hab ha hb), fun hno => hj.trans (h.alone hno)⟩

theorem not_in_run_of_not (h : mergesAt s k items j = false) :
    ∀ a b, IsRun s k items a b → ¬(a ≤ j ∧ j < b) := by
  intro a b hab hj
  have hm := hab.merges j hj.1 hj.2
  rw [h] at hm
  cases hm

theorem not_in_run_of_between (hb : ∀ i, i + 1 = j → mergesAt s k items i = false)
    (hn : mergesAt s k items (j + 1) = false) :
    ∀ a b, IsRun s k items a b → ¬(a ≤ j ∧ j < b) := by
  intro a b hab hj
  have htwo := hab.two
  rcases Nat.lt_or_ge (j + 1) b with hlt | hge
  · have hm := hab.merges (j + 1) (by omega) hlt
    rw [hn] at hm
    cases hm
  · have hm := hab.merges (j - 1) (by omega) (by omega)
    rw [hb (j - 1) (by omega)] at hm
    cases hm

/-! ## Sound states -/

/-- Up to the place all runs are through, and none goes across it. -/
structure Scanned (s : Store) (k : Kind) (items places : List Value) (start : Nat) : Prop where
  length : places.length = items.length
  ahead : ∀ j, start ≤ j → places[j]? = items[j]?
  settled : ∀ j, j < start → Settled s k items places j
  apart : ∀ j, j + 1 = start → mergesAt s k items start = true → mergesAt s k items j = false

/-- The pass is at the places from `start` up to `i` of a run that begins at `start`. -/
structure Taken (s : Store) (k : Kind) (items places : List Value) (start : Nat) (first : Value)
    (parts : List String) (i : Nat) : Prop where
  length : places.length = items.length
  ahead : ∀ j, i ≤ j → places[j]? = items[j]?
  settled : ∀ j, j < start → Settled s k items places j
  begins : ∀ j, j + 1 = start → mergesAt s k items j = false
  first_eq : items[start]? = some first
  kept : places[start]? = some first
  holes : ∀ j, start < j → j < i → places[j]? = some .null
  lt : start < i
  merges : ∀ j, start ≤ j → j < i → mergesAt s k items j = true
  long : mergesAt s k items (start + 1) = true
  parts_eq : parts = itemText s k first :: (between items (start + 1) i).map (itemText s k)

/-- What is known of each state that a pass over the items comes to. -/
def Walk.Sound (s : Store) (k : Kind) (items : List Value) : Walk → Prop
  | scanning places start => Scanned s k items places start
  | emptying places start first parts i => Taken s k items places start first parts i
  | ended places => places.length = items.length ∧ ∀ j, Settled s k items places j
  | stopped places problems =>
    problems ≠ [] ∧ places.length = items.length ∧ ∀ j, Partway s k items places j

theorem Scanned.begin (s : Store) (k : Kind) (items : List Value) : Scanned s k items items 0 where
  length := rfl
  ahead _ _ := rfl
  settled j h := absurd h (Nat.not_lt_zero j)
  apart j h := absurd h (Nat.succ_ne_zero j)

theorem Scanned.partway (h : Scanned s k items places start) (j : Nat) :
    Partway s k items places j := by
  rcases Nat.lt_or_ge j start with hlt | hge
  · exact (h.settled j hlt).partway
  · exact Or.inl (h.ahead j hge)

theorem Taken.partway {first : Value} {parts : List String}
    (h : Taken s k items places start first parts i) (j : Nat) : Partway s k items places j := by
  rcases Nat.lt_or_ge j i with hlt | hge
  · rcases Nat.lt_trichotomy j start with hbefore | rfl | hinside
    · exact (h.settled j hbefore).partway
    · exact Or.inl (h.kept.trans h.first_eq.symm)
    · -- the run that is being taken out goes on to some place behind `i`
      obtain ⟨b, hb⟩ := exists_isRun h.begins (h.merges start (Nat.le_refl start) h.lt) h.long
      have hib : i ≤ b := by
        by_contra hbi
        have htwo := hb.two
        have hm := h.merges b (by omega) (by omega)
        rw [hb.behind] at hm
        cases hm
      refine Or.inr ⟨start, b, hb, by omega, by omega, ?_⟩
      rw [if_neg (by omega), h.holes j hinside hlt]
  · exact Or.inl (h.ahead j hge)

theorem Taken.start_lt {first : Value} {parts : List String}
    (h : Taken s k items places start first parts i) : start < places.length := by
  rw [h.length]
  exact lt_of_mergesAt (h.merges start (Nat.le_refl start) h.lt)

theorem Taken.between_succ {first : Value} {parts : List String}
    (h : Taken s k items places start first parts i) (hi : i < places.length) :
    between items (start + 1) (i + 1) = between items (start + 1) i ++ [places[i]] := by
  have hi' : i < items.length := by rw [← h.length]; exact hi
  have hsame : places[i] = items[i] := by
    have hat := h.ahead i (Nat.le_refl i)
    rw [List.getElem?_eq_getElem hi, List.getElem?_eq_getElem hi'] at hat
    exact Option.some.inj hat
  rw [Reassembly.between_succ hi' h.lt, hsame]

theorem Walk.Sound.partway {walk : Walk} (h : walk.Sound s k items) (j : Nat) :
    Partway s k items walk.places j :=
  match walk, h with
  | .scanning _ _, h => Scanned.partway h j
  | .emptying _ _ _ _ _, h => Taken.partway h j
  | .ended _, h => (h.2 j).partway
  | .stopped _ _, h => h.2.2 j

theorem Walk.Sound.length {walk : Walk} (h : walk.Sound s k items) :
    walk.places.length = items.length :=
  match walk, h with
  | .scanning _ _, h => Scanned.length h
  | .emptying _ _ _ _ _, h => Taken.length h
  | .ended _, h => h.1
  | .stopped _ _, h => h.2.1

/-! ## Rounds -/

theorem Scanned.next (h : Scanned s k items places start)
    (hm : mergesAt s k items start = false) : Scanned s k items places (start + 1) where
  length := h.length
  ahead j hj := h.ahead j (by omega)
  settled j hj := by
    rcases Nat.lt_or_ge j start with hlt | hge
    · exact h.settled j hlt
    · obtain rfl : j = start := by omega
      exact Settled.of_alone (not_in_run_of_not hm) (h.ahead j hge)
  apart j hj _ := by
    obtain rfl : j = start := by omega
    exact hm

theorem Scanned.skip (h : Scanned s k items places start) (hm : mergesAt s k items start = true)
    (hn : mergesAt s k items (start + 1) = false) : Scanned s k items places (start + 2) where
  length := h.length
  ahead j hj := h.ahead j (by omega)
  settled j hj := by
    rcases Nat.lt_trichotomy j start with hlt | rfl | hgt
    · exact h.settled j hlt
    · exact Settled.of_alone (not_in_run_of_between (fun i hi => h.apart i hi hm) hn)
        (h.ahead j (Nat.le_refl j))
    · obtain rfl : j = start + 1 := by omega
      exact Settled.of_alone (not_in_run_of_not hn) (h.ahead _ (by omega))
  apart j hj _ := by
    obtain rfl : j = start + 1 := by omega
    exact hn

/-- Two neighbours that merge begin a run. -/
theorem Scanned.take (h : Scanned s k items places start) (hlt : start < places.length)
    (hm : mergesAt s k items start = true) (hn : mergesAt s k items (start + 1) = true) :
    Taken s k items places start places[start] [itemText s k places[start]] (start + 1) where
  length := h.length
  ahead j hj := h.ahead j (by omega)
  settled := h.settled
  begins j hj := h.apart j hj hm
  first_eq := by rw [← h.ahead start (Nat.le_refl start), List.getElem?_eq_getElem hlt]
  kept := List.getElem?_eq_getElem hlt
  holes j hj hji := by omega
  lt := Nat.lt_succ_self start
  merges j hj hji := by
    obtain rfl : j = start := by omega
    exact hm
  long := hn
  parts_eq := by rw [between_self, List.map_nil]

theorem Scanned.settled_of_end (h : Scanned s k items places start)
    (hend : ¬start + 1 < places.length) (j : Nat) : Settled s k items places j := by
  rcases Nat.lt_or_ge j start with hlt | hge
  · exact h.settled j hlt
  · refine Settled.of_alone (fun a b hab hj => ?_) (h.ahead j hge)
    have htwo := hab.two
    have hlast := lt_of_mergesAt (hab.merges (b - 1) (by omega) (by omega))
    have hlength := h.length
    -- such a run would have begun before `start` and go across it
    have hin := hab.merges start (by omega) (by omega)
    have hprev := hab.merges (start - 1) (by omega) (by omega)
    rw [h.apart (start - 1) (by omega) hin] at hprev
    cases hprev

/-- One more item is taken out. -/
theorem Taken.next {first : Value} {parts : List String}
    (h : Taken s k items places start first parts i) (hi : i < places.length)
    (hm : mergesAt s k items i = true) :
    Taken s k items (places.set i .null) start first (parts ++ [itemText s k places[i]])
      (i + 1) where
  length := by rw [List.length_set, h.length]
  ahead j hj := by rw [List.getElem?_set_ne (by omega), h.ahead j (by omega)]
  settled j hj := (h.settled j hj).congr (List.getElem?_set_ne (by have := h.lt; omega))
  begins := h.begins
  first_eq := h.first_eq
  kept := by rw [List.getElem?_set_ne (by have := h.lt; omega), h.kept]
  holes j hj hji := by
    rcases Nat.lt_or_ge j i with hlt | hge
    · rw [List.getElem?_set_ne (by omega), h.holes j hj hlt]
    · obtain rfl : j = i := by omega
      rw [List.getElem?_set_self hi]
  lt := Nat.lt_succ_of_lt h.lt
  merges j hj hji := by
    rcases Nat.lt_or_ge j i with hlt | hge
    · exact h.merges j hj hlt
    · obtain rfl : j = i := by omega
      exact hm
  long := h.long
  parts_eq := by
    rw [h.between_succ hi, h.parts_eq, List.map_append]
    rfl

theorem Taken.isRun {first : Value} {parts : List String}
    (h : Taken s k items places start first parts i) (hm : mergesAt s k items i = false) :
    IsRun s k items start i where
  two := by
    have hlt := h.lt
    by_contra hlong
    obtain rfl : i = start + 1 := by omega
    rw [h.long] at hm
    cases hm
  merges := h.merges
  before := h.begins
  behind := hm

theorem Taken.replaced {first : Value} {parts : List String}
    (h : Taken s k items places start first parts i) (hm : mergesAt s k items i = false) :
    Scanned s k items
      (places.set start (mergedItem s k first (between items (start + 1) i))) i where
  length := by rw [List.length_set, h.length]
  ahead j hj := by rw [List.getElem?_set_ne (by have := h.lt; omega), h.ahead j hj]
  settled j hj := by
    have hrun := h.isRun hm
    rcases Nat.lt_trichotomy j start with hlt | rfl | hgt
    · exact (h.settled j hlt).congr (List.getElem?_set_ne (by omega))
    · refine Settled.of_run hrun (Nat.le_refl j) hj ?_
      rw [List.getElem?_set_self h.start_lt, if_pos rfl, runItem, List.getD_eq_getElem?_getD,
        h.first_eq]
      rfl
    · refine Settled.of_run hrun (by omega) hj ?_
      rw [List.getElem?_set_ne (by omega), h.holes j hgt hj, if_neg (by omega)]
  apart j _ hin := by
    rw [hm] at hin
    cases hin

/-! ### What a round leaves to do -/

theorem mergeFrom_of_end (h : ¬start + 1 < places.length) :
    mergeFrom s k places start = .done places := by
  rw [mergeFrom, dif_neg h]

theorem mergeFrom_of_not (h₀ : start < places.length) (h : start + 1 < places.length)
    (hm : mergeable s k places[start] = false) :
    mergeFrom s k places start = mergeFrom s k places (start + 1) := by
  rw [mergeFrom, dif_pos h, if_pos (by rw [hm]; rfl)]

theorem mergeFrom_of_alone (h₀ : start < places.length) (h : start + 1 < places.length)
    (hm : mergeable s k places[start] = true) (hn : mergeable s k places[start + 1] = false) :
    mergeFrom s k places start = mergeFrom s k places (start + 2) := by
  rw [mergeFrom, dif_pos h, if_neg (by rw [hm]; decide), if_pos (by rw [hn]; rfl)]

theorem mergeFrom_of_run (h₀ : start < places.length) (h : start + 1 < places.length)
    (hm : mergeable s k places[start] = true) (hn : mergeable s k places[start + 1] = true) :
    mergeFrom s k places start =
      Walk.afterRun s k start places[start] (emptyRun s k places [] (start + 1)) := by
  rw [mergeFrom, dif_pos h, if_neg (by rw [hm]; decide), if_neg (by rw [hn]; decide)]
  rfl

theorem emptyRun_of_mergeable (others : List Value) (h : i < places.length)
    (hm : mergeable s k places[i] = true) :
    emptyRun s k places others i =
      emptyRun s k (places.set i .null) (others ++ [places[i]]) (i + 1) := by
  rw [emptyRun, dif_pos h, if_pos hm]

theorem emptyRun_of_stop (others : List Value)
    (h : ∀ h : i < places.length, mergeable s k places[i] = false) :
    emptyRun s k places others i = ⟨places, others, i⟩ := by
  rw [emptyRun]
  split
  · next hi => rw [if_neg (by rw [h hi]; decide)]
  · rfl

/-! ### The rounds themselves -/

namespace Walk

/-- What a round has to do: it does not fail, it leaves a sound state with the same outcome, and it
takes one off the rounds that are left. -/
def Advances (s : Store) (k : Kind) (items : List Value) (walk : Walk)
    (round : Except Fault Walk) : Prop :=
  ∃ next, round = .ok next ∧ next.Sound s k items ∧
    next.outcome s k items = walk.outcome s k items ∧ next.left ≤ walk.left - 1

theorem scanning_advances (h : Scanned s k items places start) :
    Advances s k items (scanning places start) (step s k (scanning places start)) := by
  by_cases hlt : start + 1 < places.length
  · have hstart : start < places.length := Nat.lt_of_succ_lt hlt
    have hfirst : mergesAt s k items start = mergeable s k places[start] :=
      mergesAt_of_same (h.ahead start (Nat.le_refl start)) hstart
    have hsecond : mergesAt s k items (start + 1) = mergeable s k places[start + 1] :=
      mergesAt_of_same (h.ahead _ (Nat.le_succ start)) hlt
    simp only [step, if_pos hlt, read_of_lt hstart, read_of_lt hlt, ok_bind]
    cases hm : mergeable s k places[start] with
    | false =>
      refine ⟨scanning places (start + 1), rfl, h.next (hfirst.trans hm), ?_, ?_⟩
      · exact (mergeFrom_of_not hstart hlt hm).symm
      · simp only [left]
        omega
    | true =>
      cases hn : mergeable s k places[start + 1] with
      | false =>
        refine ⟨scanning places (start + 2), rfl,
          h.skip (hfirst.trans hm) (hsecond.trans hn), ?_, ?_⟩
        · exact (mergeFrom_of_alone hstart hlt hm hn).symm
        · simp only [left]
          omega
      | true =>
        obtain ⟨item, -, hread, htext⟩ := readItem_of_mergeable hm
        refine ⟨emptying places start places[start] [item.text] (start + 1), ?_, ?_, ?_, ?_⟩
        · simp [hread]
        · rw [htext]
          exact h.take hstart (hfirst.trans hm) (hsecond.trans hn)
        · rw [outcome, outcome, mergeFrom_of_run hstart hlt hm hn, between_self]
        · simp only [left]
          omega
  · refine ⟨ended places, ?_, ⟨h.length, h.settled_of_end hlt⟩, (mergeFrom_of_end hlt).symm,
      Nat.zero_le _⟩
    rw [step, if_neg hlt]
    rfl

/-- A run that is through gives way to the item that stands for it. -/
theorem replace_advances {first : Value} {parts : List String}
    (h : Taken s k items places start first parts i) (hm : mergesAt s k items i = false) :
    Advances s k items (emptying places start first parts i)
      (replace s k places start first parts i) := by
  have hfirst : mergeable s k first = true := by
    have := h.merges start (Nat.le_refl start) h.lt
    rw [mergesAt, h.first_eq] at this
    exact this
  obtain ⟨item, hitem, hread, -⟩ := readItem_of_mergeable hfirst
  have hstop : ∀ hi : i < places.length, mergeable s k places[i] = false := by
    intro hi
    rw [← mergesAt_of_same (h.ahead i (Nat.le_refl i)) hi]
    exact hm
  have hmade : made k item parts = mergedItem s k first (between items (start + 1) i) := by
    rw [h.parts_eq, made_eq_mergedItem hitem]
  have houtcome : outcome s k items (emptying places start first parts i) =
      afterRun s k start first ⟨places, between items (start + 1) i, i⟩ := by
    rw [outcome, emptyRun_of_stop _ hstop]
  cases hp : runProblems s k first with
  | nil =>
    refine ⟨scanning (places.set start (made k item parts)) i, ?_, ?_, ?_, ?_⟩
    · simp [replace, hread, hp, write_of_lt h.start_lt]
    · rw [hmade]
      exact h.replaced hm
    · rw [houtcome, afterRun, hp, hmade]
      rfl
    · simp only [left, List.length_set]
      omega
  | cons problem problems =>
    refine ⟨stopped places (problem :: problems), ?_, ⟨by simp, h.length, h.partway⟩, ?_,
      Nat.zero_le _⟩
    · simp [replace, hread, hp]
    · rw [houtcome, afterRun, hp]
      rfl

theorem emptying_advances {first : Value} {parts : List String}
    (h : Taken s k items places start first parts i) :
    Advances s k items (emptying places start first parts i)
      (step s k (emptying places start first parts i)) := by
  by_cases hi : i < places.length
  · have hat : mergesAt s k items i = mergeable s k places[i] := by
      rw [mergesAt, ← h.ahead i (Nat.le_refl i), List.getElem?_eq_getElem hi]
      rfl
    simp only [step, if_pos hi, read_of_lt hi, ok_bind]
    cases hm : mergeable s k places[i] with
    | false => exact replace_advances h (hat.trans hm)
    | true =>
      obtain ⟨item, -, hread, htext⟩ := readItem_of_mergeable hm
      refine ⟨emptying (places.set i .null) start first (parts ++ [item.text]) (i + 1),
        ?_, ?_, ?_, ?_⟩
      · simp [hread, write_of_lt hi]
      · rw [htext]
        exact h.next hi (hat.trans hm)
      · rw [outcome, outcome, emptyRun_of_mergeable _ hi hm, h.between_succ hi]
      · simp only [left, List.length_set]
        omega
  · have hm : mergesAt s k items i = false := by
      rw [mergesAt, ← h.ahead i (Nat.le_refl i), List.getElem?_eq_none (Nat.le_of_not_lt hi)]
      rfl
    rw [step, if_neg hi]
    exact replace_advances h hm

/-- **A round** that is begun in a sound state does not fail and gets nearer to the end. -/
theorem step_sound {walk : Walk} (h : walk.Sound s k items) :
    Advances s k items walk (walk.step s k) :=
  match walk, h with
  | scanning _ _, h => scanning_advances h
  | emptying _ _ _ _ _, h => emptying_advances h
  | ended places, h => ⟨ended places, rfl, h, rfl, Nat.zero_le _⟩
  | stopped places problems, h => ⟨stopped places problems, rfl, h, rfl, Nat.zero_le _⟩

theorem run_sound {walk : Walk} (h : walk.Sound s k items) (n : Nat) :
    ∃ last, walk.run s k n = .ok last ∧ last.Sound s k items ∧
      last.outcome s k items = walk.outcome s k items ∧ last.left ≤ walk.left - n := by
  induction n generalizing walk with
  | zero => exact ⟨walk, rfl, h, rfl, Nat.le_refl _⟩
  | succ n ih =>
    obtain ⟨next, hnext, hsound, houtcome, hleft⟩ := step_sound h
    obtain ⟨last, hlast, hsound', houtcome', hleft'⟩ := ih hsound
    refine ⟨last, ?_, hsound', houtcome'.trans houtcome, by omega⟩
    rw [run, hnext]
    exact hlast

theorem eq_of_left_eq_zero {walk : Walk} (hs : walk.Sound s k items) (h : walk.left = 0)
    {merged : List Value} (ho : walk.outcome s k items = .done merged) : walk = ended merged := by
  cases walk with
  | scanning places start => simp [left] at h
  | emptying places start first parts i => simp [left] at h
  | ended places =>
    rw [outcome] at ho
    simp only [Attempt.done, Attempt.mk.injEq] at ho
    rw [ho.1]
  | stopped places problems =>
    rw [outcome] at ho
    simp only [Attempt.done, Attempt.mk.injEq] at ho
    exact absurd ho.2 hs.1

/-- A pass over items whose properties may be theirs comes to its end. -/
theorem run_ended (hm : ∀ v ∈ items, Mergeable s v) (k : Kind) :
    ∃ merged, mergePass s k items = .done merged ∧
      (∀ n, 2 * items.length < n → run s k n (scanning items 0) = .ok (ended merged)) ∧
      merged.length = items.length ∧ ∀ j, Settled s k items merged j := by
  have hpass := mergePass_eq k hm
  refine ⟨_, hpass, ?_⟩
  have hend : ∀ n, 2 * items.length < n →
      run s k n (scanning items 0) = .ok (ended (items.foldr (passJoin s k) [])) ∧
        (ended (items.foldr (passJoin s k) [])).Sound s k items := by
    intro n hn
    have hbegin : (scanning items 0).Sound s k items := Scanned.begin s k items
    obtain ⟨last, hlast, hsound, houtcome, hleft⟩ := run_sound hbegin n
    have hzero : last.left = 0 := by
      have hfull : (scanning items 0).left = 2 * items.length + 1 := rfl
      omega
    have hlast' := eq_of_left_eq_zero hsound hzero (houtcome.trans hpass)
    rw [← hlast']
    exact ⟨hlast, hsound⟩
  exact ⟨fun n hn => (hend n hn).1, (hend _ (Nat.lt_succ_self _)).2⟩

end Walk

end

/-! ## Two passes -/

/-- An item that is not of the kind of the other pass may join before or after that pass. -/
theorem foldr_passJoin_passJoin {s : Store} {k l : Kind} (hkl : k ≠ l) {v : Value}
    (hv : mergeable s k v = false) (ws : List Value) :
    (passJoin s l v ws).foldr (passJoin s k) [] =
      passJoin s l v (ws.foldr (passJoin s k) []) := by
  cases ws with
  | nil => rfl
  | cons w ws =>
    by_cases h : mergeable s l v = true ∧ mergeable s l w = true
    · -- neither the item that is made nor its hole is of the other kind
      have hw := mergeable_of_ne h.2 hkl.symm
      have hmade := mergeable_mergedItem_of_ne s l v [w] hkl.symm
      rw [passJoin_of_same h.1 h.2, List.foldr_cons, List.foldr_cons, List.foldr_cons,
        passJoin_of_not hmade, passJoin_of_not (mergeable_null s k), passJoin_of_not hw,
        passJoin_of_same h.1 h.2]
    · obtain ⟨x, xs, hx, hxw, -⟩ := foldr_passJoin_cons s k w ws
      have h' : ¬(mergeable s l v = true ∧ mergeable s l x = true) := by rwa [hxw]
      rw [passJoin_of_ne h, List.foldr_cons, passJoin_of_not hv, hx, passJoin_of_ne h']

/-- **Two passes may change places.** The runs of one kind are not touched by the pass for another:
it leaves what is not of its kind where it was. -/
theorem foldr_passJoin_comm {s : Store} {k l : Kind} (hkl : k ≠ l) (items : List Value) :
    (items.foldr (passJoin s k) []).foldr (passJoin s l) [] =
      (items.foldr (passJoin s l) []).foldr (passJoin s k) [] := by
  induction items with
  | nil => rfl
  | cons v vs ih =>
    rw [List.foldr_cons, List.foldr_cons]
    cases hv : mergeable s k v with
    | false => rw [passJoin_of_not hv, List.foldr_cons, ih, foldr_passJoin_passJoin hkl hv]
    | true =>
      have hl := mergeable_of_ne hv hkl
      rw [passJoin_of_not hl, List.foldr_cons, ← ih, foldr_passJoin_passJoin hkl.symm hl]

theorem mergePass_andThen {s : Store} {items : List Value} (hm : ∀ v ∈ items, Mergeable s v)
    (k l : Kind) :
    (mergePass s k items).andThen (mergePass s l) =
      .done ((items.foldr (passJoin s k) []).foldr (passJoin s l) []) := by
  rw [mergePass_eq k hm, Attempt.andThen_done, mergePass_eq l (mergeable_of_mem_passJoin hm)]

/-! ## The pass -/

/-- **A pass is safe and ends.** Over content items and holes no round fails. After each round the
list is as long as it was, and a place that has changed is in a maximal run, at whose first place is
the item that stands for it, with holes at the others. After two rounds for each place, and one
more, the pass has come to its end and every run has been merged. The pass for text and the one for
reasoning may change places. -/
theorem merging_safe {s : Store} {items : List Value}
    (h : ∀ v ∈ items, v = .null ∨ s.formed .content v = true) :
    (∀ k,
      (∀ n, ∃ walk, Walk.run s k n (.scanning items 0) = .ok walk ∧
        walk.places.length = items.length ∧ ∀ j, Partway s k items walk.places j) ∧
      ∃ merged, mergePass s k items = .done merged ∧
        (∀ n, 2 * items.length < n → Walk.run s k n (.scanning items 0) = .ok (.ended merged)) ∧
        merged.length = items.length ∧ ∀ j, Settled s k items merged j) ∧
    ∃ kept,
      ((mergePass s .text items).andThen (mergePass s .reasoning)).map withoutHoles = .done kept ∧
      ((mergePass s .reasoning items).andThen (mergePass s .text)).map withoutHoles = .done kept ∧
      ((∀ v ∈ items, v ≠ .null) → coalesce s items = .done kept) := by
  have hm : ∀ v ∈ items, Mergeable s v := by
    intro v hv
    rcases h v hv with rfl | hf
    · exact fun _ => ⟨.null, rfl⟩
    · exact mergeable_of_formed hf
  refine ⟨fun k => ⟨fun n => ?_, Walk.run_ended hm k⟩, withoutHoles (twoPasses s items), ?_, ?_, ?_⟩
  · have hbegin : (Walk.scanning items 0).Sound s k items := Scanned.begin s k items
    obtain ⟨walk, hwalk, hsound, -, -⟩ := Walk.run_sound hbegin n
    exact ⟨walk, hwalk, hsound.length, hsound.partway⟩
  · rw [mergePass_andThen hm]
    rfl
  · rw [mergePass_andThen hm, foldr_passJoin_comm (by decide)]
    rfl
  · intro hn
    rw [coalesce_eq_joined hm hn, withoutHoles_twoPasses s hn]

/-- Two texts; a hole and a third text; then two pieces of reasoning. -/
def patchy : List Value :=
  [plainText "No", plainText "w", .null, plainText "!",
    .object .reasoning [.null, .null, .null, .text "Is it "],
    .object .reasoning [.null, .null, .null, .text "late?"]]

/-- The pass for text leaves the third text alone, which has a hole before it. It has come to its
end after thirteen rounds at the latest. -/
theorem merging_safe_patchy :
    mergePass .empty .text patchy = .done (plainText "Now" :: .null :: patchy.drop 2) ∧
      ∃ kept,
        ((mergePass .empty .text patchy).andThen (mergePass .empty .reasoning)).map withoutHoles =
          .done kept ∧
        ((mergePass .empty .reasoning patchy).andThen (mergePass .empty .text)).map withoutHoles =
          .done kept := by
  have hf : ∀ v ∈ patchy, v = .null ∨ Store.empty.formed .content v = true := by decide
  obtain ⟨hpasses, kept, htext, hreasoning, -⟩ := merging_safe hf
  obtain ⟨-, merged, hmerged, hend, -⟩ := hpasses .text
  have hrun : Walk.run .empty .text 13 (.scanning patchy 0) =
      .ok (.ended (plainText "Now" :: .null :: patchy.drop 2)) := rfl
  rw [hend 13 (by decide)] at hrun
  simp only [Except.ok.injEq, Walk.ended.injEq] at hrun
  rw [hrun] at hmerged
  exact ⟨hmerged, kept, htext, hreasoning⟩

end Reassembly
