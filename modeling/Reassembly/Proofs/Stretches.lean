import Reassembly.Content.Coalesce

/-!
# Stretches

A pass walks over the places of a list from left to right, and writes holes and merged items into
it. It does the same as cutting the list into stretches, which are runs of items that merge and
single other places, and merging stretch by stretch.

* `stretches`: the list, cut.
* `mergeStretches`: the stretches, merged up to one that has problems.
* `flatten_stretches`: the stretches are the list.
* `emptyRun_eq`: what emptying a run does.
* `mergeFrom_eq`: **from some place on**, the pass does what merging the stretches from there does,
  and leaves the places before as they are.
* `mergePass_eq_mergeStretches`: the whole pass.
-/
namespace Reassembly

/-- The list, cut into runs of items that merge and single other places. -/
def stretches (s : Store) (k : Kind) : List Value → List (List Value)
  | [] => []
  | v :: vs =>
    if mergeable s k v then
      (v :: vs.takeWhile (mergeable s k)) :: stretches s k (vs.dropWhile (mergeable s k))
    else [v] :: stretches s k vs
termination_by vs => vs.length
decreasing_by
  · exact Nat.lt_succ_of_le (List.dropWhile_sublist _).length_le
  · exact Nat.lt_succ_self _

/-- A stretch with its items merged. -/
def mergedStretch (s : Store) (k : Kind) : List Value → List Value
  | first :: next :: rest =>
    mergedItem s k first (next :: rest) :: (next :: rest).map fun _ => .null
  | stretch => stretch

/-- A stretch that has been emptied for a merged item that cannot be made. -/
def blockedStretch : List Value → List Value
  | [] => []
  | first :: rest => first :: rest.map fun _ => .null

/-- What is wrong with the item that would stand for a stretch. -/
def stretchProblems (s : Store) (k : Kind) : List Value → List Problem
  | first :: _ :: _ => runProblems s k first
  | _ => []

/-- Merges stretch by stretch, up to one that has problems. -/
def mergeStretches (s : Store) (k : Kind) : List (List Value) → Attempt (List Value)
  | [] => .done []
  | stretch :: rest =>
    match stretchProblems s k stretch with
    | [] => (mergeStretches s k rest).map (mergedStretch s k stretch ++ ·)
    | problems => ⟨blockedStretch stretch ++ rest.flatten, problems⟩

theorem flatten_stretches (s : Store) (k : Kind) (places : List Value) :
    (stretches s k places).flatten = places := by
  fun_induction stretches s k places with
  | case1 => rfl
  | case2 v vs _ ih => simp [ih]
  | case3 v vs _ ih => simp [ih]

theorem length_mergedStretch (s : Store) (k : Kind) (stretch : List Value) :
    (mergedStretch s k stretch).length = stretch.length := by
  unfold mergedStretch
  split <;> simp

/-! ## The walk -/

section
variable {s : Store} {k : Kind}

theorem emptyRun_eq (s : Store) (k : Kind) (places others : List Value) (i : Nat) :
    emptyRun s k places others i =
      { places := places.take i ++
          ((places.drop i).takeWhile (mergeable s k)).map (fun _ => .null) ++
          (places.drop i).dropWhile (mergeable s k)
        others := others ++ (places.drop i).takeWhile (mergeable s k)
        stop := i + ((places.drop i).takeWhile (mergeable s k)).length } := by
  fun_induction emptyRun s k places others i with
  | case1 places others i h hm ih =>
    have hdrop := List.drop_eq_getElem_cons h
    have htake : (places.set i .null).take (i + 1) = places.take i ++ [.null] := by
      rw [List.take_succ_eq_append_getElem (by simpa using h), List.getElem_set_self,
        List.take_set_of_le (Nat.le_refl i)]
    have hrest : (places.set i .null).drop (i + 1) = places.drop (i + 1) :=
      List.drop_set_of_lt (Nat.lt_succ_self i)
    rw [ih, htake, hrest, hdrop, List.takeWhile_cons_of_pos hm, List.dropWhile_cons_of_pos hm]
    simp
    omega
  | case2 places others i h hm =>
    have hdrop := List.drop_eq_getElem_cons h
    rw [hdrop, List.takeWhile_cons_of_neg hm, List.dropWhile_cons_of_neg hm, ← hdrop]
    simp
  | case3 places others i h =>
    have hdrop := List.drop_eq_nil_of_le (Nat.le_of_not_lt h)
    have htake := List.take_of_length_le (Nat.le_of_not_lt h)
    rw [hdrop, htake]
    simp

theorem mergeStretches_cons_of_alone {v : Value} {vs : List Value}
    (h : mergeable s k v = true → ∀ w ∈ vs.head?, mergeable s k w = false) :
    mergeStretches s k (stretches s k (v :: vs)) =
      (mergeStretches s k (stretches s k vs)).map (v :: ·) := by
  have hcut : stretches s k (v :: vs) = [v] :: stretches s k vs := by
    rw [stretches]
    split
    · next hv =>
      have hnone : ∀ w ∈ vs.head?, ¬mergeable s k w = true := by
        intro w hw
        rw [h hv w hw]
        exact Bool.false_ne_true
      cases vs with
      | nil => rfl
      | cons w ws =>
        rw [List.takeWhile_cons_of_neg (hnone w rfl), List.dropWhile_cons_of_neg (hnone w rfl)]
    · rfl
  rw [hcut, mergeStretches]
  rfl

theorem mergeStretches_of_short {places : List Value} (h : places.length ≤ 1) :
    mergeStretches s k (stretches s k places) = .done places := by
  cases places with
  | nil =>
    rw [stretches]
    rfl
  | cons v vs =>
    have hnil : vs = [] := List.length_eq_zero_iff.1 (by simpa using h)
    subst hnil
    have halone : mergeable s k v = true → ∀ w ∈ ([] : List Value).head?,
        mergeable s k w = false := by
      intro _ w hw
      cases hw
    rw [mergeStretches_cons_of_alone halone, stretches]
    rfl

/-- Two neighbours that merge begin a run: the stretch there, and the places once it is emptied. -/
theorem run_at {places : List Value} {start : Nat} (h₀ : start < places.length)
    (h : start + 1 < places.length)
    (hm : mergeable s k places[start] = true) (hn : mergeable s k places[start + 1] = true) :
    ∃ next rest others,
      emptyRun s k places [] (start + 1) =
        { places := places.take start ++ blockedStretch (places[start] :: next :: rest) ++ others
          others := next :: rest
          stop := start + (rest.length + 2) } ∧
      stretches s k (places.drop start) =
        (places[start] :: next :: rest) :: stretches s k others := by
  have hdrop := List.drop_eq_getElem_cons h
  have hrest : (places.drop (start + 1)).takeWhile (mergeable s k) =
      places[start + 1] :: (places.drop (start + 2)).takeWhile (mergeable s k) := by
    rw [hdrop, List.takeWhile_cons_of_pos hn]
  refine ⟨places[start + 1], (places.drop (start + 2)).takeWhile (mergeable s k),
    (places.drop (start + 1)).dropWhile (mergeable s k), ?_, ?_⟩
  · have hlength : start + 1 + ((places.drop (start + 1)).takeWhile (mergeable s k)).length =
        start + (((places.drop (start + 2)).takeWhile (mergeable s k)).length + 2) := by
      rw [hrest, List.length_cons]
      omega
    have htake := List.take_succ_eq_append_getElem h₀
    rw [emptyRun_eq, hlength, hrest, htake, List.append_assoc (places.take start)]
    rfl
  · rw [List.drop_eq_getElem_cons h₀, stretches, if_pos hm, hrest]

theorem map_take_succ {places : List Value} {i : Nat} (h : i < places.length)
    (a : Attempt (List Value)) :
    a.map (places.take (i + 1) ++ ·) = (a.map (places[i] :: ·)).map (places.take i ++ ·) := by
  have hcons : ∀ vs, places.take (i + 1) ++ vs = places.take i ++ places[i] :: vs := by
    intro vs
    rw [List.take_succ_eq_append_getElem h, List.append_assoc]
    rfl
  simp only [Attempt.map, hcons]

/-- **From some place on** the pass does what merging the stretches from there does. -/
theorem mergeFrom_eq (s : Store) (k : Kind) (places : List Value) (start : Nat) :
    mergeFrom s k places start =
      (mergeStretches s k (stretches s k (places.drop start))).map (places.take start ++ ·) := by
  -- the places before `start` are done with; a step of the walk moves `start` over a stretch or two
  fun_induction mergeFrom s k places start with
  | case1 places start h hm ih =>
    have hv : ¬mergeable s k places[start] = true := by simpa using hm
    have hdrop := List.drop_eq_getElem_cons (by omega : start < places.length)
    rw [ih, map_take_succ (by omega), hdrop, mergeStretches_cons_of_alone fun hm => absurd hm hv]
  | case2 places start h hm hn ih =>
    have hw : mergeable s k places[start + 1] = false := by simpa using hn
    have hdrop := List.drop_eq_getElem_cons (by omega : start < places.length)
    have hnext := List.drop_eq_getElem_cons h
    have hfirst : mergeable s k places[start] = true →
        ∀ w ∈ (places[start + 1] :: places.drop (start + 2)).head?, mergeable s k w = false := by
      intro _ w hm
      cases hm
      exact hw
    have hsecond : mergeable s k places[start + 1] = true →
        ∀ w ∈ (places.drop (start + 2)).head?, mergeable s k w = false := by
      intro hm
      rw [hw] at hm
      cases hm
    rw [ih, map_take_succ h, map_take_succ (by omega), hdrop, hnext,
      mergeStretches_cons_of_alone hfirst, mergeStretches_cons_of_alone hsecond]
  | case3 places start h hm hn first run hp ih =>
    obtain ⟨next, rest, others, hrun, hcut⟩ :=
      run_at (by omega) h (by simpa using hm) (by simpa using hn)
    have hrun : run = _ := hrun
    have hbefore : (places.take start).length = start := List.length_take_of_le (by omega)
    have hset : (places.take start ++ blockedStretch (first :: next :: rest) ++ others).set start
          (mergedItem s k first (next :: rest)) =
        (places.take start ++ mergedStretch s k (first :: next :: rest)) ++ others := by
      rw [List.append_assoc, List.set_append_right _ _ (by omega), hbefore, Nat.sub_self,
        List.append_assoc]
      rfl
    have hlength : (places.take start ++ mergedStretch s k (first :: next :: rest)).length =
        start + (rest.length + 2) := by
      rw [List.length_append, hbefore, length_mergedStretch]
      rfl
    have hnone : stretchProblems s k (first :: next :: rest) = [] := hp
    have hcut : stretches s k (places.drop start) =
        (first :: next :: rest) :: stretches s k others := hcut
    rw [ih, hrun, hset, List.take_left' hlength, List.drop_left' hlength, hcut, mergeStretches,
      hnone]
    simp only [Attempt.map, List.append_assoc]
  | case4 places start h hm hn first run hp =>
    obtain ⟨next, rest, others, hrun, hcut⟩ :=
      run_at (by omega) h (by simpa using hm) (by simpa using hn)
    have hrun : run = _ := hrun
    have hsome : stretchProblems s k (first :: next :: rest) = runProblems s k first := rfl
    rw [hrun, hcut, mergeStretches, hsome, flatten_stretches]
    split
    · next hnone => exact absurd hnone hp
    · simp only [Attempt.map, List.append_assoc]
  | case5 places start h =>
    have hshort : (places.drop start).length ≤ 1 := by
      rw [List.length_drop]
      omega
    rw [mergeStretches_of_short hshort]
    simp only [Attempt.map, Attempt.done, List.take_append_drop]

end

theorem mergePass_eq_mergeStretches (s : Store) (k : Kind) (places : List Value) :
    mergePass s k places = mergeStretches s k (stretches s k places) := by
  rw [mergePass, mergeFrom_eq]
  rfl

end Reassembly
