import Mathlib.Data.List.SplitBy
import Reassembly.Proofs.Coalescing

/-!
# Maximal runs

Coalescing, told without passes, holes and places: the list is cut wherever two neighbours do not
merge with each other, and one item stands for each piece. The pieces are maximal runs of text of
one kind, and single other items; there is only one way to cut a list like that.

* `MaximalRuns`: a list cut into maximal runs.
* `maximalRuns_iff`: there is one such cut, `runs`.
* `joined_eq_runs`: what is put together item by item has one item for each run.
* `isChain_joined`: no two neighbours of what comes out merge with each other.
* `coalesce_of_apart`: a list without such neighbours stays as it is.
-/
namespace Reassembly

/-- Both items may merge, as the same kind of text. -/
def together (s : Store) (v w : Value) : Bool :=
  (mergeKind? s v).isSome && decide (mergeKind? s v = mergeKind? s w)

/-- The list, cut between neighbours that do not merge with each other. -/
def runs (s : Store) (items : List Value) : List (List Value) := items.splitBy (together s)

/-- The items are cut into single ones and runs that merge as one kind of text, and no run ends
where it could go on. -/
structure MaximalRuns (s : Store) (items : List Value) (cut : List (List Value)) : Prop where
  flatten : cut.flatten = items
  nonempty : ∀ run ∈ cut, run ≠ []
  one_kind : ∀ run ∈ cut, (∃ v, run = [v]) ∨ ∃ k, ∀ v ∈ run, mergeKind? s v = some k
  maximal : cut.IsChain fun run next =>
    ∀ v ∈ run.getLast?, ∀ w ∈ next.head?, together s v w = false

/-- The item that stands for a run: the item itself if it is alone, else a merged one. -/
def standIn (s : Store) : List Value → Value
  | [] => .null
  | [v] => v
  | first :: next :: rest => mergedItem s ((mergeKind? s first).getD .text) first (next :: rest)

section
variable {s : Store} {v w : Value} {items : List Value}

theorem mergeKind?_eq_some_iff {k : Kind} :
    mergeKind? s v = some k ↔ (k = .text ∨ k = .reasoning) ∧
      ∃ item, s.textItem? k v = some item ∧ s.items item.annotations = [] := by
  have reading : mergeable s k v = true ↔
      ∃ item, s.textItem? k v = some item ∧ s.items item.annotations = [] := by
    unfold mergeable Store.hasAnnotations
    cases s.textItem? k v <;> simp
  rw [← reading]
  constructor
  · intro h
    exact ⟨mergeKind?_cases h, mergeable_of_mergeKind? h⟩
  · rintro ⟨rfl | rfl, h⟩
    · exact mergeKind?_of_text h
    · exact mergeKind?_of_reasoning h

theorem together_iff : together s v w = true ↔
    ∃ k, mergeKind? s v = some k ∧ mergeKind? s w = some k := by
  unfold together
  cases mergeKind? s v <;> simp [eq_comm]

theorem together_eq_false_iff : together s v w = false ↔
    ∀ k, mergeKind? s v = some k → mergeKind? s w ≠ some k := by
  rw [Bool.eq_false_iff, Ne, together_iff]
  exact ⟨fun h k hv hw => h ⟨k, hv, hw⟩, fun h ⟨k, hv, hw⟩ => h k hv hw⟩

/-! ## One cut -/

/-- A run of items each of which merges with the next one is of one kind. -/
theorem mergeKind?_of_isChain {k : Kind} {run : List Value} (hv : mergeKind? s v = some k)
    (h : (v :: run).IsChain fun x y => together s x y = true) :
    ∀ w ∈ v :: run, mergeKind? s w = some k := by
  induction run generalizing v with
  | nil => simpa using hv
  | cons w run ih =>
    rw [List.isChain_cons_cons] at h
    obtain ⟨l, hl, hw⟩ := together_iff.1 h.1
    rw [hv] at hl
    cases hl
    exact List.forall_mem_cons.2 ⟨hv, ih hw h.2⟩

theorem isChain_of_mergeKind? {k : Kind} {run : List Value}
    (h : ∀ v ∈ run, mergeKind? s v = some k) :
    run.IsChain fun x y => together s x y = true := by
  refine List.Pairwise.isChain (List.pairwise_of_forall_mem_list ?_)
  intro v hv w hw
  exact together_iff.2 ⟨k, h v hv, h w hw⟩

theorem maximalRuns_runs (s : Store) (items : List Value) :
    MaximalRuns s items (runs s items) where
  flatten := List.flatten_splitBy _ _
  nonempty := fun run hr => by
    rintro rfl
    exact List.nil_notMem_splitBy _ _ hr
  one_kind := fun run hr => by
    have hchain := List.isChain_of_mem_splitBy hr
    match run, hchain with
    | [], _ => exact absurd hr (List.nil_notMem_splitBy _ _)
    | [v], _ => exact Or.inl ⟨v, rfl⟩
    | v :: w :: rest, hchain =>
      obtain ⟨k, hk, -⟩ := together_iff.1 (List.isChain_cons_cons.1 hchain).1
      exact Or.inr ⟨k, mergeKind?_of_isChain hk hchain⟩
  maximal := by
    refine (List.isChain_getLast_head_splitBy (together s) items).imp ?_
    rintro run next ⟨hr, hn, hapart⟩ v hv w hw
    rw [List.getLast?_eq_some_getLast hr, Option.mem_some_iff] at hv
    rw [List.head?_eq_some_head hn, Option.mem_some_iff] at hw
    rw [← hv, ← hw]
    exact hapart

/-- **Maximal runs.** There is one way to cut a list into them. -/
theorem maximalRuns_iff {cut : List (List Value)} :
    MaximalRuns s items cut ↔ cut = runs s items := by
  constructor
  · intro h
    have hchain : ∀ run ∈ cut, run.IsChain fun x y => together s x y = true := by
      intro run hr
      rcases h.one_kind run hr with ⟨v, rfl⟩ | ⟨k, hk⟩
      · exact List.isChain_singleton v
      · exact isChain_of_mergeKind? hk
    have hborder : cut.IsChain fun run next =>
        ∃ hr hn, together s (run.getLast hr) (next.head hn) = false := by
      refine h.maximal.imp_of_mem_imp ?_
      intro run next hr hn hborder
      refine ⟨h.nonempty run hr, h.nonempty next hn, hborder _ ?_ _ ?_⟩
      · exact List.getLast?_eq_some_getLast _
      · exact List.head?_eq_some_head _
    have hnil : [] ∉ cut := fun hm => h.nonempty [] hm rfl
    rw [runs, ← h.flatten, List.splitBy_flatten hnil hchain hborder]
  · rintro rfl
    exact maximalRuns_runs s items

/-! ## One item for each run -/

theorem mergeKind?_standIn {run : List Value} {k : Kind} (hn : run ≠ [])
    (h : ∀ v ∈ run, mergeKind? s v = some k) : mergeKind? s (standIn s run) = some k := by
  match run, hn with
  | [v], _ => exact h v (by simp)
  | first :: next :: rest, _ =>
    have hk := h first (by simp)
    simp only [standIn, hk, Option.getD_some]
    exact mergeKind?_mergedItem hk _

theorem foldr_join_run {k : Kind} {places run : List Value}
    (hp : ∀ w ∈ places.head?, mergeKind? s w ≠ some k) (v : Value)
    (h : ∀ w ∈ v :: run, mergeKind? s w = some k) :
    (v :: run).foldr (join s) places = standIn s (v :: run) :: places := by
  induction run generalizing v with
  | nil =>
    have hv := h v (by simp)
    cases places with
    | nil => rfl
    | cons w ws =>
      refine join_of_ne (fun l hl => ?_) ws
      rw [hv] at hl
      cases hl
      exact hp w rfl
  | cons w run ih =>
    obtain ⟨hv, hrun⟩ := List.forall_mem_cons.1 h
    have hw := mergeKind?_standIn (by simp) hrun
    rw [List.foldr_cons, ih w hrun, join_of_same hv hw]
    simp only [standIn, hv, Option.getD_some]
    cases run with
    | nil => rfl
    | cons x run =>
      simp only [hrun w (by simp), Option.getD_some]
      rw [mergedItem_cons_mergedItem]
      simp

theorem head?_map_standIn {run : List Value} {rest : List (List Value)} (hn : run ≠ [])
    (hk : (∃ v, run = [v]) ∨ ∃ k, ∀ v ∈ run, mergeKind? s v = some k) :
    ∀ w ∈ ((run :: rest).map (standIn s)).head?,
      ∃ v ∈ run.head?, mergeKind? s w = mergeKind? s v := by
  intro w hw
  rw [List.map_cons, List.head?_cons, Option.mem_some_iff] at hw
  rw [← hw]
  rcases hk with ⟨v, rfl⟩ | ⟨k, hk⟩
  · exact ⟨v, rfl, rfl⟩
  · refine ⟨run.head hn, List.head?_eq_some_head hn, ?_⟩
    rw [mergeKind?_standIn hn hk, hk _ (List.head_mem hn)]

/-- **One item for each run.** -/
theorem joined_of_maximalRuns {cut : List (List Value)} (h : MaximalRuns s items cut) :
    joined s items = cut.map (standIn s) := by
  obtain ⟨hflat, hnil, hkind, hmax⟩ := h
  rw [← hflat]
  clear hflat
  induction cut with
  | nil => rfl
  | cons run rest ih =>
    obtain ⟨hn, hnil⟩ := List.forall_mem_cons.1 hnil
    obtain ⟨hk, hkind⟩ := List.forall_mem_cons.1 hkind
    rw [List.flatten_cons, joined_append, ih hnil hkind hmax.tail, List.map_cons]
    -- the last item of the run does not merge with the item that stands for the next run
    have hborder : ∀ v ∈ run.getLast?, ∀ w ∈ (rest.map (standIn s)).head?,
        together s v w = false := by
      intro v hv w hw
      cases rest with
      | nil => cases hw
      | cons next rest =>
        obtain ⟨x, hx, hwx⟩ := head?_map_standIn (hnil next (by simp)) (hkind next (by simp)) w hw
        have hlast := (List.isChain_cons_cons.1 hmax).1 v hv x hx
        unfold together at hlast ⊢
        rw [hwx]
        exact hlast
    rcases hk with ⟨v, rfl⟩ | ⟨k, hk⟩
    · show join s v (rest.map (standIn s)) = v :: rest.map (standIn s)
      cases hr : rest.map (standIn s) with
      | nil => rfl
      | cons w ws =>
        rw [hr] at hborder
        exact join_of_ne (together_eq_false_iff.1 (hborder v rfl w rfl)) ws
    · match run, hn with
      | v :: run, _ =>
        refine foldr_join_run (fun w hw => ?_) v hk
        have hlast := List.getLast?_eq_some_getLast (List.cons_ne_nil v run)
        have hl := hk _ (List.getLast_mem (List.cons_ne_nil v run))
        exact together_eq_false_iff.1 (hborder _ hlast w hw) k hl

theorem joined_eq_runs (s : Store) (items : List Value) :
    joined s items = (runs s items).map (standIn s) :=
  joined_of_maximalRuns (maximalRuns_runs s items)

/-! ## Nothing left to merge -/

theorem isChain_join {vs : List Value}
    (h : vs.IsChain fun x y => together s x y = false) :
    (join s v vs).IsChain fun x y => together s x y = false := by
  cases vs with
  | nil => exact List.isChain_singleton v
  | cons w ws =>
    cases ht : together s v w with
    | false =>
      rw [join_of_ne (together_eq_false_iff.1 ht)]
      exact List.isChain_cons_cons.2 ⟨ht, h⟩
    | true =>
      obtain ⟨k, hv, hw⟩ := together_iff.1 ht
      rw [join_of_same hv hw]
      -- the merged item meets what the item met that was merged into it
      have hm := mergeKind?_mergedItem hv [w]
      refine List.isChain_cons.2 ⟨fun x hx => ?_, h.tail⟩
      have hwx := (List.isChain_cons.1 h).1 x hx
      unfold together at hwx ⊢
      rw [hm, ← hw]
      exact hwx

theorem isChain_joined (s : Store) (items : List Value) :
    (joined s items).IsChain fun x y => together s x y = false := by
  induction items with
  | nil => exact List.isChain_nil
  | cons v vs ih => exact isChain_join ih

theorem mergePass_of_apart {k : Kind} {places : List Value}
    (h : places.IsChain fun x y => ¬(mergeable s k x = true ∧ mergeable s k y = true)) :
    mergePass s k places = .done places := by
  rw [mergePass_eq_mergeStretches]
  fun_induction stretches s k places with
  | case1 => rfl
  | case2 v vs hv ih =>
    have halone : ∀ w ∈ vs.head?, ¬mergeable s k w = true := by
      intro w hw hm
      exact (List.isChain_cons.1 h).1 w hw ⟨hv, hm⟩
    have htake : vs.takeWhile (mergeable s k) = [] := by
      cases vs with
      | nil => rfl
      | cons w ws => exact List.takeWhile_cons_of_neg (halone w rfl)
    have hdrop : vs.dropWhile (mergeable s k) = vs := by
      cases vs with
      | nil => rfl
      | cons w ws => exact List.dropWhile_cons_of_neg (halone w rfl)
    rw [hdrop] at ih ⊢
    rw [htake, mergeStretches, ih h.tail]
    rfl
  | case3 v vs _ ih =>
    rw [mergeStretches, ih h.tail]
    rfl

/-- **Nothing to coalesce.** A list no two neighbours of which merge with each other stays as it is,
item by item. -/
theorem coalesce_of_apart (h : items.IsChain fun x y => together s x y = false)
    (hn : ∀ v ∈ items, v ≠ .null) : coalesce s items = .done items := by
  have pass : ∀ k, k = .text ∨ k = .reasoning → mergePass s k items = .done items := by
    intro k hk
    refine mergePass_of_apart (h.imp fun x y hxy hm => ?_)
    have kind : ∀ {z}, mergeable s k z = true → mergeKind? s z = some k := by
      intro z hz
      rcases hk with rfl | rfl
      · exact mergeKind?_of_text hz
      · exact mergeKind?_of_reasoning hz
    exact together_eq_false_iff.1 hxy k (kind hm.1) (kind hm.2)
  have hholes : withoutHoles items = items := by
    refine List.filter_eq_self.2 fun v hv => ?_
    simpa using hn v hv
  unfold coalesce
  split
  · rfl
  · rw [pass .text (Or.inl rfl), Attempt.andThen_done, pass .reasoning (Or.inr rfl),
      Attempt.andThen_done, hholes]

end

end Reassembly
