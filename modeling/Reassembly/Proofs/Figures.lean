import Mathlib.Data.List.ReduceOption
import Reassembly.Proofs.Counters
import Reassembly.Proofs.Sums

/-!
# What counters say

Counters are kept in objects, and their named counts in maps that may have cells of their own. What
they say is four figures: three numbers, and the named counts in their order. Each of them may be
unknown. Figures of many counters have a sum, which takes no account of how it is arrived at.

* `Figures`, `Usage.figures`, `Store.figures`: what counters say.
* `knownTotal`, `namedTotal`, `Figures.sum`: sums of many, unknown where all are unknown.
* `Figures.sum_append_sum`: sums of sums; `Figures.sum_singleton`, `Figures.sum_twice`: the sum of
  figures alone and with themselves.
* `Figures.Same`, `Figures.sum_same`: equal up to the order of the names; so are sums of the same
  figures in any order.
* `figures_add`: **adding counters adds their figures**.
* `toUsage_figures`: counters that are written out are given by their figures.
-/
namespace Reassembly

open Store

/-- What counters say. A number that is not known is none, and so are named counts where there is no
map of them; a map may be empty. -/
structure Figures where
  input : Option Int
  output : Option Int
  total : Option Int
  counts : Option (Entries Int)
deriving DecidableEq, Repr

/-- The sum of the known numbers, unknown if all are. -/
def knownTotal (ns : List (Option Int)) : Option Int :=
  if ∀ n ∈ ns, n = none then none else some ns.reduceOption.sum

/-- The sum of the known counts by name, unknown if all are. -/
def namedTotal (cs : List (Option (Entries Int))) : Option (Entries Int) :=
  if ∀ c ∈ cs, c = none then none else some (Entries.summed cs.reduceOption.flatten)

namespace Figures

/-- All figures added up. -/
def sum (fs : List Figures) : Figures where
  input := knownTotal (fs.map (·.input))
  output := knownTotal (fs.map (·.output))
  total := knownTotal (fs.map (·.total))
  counts := namedTotal (fs.map (·.counts))

/-- Equal up to the order of the names. -/
structure Same (f g : Figures) : Prop where
  input : f.input = g.input
  output : f.output = g.output
  total : f.total = g.total
  counts : Option.Rel List.Perm f.counts g.counts

/-- Each name is there once. -/
def Keyed (f : Figures) : Prop := ∀ es ∈ f.counts, (Entries.keys es).Nodup

/-- Twice what is known. -/
def doubled (f : Figures) : Figures where
  input := f.input.map (2 * ·)
  output := f.output.map (2 * ·)
  total := f.total.map (2 * ·)
  counts := f.counts.map fun es => es.map fun e => (e.1, 2 * e.2)

end Figures

/-! ## Totals -/

theorem forall_eq_none_iff {α : Type} {xs : List (Option α)} :
    (∀ x ∈ xs, x = none) ↔ xs.reduceOption = [] := by
  simp [List.reduceOption, List.filterMap_eq_nil_iff]

theorem knownTotal_append_knownTotal (ms ns ls : List (Option Int)) :
    knownTotal (ms ++ knownTotal ns :: ls) = knownTotal (ms ++ ns ++ ls) := by
  unfold knownTotal
  simp only [forall_eq_none_iff]
  by_cases h : ns.reduceOption = []
  · simp [List.reduceOption_append, h]
  · simp [List.reduceOption_append, h]

theorem namedTotal_append_namedTotal (bs cs ds : List (Option (Entries Int))) :
    namedTotal (bs ++ namedTotal cs :: ds) = namedTotal (bs ++ cs ++ ds) := by
  unfold namedTotal
  simp only [forall_eq_none_iff]
  by_cases h : cs.reduceOption = []
  · simp [List.reduceOption_append, h]
  · have hmiddle := Entries.summed_append_summed bs.reduceOption.flatten cs.reduceOption.flatten
      ds.reduceOption.flatten
    simp only [List.append_assoc] at hmiddle
    simp [List.reduceOption_append, h, hmiddle]

theorem knownTotal_perm {ms ns : List (Option Int)} (h : ms.Perm ns) :
    knownTotal ms = knownTotal ns := by
  have hsum : ms.reduceOption.sum = ns.reduceOption.sum := (h.filterMap id).sum_eq
  simp only [knownTotal, h.mem_iff, hsum]

theorem namedTotal_perm {bs cs : List (Option (Entries Int))} (h : bs.Perm cs) :
    Option.Rel List.Perm (namedTotal bs) (namedTotal cs) := by
  have hsum := Entries.summed_perm (h.filterMap id).flatten
  unfold namedTotal
  simp only [h.mem_iff]
  split
  · exact .none
  · exact .some hsum

theorem namedTotal_forall₂ {bs cs : List (Option (Entries Int))}
    (h : List.Forall₂ (Option.Rel List.Perm) bs cs) :
    Option.Rel List.Perm (namedTotal bs) (namedTotal cs) := by
  have hparts : (bs.reduceOption = [] ↔ cs.reduceOption = []) ∧
      bs.reduceOption.flatten.Perm cs.reduceOption.flatten := by
    induction h with
    | nil => exact ⟨Iff.rfl, .nil⟩
    | cons hbc _ ih =>
      cases hbc with
      | none => exact ih
      | some hbc => exact ⟨by simp, hbc.append ih.2⟩
  unfold namedTotal
  simp only [forall_eq_none_iff, hparts.1]
  split
  · exact .none
  · exact .some (Entries.summed_perm hparts.2)

theorem knownTotal_singleton (n : Option Int) : knownTotal [n] = n := by
  cases n <;> simp [knownTotal]

theorem namedTotal_singleton {c : Option (Entries Int)} (h : ∀ es ∈ c, (Entries.keys es).Nodup) :
    namedTotal [c] = c := by
  cases c with
  | none => rfl
  | some es => simp [namedTotal, Entries.summed_of_nodup (h es rfl)]

theorem knownTotal_twice (n : Option Int) : knownTotal [n, n] = n.map (2 * ·) := by
  cases n with
  | none => rfl
  | some m =>
    simp [knownTotal]
    omega

theorem namedTotal_twice {c : Option (Entries Int)} (h : ∀ es ∈ c, (Entries.keys es).Nodup) :
    namedTotal [c, c] = c.map fun es => es.map fun e => (e.1, 2 * e.2) := by
  cases c with
  | none => rfl
  | some es => simp [namedTotal, Entries.summed_twice (h es rfl)]

/-! ## Sums of figures -/

namespace Figures

variable {f : Figures} {fs gs : List Figures}

/-- **Sums of sums.** Figures in the middle may be added up before the others. -/
theorem sum_append_sum (fs gs hs : List Figures) :
    sum (fs ++ sum gs :: hs) = sum (fs ++ gs ++ hs) := by
  have hinput := knownTotal_append_knownTotal (fs.map (·.input)) (gs.map (·.input))
    (hs.map (·.input))
  have houtput := knownTotal_append_knownTotal (fs.map (·.output)) (gs.map (·.output))
    (hs.map (·.output))
  have htotal := knownTotal_append_knownTotal (fs.map (·.total)) (gs.map (·.total))
    (hs.map (·.total))
  have hcounts := namedTotal_append_namedTotal (fs.map (·.counts)) (gs.map (·.counts))
    (hs.map (·.counts))
  simp only [sum, List.map_append, List.map_cons, hinput, houtput, htotal, hcounts]

theorem sum_sum_cons (fs gs : List Figures) : sum (sum fs :: gs) = sum (fs ++ gs) :=
  sum_append_sum [] fs gs

theorem sum_cons_sum (f : Figures) (gs : List Figures) : sum [f, sum gs] = sum (f :: gs) := by
  rw [← List.singleton_append, sum_append_sum, List.append_nil, List.singleton_append]

theorem sum_singleton (h : f.Keyed) : sum [f] = f := by
  simp only [sum, List.map_cons, List.map_nil, knownTotal_singleton, namedTotal_singleton h]

/-- Figures and once more the same figures are their double. -/
theorem sum_twice (h : f.Keyed) : sum [f, f] = f.doubled := by
  simp only [sum, List.map_cons, List.map_nil, knownTotal_twice, namedTotal_twice h, doubled]

theorem keyed_sum (fs : List Figures) : (sum fs).Keyed := by
  intro es hes
  simp only [sum, namedTotal, Option.mem_def, Option.ite_none_left_eq_some,
    Option.some.injEq] at hes
  rw [← hes.2]
  exact Entries.nodup_summed _

theorem Same.trans {g h : Figures} (hfg : f.Same g) (hgh : g.Same h) : f.Same h where
  input := hfg.input.trans hgh.input
  output := hfg.output.trans hgh.output
  total := hfg.total.trans hgh.total
  counts := by
    obtain ⟨-, -, -, hfg⟩ := hfg
    obtain ⟨-, -, -, hgh⟩ := hgh
    revert hfg hgh
    cases f.counts <;> cases g.counts <;> cases h.counts <;> simp
    exact List.Perm.trans

theorem sum_perm (h : fs.Perm gs) : (sum fs).Same (sum gs) where
  input := knownTotal_perm (h.map _)
  output := knownTotal_perm (h.map _)
  total := knownTotal_perm (h.map _)
  counts := namedTotal_perm (h.map _)

theorem sum_forall₂ (h : List.Forall₂ Same fs gs) : (sum fs).Same (sum gs) := by
  have column : ∀ g : Figures → Option Int, (∀ f f', Same f f' → g f = g f') →
      fs.map g = gs.map g := by
    intro g hg
    induction h with
    | nil => rfl
    | cons hfg _ ih => rw [List.map_cons, List.map_cons, hg _ _ hfg, ih]
  refine ⟨congrArg knownTotal ?_, congrArg knownTotal ?_, congrArg knownTotal ?_,
    namedTotal_forall₂ ?_⟩
  · exact column _ fun _ _ h => h.input
  · exact column _ fun _ _ h => h.output
  · exact column _ fun _ _ h => h.total
  · rw [List.forall₂_map_left_iff, List.forall₂_map_right_iff]
    exact h.imp fun _ _ h => h.counts

/-- **The same figures in any order** have the same sum. -/
theorem sum_same {sorted : List Figures} (hp : fs.Perm sorted) (h : List.Forall₂ Same sorted gs) :
    (sum fs).Same (sum gs) :=
  (sum_perm hp).trans (sum_forall₂ h)

end Figures

/-! ## Reading counters -/

/-- The numbers of a map of counts. -/
def Entries.numbers (es : Entries Value) : Entries Int := es.map fun e => (e.1, e.2.int?.getD 0)

/-- The named counts, if there is a map of them. -/
def Store.named (s : Store) (counts : Value) : Option (Entries Int) :=
  (s.entries? counts).map Entries.numbers

def Usage.figures (s : Store) (u : Usage) : Figures where
  input := u.input.int?
  output := u.output.int?
  total := u.total.int?
  counts := s.named u.counts

/-- What the counters of an object say. -/
def Store.figures (s : Store) (v : Value) : Figures := (s.usage v).figures s

/-- A number, or null if it is not known. -/
def numberValue : Option Int → Value
  | none => .null
  | some n => .int n

/-- A map of counts, or null if there is none. -/
def countsValue : Option (Entries Int) → Value
  | none => .null
  | some es => .map (es.map fun e => (e.1, .int e.2))

/-- The counters that say it. -/
def Figures.toUsage (f : Figures) : Usage where
  input := numberValue f.input
  output := numberValue f.output
  total := numberValue f.total
  counts := countsValue f.counts

namespace Entries

@[simp] theorem keys_numbers (es : Entries Value) : keys es.numbers = keys es := by
  simp [keys, numbers, Function.comp_def]

theorem get?_numbers (es : Entries Value) (k : Key) :
    es.numbers.get? k = (es.get? k).map fun v => v.int?.getD 0 := by
  induction es with
  | nil => rfl
  | cons e es ih =>
    obtain ⟨l, v⟩ := e
    unfold numbers at ih ⊢
    by_cases h : l = k
    · simp [get?, h]
    · simp [get?, h, ih]

theorem numbers_put (es : Entries Value) (k : Key) (v : Value) :
    (es.put k v).numbers = es.numbers.put k (v.int?.getD 0) := by
  induction es with
  | nil => rfl
  | cons e es ih =>
    obtain ⟨l, w⟩ := e
    unfold numbers at ih ⊢
    by_cases h : l = k
    · simp [put, h]
    · simp [put, h, ih]

end Entries

section
variable {s : Store}

theorem int?_knownSum {a b : Value} (ha : s.obeys (.optional .integer) a = true)
    (hb : s.obeys (.optional .integer) b = true) :
    (s.knownSum a b).int? = knownTotal [a.int?, b.int?] := by
  rcases obeys_counter.1 ha with rfl | ⟨m, rfl⟩ <;> rcases obeys_counter.1 hb with rfl | ⟨n, rfl⟩
  · rfl
  · rw [knownSum_null_int]
    simp [Value.int?, knownTotal]
  · rw [knownSum_int_null]
    simp [Value.int?, knownTotal]
  · rw [knownSum_int]
    simp [Value.int?, knownTotal]

theorem numbers_addCount {es : Entries Value} {f : Key × Value}
    (he : ∀ e ∈ es, e.1.isText = true ∧ e.2.isInteger = true) (hf : f.2.isInteger = true)
    (hn : (Entries.keys es).Nodup) :
    (s.addCount es f).numbers = Entries.summed (es.numbers ++ [(f.1, f.2.int?.getD 0)]) := by
  obtain ⟨k, v⟩ := f
  obtain ⟨n, rfl⟩ := isInteger_iff.1 hf
  rw [Entries.summed_append_singleton (by rwa [Entries.keys_numbers]), addCount,
    Entries.numbers_put, Entries.get?_numbers]
  congr 1
  cases hg : es.get? k with
  | none => simp [Value.int?]
  | some old =>
    obtain ⟨m, hm⟩ := isInteger_iff.1 (he _ (Entries.mem_of_get? hg)).2
    simp only at hm
    rw [hm]
    rfl

/-- Counts that are added one by one are summed up by name. -/
theorem numbers_addCounts {es fs : Entries Value}
    (he : ∀ e ∈ es, e.1.isText = true ∧ e.2.isInteger = true)
    (hf : ∀ f ∈ fs, f.1.isText = true ∧ f.2.isInteger = true) (hn : (Entries.keys es).Nodup) :
    (s.addCounts es fs).numbers = Entries.summed (es.numbers ++ fs.numbers) := by
  induction fs generalizing es with
  | nil =>
    have hnumbers : (Entries.keys es.numbers).Nodup := by rwa [Entries.keys_numbers]
    exact ((congrArg Entries.summed (List.append_nil _)).trans
      (Entries.summed_of_nodup hnumbers)).symm
  | cons f fs ih =>
    obtain ⟨hf, hfs⟩ := List.forall_mem_cons.1 hf
    have hstep : (s.addCount es f).numbers =
        Entries.summed (es.numbers ++ [(f.1, f.2.int?.getD 0)]) := numbers_addCount he hf.2 hn
    have hcounts := addCount_counts (s := s) he hf
    have hrest := ih hcounts hfs (Entries.nodup_put _ _ hn)
    have hmiddle := Entries.summed_append_summed []
      (es.numbers ++ [(f.1, f.2.int?.getD 0)]) (Entries.numbers fs)
    rw [hstep] at hrest
    rw [List.nil_append, List.nil_append, List.append_assoc] at hmiddle
    exact hrest.trans hmiddle

theorem named_of_head {v : Value} {es : Entries Value} (h : s.head v = .map es) :
    s.named v = some es.numbers := by
  simp [named, entries?, h]

/-! ## Adding two maps -/

theorem ne_null_of_map {v : Value} {es : Entries Value} (h : s.head v = .map es) : v ≠ .null := by
  rintro rfl
  cases h

theorem addNamed_null (a : Value) : s.addNamed a .null = a := if_pos rfl

/-- Without a map on the left side, the sum is a copy of the other one. -/
theorem null_addNamed {b : Value} {fs : Entries Value} (hb : s.head b = .map fs) :
    s.addNamed .null b = .map fs := by
  rw [addNamed, if_neg (ne_null_of_map hb), if_pos rfl, mapping_of_head hb]

theorem addNamed_of_maps {a b : Value} {es fs : Entries Value} (ha : s.head a = .map es)
    (hb : s.head b = .map fs) : s.addNamed a b = .map (s.addCounts es fs) := by
  rw [addNamed, if_neg (ne_null_of_map hb), if_neg (ne_null_of_map ha)]
  simp only [entries?, ha, hb]

theorem named_addNamed {a b : Value} (ha : s.obeys (.optional .counts) a = true)
    (hb : s.obeys (.optional .counts) b = true) (hak : ∀ es ∈ s.named a, (Entries.keys es).Nodup)
    (hbk : ∀ es ∈ s.named b, (Entries.keys es).Nodup) :
    s.named (s.addNamed a b) = namedTotal [s.named a, s.named b] := by
  rcases obeys_counts.1 hb with rfl | ⟨fs, hfs, hf⟩
  · have hnull : namedTotal [s.named a, s.named .null] = namedTotal [s.named a] :=
      namedTotal_append_namedTotal [s.named a] [] []
    rw [addNamed_null, hnull, namedTotal_singleton hak]
  · rcases obeys_counts.1 ha with rfl | ⟨es, hes, he⟩
    · have hnull : namedTotal [s.named .null, s.named b] = namedTotal [s.named b] :=
        namedTotal_append_namedTotal [] [] [s.named b]
      rw [null_addNamed hfs, hnull, namedTotal_singleton hbk, named_of_head hfs]
      rfl
    · have hkeys := hak (Entries.numbers es) (named_of_head hes)
      rw [Entries.keys_numbers] at hkeys
      rw [addNamed_of_maps hes hfs, named_of_head rfl, numbers_addCounts he hf hkeys,
        named_of_head hes, named_of_head hfs]
      simp [namedTotal]

/-- **Adding counters** adds their figures. -/
theorem figures_add {a b : Usage} (ha : a.Formed s) (hb : b.Formed s) (hak : (a.figures s).Keyed)
    (hbk : (b.figures s).Keyed) :
    (a.add s b).figures s = Figures.sum [a.figures s, b.figures s] := by
  simp only [Usage.figures, Usage.add, Figures.sum, List.map_cons, List.map_nil,
    int?_knownSum ha.input hb.input, int?_knownSum ha.output hb.output,
    int?_knownSum ha.total hb.total, named_addNamed ha.counts hb.counts hak hbk]

theorem figures_add_assoc {a b c : Usage} (ha : a.Formed s) (hb : b.Formed s) (hc : c.Formed s)
    (hak : (a.figures s).Keyed) (hbk : (b.figures s).Keyed) (hck : (c.figures s).Keyed) :
    ((a.add s b).add s c).figures s = (a.add s (b.add s c)).figures s := by
  have hab := figures_add ha hb hak hbk
  have hbc := figures_add hb hc hbk hck
  have hleft := figures_add (ha.add hb) hc (hab ▸ Figures.keyed_sum _) hck
  have hright := figures_add ha (hb.add hc) hak (hbc ▸ Figures.keyed_sum _)
  rw [hleft, hright, hab, hbc, Figures.sum_sum_cons, Figures.sum_cons_sum]
  rfl

theorem numberValue_int? {v : Value} (h : s.obeys (.optional .integer) v = true) :
    numberValue v.int? = v := by
  rcases obeys_counter.1 h with rfl | ⟨n, rfl⟩ <;> rfl

theorem obeys_counts_map {es : Entries Value} : s.obeys (.optional .counts) (.map es) = true ↔
    ∀ e ∈ es, e.1.isText = true ∧ e.2.isInteger = true := by
  rw [obeys_counts]
  simp [head]

theorem map_numbers {es : Entries Value} (h : ∀ e ∈ es, e.1.isText = true ∧ e.2.isInteger = true) :
    es.numbers.map (fun e => (e.1, Value.int e.2)) = es := by
  rw [Entries.numbers, List.map_map]
  refine (List.map_congr_left fun e he => ?_).trans (List.map_id es)
  obtain ⟨n, hn⟩ := isInteger_iff.1 (h e he).2
  exact Prod.ext rfl (by simp [hn, Value.int?])

/-- **Counters that are written out** are given by their figures. -/
theorem toUsage_figures {u : Usage} (hu : u.Formed s)
    (hc : u.counts = .null ∨ ∃ es, u.counts = .map es) : (u.figures s).toUsage = u := by
  have hcounts : countsValue (s.named u.counts) = u.counts := by
    rcases hc with hc | ⟨es, hc⟩
    · rw [hc]
      rfl
    · have hint := hu.counts
      rw [hc] at hint ⊢
      rw [named_of_head rfl, countsValue, map_numbers (obeys_counts_map.1 hint)]
  simp only [Figures.toUsage, Usage.figures, numberValue_int? hu.input, numberValue_int? hu.output,
    numberValue_int? hu.total, hcounts]

end

end Reassembly
