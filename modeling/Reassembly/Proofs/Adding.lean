import Reassembly.Proofs.Bench
import Reassembly.Proofs.Figures
import Reassembly.Proofs.Growth
import Reassembly.Workspace.Basic

/-!
# Adding counters in place

Objects with counters are added to one another in a store. The receiver takes the sums, and its map
of named counts grows in place; where it has none it gets one of its own. Several objects may use
one map, and an object may be added to itself.

* `Store.IsDetails`: objects with counters as a store keeps them.
* `addUsage_cases`: what adding writes.
* `frame_addUsage`, `isDetails_receiver`: which cells have not changed, and what the receiver says.
* `Store.Separate`, `addUsage_separate`: two objects that share nothing, and that adding one to the
  other does not change it.
* `Store.addAll`, `figures_addAll`: one object after the other.
* `alikeIn_of_figures`: objects are alike if they say the same.
* `usage_add_laws`: the laws of adding.
-/
namespace Reassembly

open Store

/-- An object with counters as a store keeps them: it has a cell, and so has the map of its named
counts, if there is one. The map has each name once. -/
structure Store.IsDetails (s : Store) (v : Value) : Prop where
  formed : s.formed .details v = true
  stored : ∃ x, v = .shared x
  mapped : ∀ es, (s.usage v).counts ≠ .map es
  keyed : (s.figures v).Keyed

/-- They are two objects, and have no map of named counts in common. -/
def Store.Separate (s : Store) (a b : Value) : Prop :=
  a ≠ b ∧ ((s.usage a).counts = .null ∨ (s.usage a).counts ≠ (s.usage b).counts)

/-! ## Objects with counters -/

section
variable {s t : Store} {a b v : Value} {x : Nat} {u : Usage}

theorem usage_of_cell (h : s.cell x = u.toValue) : s.usage (.shared x) = u := by
  simp only [usage, head, h, Usage.toValue]

theorem Store.IsDetails.of_cell (h : s.cell x = u.toValue) (hu : u.Formed s)
    (hm : ∀ es, u.counts ≠ .map es) (hk : (u.figures s).Keyed) : s.IsDetails (.shared x) where
  formed := by
    refine formed_iff.2 ⟨.details, _, h, rfl, ?_⟩
    simp only [Kind.fields, List.forall₂_cons, List.forall₂_nil_left_iff]
    exact ⟨hu.input, hu.output, hu.total, hu.counts, trivial⟩
  stored := ⟨x, rfl⟩
  mapped := by
    rw [usage_of_cell h]
    exact hm
  keyed := by
    rw [figures, usage_of_cell h]
    exact hk

theorem Store.IsDetails.usage_formed (h : s.IsDetails v) : (s.usage v).Formed s :=
  (formed_details h.formed).2

theorem Store.IsDetails.cell (h : s.IsDetails (.shared x)) :
    x < s.size ∧ s.cell x = (s.usage (.shared x)).toValue := by
  have hcell : s.cell x = (s.usage (.shared x)).toValue := (formed_details h.formed).1
  exact ⟨lt_size_of_cell hcell (by simp [Usage.toValue]), hcell⟩

theorem Store.IsDetails.ne_map (h : s.IsDetails (.shared x)) {y : Nat} {es : Entries Value}
    (hy : s.cell y = .map es) : x ≠ y := by
  rintro rfl
  rw [h.cell.2] at hy
  cases hy

theorem Store.IsDetails.counts (h : s.IsDetails v) :
    (s.usage v).counts = .null ∨ ∃ y es, (s.usage v).counts = .shared y ∧ y < s.size ∧
      s.cell y = .map es ∧ (∀ e ∈ es, e.1.isText = true ∧ e.2.isInteger = true) ∧
      (Entries.keys es).Nodup := by
  rcases obeys_counts.1 h.usage_formed.counts with hn | ⟨es, hes, hint⟩
  · exact Or.inl hn
  · have hkeys := h.keyed (Entries.numbers es) (named_of_head hes)
    rw [Entries.keys_numbers] at hkeys
    cases hc : (s.usage v).counts with
    | shared y =>
      rw [hc] at hes
      exact Or.inr ⟨y, es, rfl, lt_size_of_cell hes (by simp), hes, hint, hkeys⟩
    | map fs => exact absurd hc (h.mapped fs)
    | _ =>
      rw [hc] at hes
      cases hes

/-- Whole numbers are such in every store; only named counts have to be looked up again. -/
theorem Usage.Formed.withCounts (hu : u.Formed s) {c : Value}
    (hc : t.obeys (.optional .counts) c = true) : ({ u with counts := c } : Usage).Formed t where
  input := obeys_counter.2 (obeys_counter.1 hu.input)
  output := obeys_counter.2 (obeys_counter.1 hu.output)
  total := obeys_counter.2 (obeys_counter.1 hu.total)
  counts := hc

theorem not_shareable_of_counter (h : s.obeys (.optional .integer) v = true) :
    v.isShareable = false := by
  rcases obeys_counter.1 h with rfl | ⟨n, rfl⟩ <;> rfl

theorem not_shareable_of_counts {es : Entries Value}
    (h : ∀ e ∈ es, e.1.isText = true ∧ e.2.isInteger = true) :
    ∀ e ∈ es, e.2.isShareable = false := by
  intro e he
  obtain ⟨n, hn⟩ := isInteger_iff.1 (h e he).2
  rw [hn]
  rfl

theorem internAll_counters (hu : u.Formed s) (counts : Value) :
    s.internAll [u.input, u.output, u.total, counts] =
      ((s.intern counts).1, [u.input, u.output, u.total, (s.intern counts).2]) := by
  simp only [internAll, intern_of_not_shareable (not_shareable_of_counter hu.input),
    intern_of_not_shareable (not_shareable_of_counter hu.output),
    intern_of_not_shareable (not_shareable_of_counter hu.total)]

theorem intern_counts {es : Entries Value}
    (h : ∀ e ∈ es, e.1.isText = true ∧ e.2.isInteger = true) :
    s.intern (.map es) = s.push (.map es) := by
  simp only [intern, internEntries_of_not_shareable (not_shareable_of_counts h)]

/-! ## What adding writes -/

/-- An object without a map of named counts refers to the new one, if there is any. -/
theorem setUsage_of_null (hu : u.Formed s) (hn : (s.usage a).counts = .null) :
    s.setUsage a u =
      (s.intern u.counts).1.write a { u with counts := (s.intern u.counts).2 }.toValue := by
  have hnone : s.entries? .null = none := rfl
  simp only [setUsage, hn, hnone, Option.isSome_none, Bool.false_eq_true, if_false,
    internAll_counters hu]
  rfl

theorem setUsage_of_same (hu : u.Formed s) {y : Nat} {old : Entries Value}
    (hy : (s.usage a).counts = .shared y) (hold : s.cell y = .map old) (hc : u.counts = .shared y) :
    s.setUsage a u = s.write a u.toValue := by
  have hsome : s.entries? (.shared y) = some old := by simp only [entries?, head, hold]
  have hintern : s.intern (.shared y) = (s, .shared y) := rfl
  simp only [setUsage, hy, hsome, Option.isSome_some, if_true, internAll_counters hu, hintern, hc,
    Usage.toValue]

theorem setUsage_of_map (hu : u.Formed s) {y : Nat} {old es : Entries Value}
    (hy : (s.usage a).counts = .shared y) (hold : s.cell y = .map old) (hc : u.counts = .map es) :
    s.setUsage a u = (s.write a { u with counts := .shared y }.toValue).write (.shared y)
      (.map es) := by
  have hsome : s.entries? (.shared y) = some old := by simp only [entries?, head, hold]
  have hintern : s.intern (.shared y) = (s, .shared y) := rfl
  have hplain : ∀ e ∈ es, e.2.isShareable = false :=
    not_shareable_of_counts (obeys_counts_map.1 (hc ▸ hu.counts))
  simp only [setUsage, hy, hsome, Option.isSome_some, if_true, internAll_counters hu, hintern, hc,
    internEntries_of_not_shareable hplain, Usage.toValue]

/-- **What adding does.** The receiver takes the sums. Without named counts on the other side its
map stays as it is; without a map of its own it gets a copy of the other one; else its map takes in
the counts of the other one. -/
theorem addUsage_cases (ha : s.IsDetails a) (hb : s.IsDetails b) :
    ((s.usage b).counts = .null ∧ s.addUsage a b = s.write a
        { (s.usage a).add s (s.usage b) with counts := (s.usage a).counts }.toValue) ∨
      (∃ fs, s.head (s.usage b).counts = .map fs ∧ (s.usage a).counts = .null ∧
        s.addUsage a b = (s.push (.map fs)).1.write a
          { (s.usage a).add s (s.usage b) with counts := .shared s.size }.toValue) ∨
      ∃ y es fs, s.head (s.usage b).counts = .map fs ∧ (s.usage a).counts = .shared y ∧
        s.cell y = .map es ∧ s.addUsage a b = (s.write a
          { (s.usage a).add s (s.usage b) with counts := .shared y }.toValue).write
            (.shared y) (.map (s.addCounts es fs)) := by
  have hgrow : s.addUsage a b = s.setUsage a ((s.usage a).add s (s.usage b)) := by
    rw [addUsage, growLists_of_counts ha.usage_formed.counts]
  have hsum := ha.usage_formed.add hb.usage_formed
  have hcounts : ((s.usage a).add s (s.usage b)).counts =
      s.addNamed (s.usage a).counts (s.usage b).counts := rfl
  rw [hgrow]
  rcases hb.counts with hbn | ⟨z, fs, hz, -, hfs, hf, -⟩
  · refine Or.inl ⟨hbn, ?_⟩
    rw [hbn, addNamed_null] at hcounts
    rw [← hcounts]
    rcases ha.counts with han | ⟨y, es, hy, -, hes, -, -⟩
    · rw [setUsage_of_null hsum han, hcounts, han]
      rfl
    · exact setUsage_of_same hsum hy hes (hcounts.trans hy)
  · have hhead : s.head (s.usage b).counts = .map fs := by rw [hz]; exact hfs
    rcases ha.counts with han | ⟨y, es, hy, -, hes, -, -⟩
    · refine Or.inr (Or.inl ⟨fs, hhead, han, ?_⟩)
      rw [han, null_addNamed hhead] at hcounts
      rw [setUsage_of_null hsum han, hcounts, intern_counts hf]
      rfl
    · refine Or.inr (Or.inr ⟨y, es, fs, hhead, hy, hes, ?_⟩)
      have hold : s.head (s.usage a).counts = .map es := by rw [hy]; exact hes
      exact setUsage_of_map hsum hy hes (hcounts.trans (addNamed_of_maps hold hhead))

/-! ## What the receiver says afterwards -/

/-- **Only the receiver and its map change.** -/
theorem frame_addUsage (ha : s.IsDetails a) (hb : s.IsDetails b) :
    s.Frame (a.refs ++ (s.usage a).counts.refs) (s.addUsage a b) := by
  obtain ⟨x, rfl⟩ := ha.stored
  have hx : ∀ cs : List Nat, x ∈ (Value.shared x).refs ++ cs := fun cs => List.mem_cons_self
  rcases addUsage_cases ha hb with ⟨-, h⟩ | ⟨fs, -, -, h⟩ | ⟨y, es, fs, -, hy, -, h⟩
  · rw [h]
    exact .of_write (hx _) _
  · rw [h]
    exact (Frame.of_extends _ (extends_push _ _)).trans (.of_write (hx _) _)
  · rw [h, hy]
    exact (Frame.of_write (hx _) _).trans (.of_write (by simp [Value.refs]) _)

/-- In the store `t`, the object in cell `x` has the counters `u`, and its named counts are in `c`.
That is the map that it had in the store `s`, or one in a cell that was not there. -/
structure Recorded (s : Store) (x : Nat) (u : Usage) (t : Store) (c : Value) : Prop where
  object : t.cell x = { u with counts := c }.toValue
  map : t.head c = s.head u.counts
  null : u.counts = .null → c = .null
  apart : ∀ es, c ≠ .map es
  place : c = (s.usage (.shared x)).counts ∨
    (s.usage (.shared x)).counts = .null ∧ c = .shared s.size

theorem recorded_addUsage (ha : s.IsDetails (.shared x)) (hb : s.IsDetails b) :
    ∃ c, Recorded s x ((s.usage (.shared x)).add s (s.usage b)) (s.addUsage (.shared x) b) c := by
  obtain ⟨hx, -⟩ := ha.cell
  have hcounts : ((s.usage (.shared x)).add s (s.usage b)).counts =
      s.addNamed (s.usage (.shared x)).counts (s.usage b).counts := rfl
  rcases addUsage_cases ha hb with ⟨hbn, h⟩ | ⟨fs, hfs, han, h⟩ | ⟨y, es, fs, hfs, hy, hes, h⟩
  · rw [hbn, addNamed_null] at hcounts
    refine ⟨(s.usage (.shared x)).counts, ?_, ?_, fun hn => hcounts ▸ hn, ha.mapped, Or.inl rfl⟩
    · rw [h, cell_write_self s hx]
    · rw [hcounts, h]
      rcases ha.counts with hn | ⟨y, es, hy, -, hes, -, -⟩
      · rw [hn]
        rfl
      · rw [hy]
        exact s.cell_write_of_ne fun he => ha.ne_map hes (Value.shared.inj he)
  · rw [han, null_addNamed hfs] at hcounts
    refine ⟨.shared s.size, ?_, ?_, fun hn => ?_, (fun es he => by cases he),
      Or.inr ⟨han, rfl⟩⟩
    · rw [h, cell_write_self]
      rw [size_push]
      exact Nat.lt_succ_of_lt hx
    · have hnew : Value.shared x ≠ .shared s.size := fun he =>
        absurd hx (by rw [Value.shared.inj he]; exact Nat.lt_irrefl _)
      rw [h, hcounts]
      exact (cell_write_of_ne _ hnew).trans (cell_push_self s _)
    · rw [hcounts] at hn
      cases hn
  · have hold : s.head (s.usage (.shared x)).counts = .map es := by rw [hy]; exact hes
    rw [addNamed_of_maps hold hfs] at hcounts
    refine ⟨.shared y, ?_, ?_, fun hn => ?_, (fun gs he => by cases he), Or.inl hy.symm⟩
    · rw [h, cell_write_of_ne _ fun he => ha.ne_map hes (Value.shared.inj he).symm,
        cell_write_self s hx]
    · rw [h, hcounts]
      refine cell_write_self _ ?_
      rw [size_write]
      exact lt_size_of_cell hes (by simp)
    · rw [hcounts] at hn
      cases hn

theorem Recorded.figures {c : Value} (h : Recorded s x u t c) :
    ({ u with counts := c } : Usage).figures t = u.figures s := by
  have hnamed : t.named c = s.named u.counts := by simp only [named, entries?, h.map]
  simp only [Usage.figures, hnamed]

theorem Recorded.formed {c : Value} (h : Recorded s x u t c) (hu : u.Formed s) :
    ({ u with counts := c } : Usage).Formed t := by
  refine hu.withCounts (obeys_counts.2 ?_)
  rcases obeys_counts.1 hu.counts with hn | hes
  · exact Or.inl (h.null hn)
  · rw [← h.map] at hes
    exact Or.inr hes

/-- **The receiver stays an object with counters**, and what it says is the sum. -/
theorem isDetails_receiver (ha : s.IsDetails a) (hb : s.IsDetails b) :
    (s.addUsage a b).IsDetails a ∧
      (s.addUsage a b).figures a = Figures.sum [s.figures a, s.figures b] := by
  obtain ⟨x, rfl⟩ := ha.stored
  obtain ⟨c, h⟩ := recorded_addUsage ha hb
  have hsum := figures_add ha.usage_formed hb.usage_formed ha.keyed hb.keyed
  have hread := h.figures.trans hsum
  have hformed := h.formed (ha.usage_formed.add hb.usage_formed)
  refine ⟨.of_cell h.object hformed h.apart (hread ▸ Figures.keyed_sum _), ?_⟩
  rw [figures, usage_of_cell h.object, hread]
  rfl

/-! ## Everybody else -/

theorem Store.Separate.symm (h : s.Separate a b) : s.Separate b a := by
  refine ⟨h.1.symm, ?_⟩
  by_cases hb : (s.usage b).counts = .null
  · exact Or.inl hb
  · exact Or.inr fun he => h.2.elim (fun ha => hb (he.trans ha)) fun hne => hne he.symm

theorem Store.IsDetails.mem_refs (h : s.IsDetails (.shared x)) {y : Nat}
    (hy : y ∈ (Value.shared x).refs ++ (s.usage (.shared x)).counts.refs) :
    y = x ∨ (s.usage (.shared x)).counts = .shared y ∧ ∃ es, s.cell y = .map es := by
  rcases List.mem_append.1 hy with hy | hy
  · exact Or.inl (List.mem_singleton.1 hy)
  · rcases h.counts with hn | ⟨z, es, hz, -, hes, -, -⟩
    · rw [hn] at hy
      cases hy
    · rw [hz, Value.refs, List.mem_singleton] at hy
      rw [hy]
      exact Or.inr ⟨hz, es, hes⟩

theorem holds_of_ne (ha : s.IsDetails a) (hv : s.IsDetails v) (h : a ≠ v) :
    s.Holds (a.refs ++ (s.usage a).counts.refs) v := by
  obtain ⟨x, rfl⟩ := ha.stored
  obtain ⟨z, rfl⟩ := hv.stored
  refine holds_shared.2 ⟨hv.cell.1, fun hm => ?_⟩
  rcases ha.mem_refs hm with rfl | ⟨-, es, hes⟩
  · exact h rfl
  · exact hv.ne_map hes rfl

theorem Store.Separate.holds_counts (h : s.Separate a v) (ha : s.IsDetails a)
    (hv : s.IsDetails v) : s.Holds (a.refs ++ (s.usage a).counts.refs) (s.usage v).counts := by
  obtain ⟨x, rfl⟩ := ha.stored
  rcases hv.counts with hn | ⟨y, fs, hy, hlt, hfs, -, -⟩
  · rw [hn]
    exact holds_null
  · rw [hy]
    refine holds_shared.2 ⟨hlt, fun hm => ?_⟩
    rcases ha.mem_refs hm with rfl | ⟨hsame, -⟩
    · exact ha.ne_map hfs rfl
    · rcases h.2 with hn | hne
      · rw [hn] at hsame
        cases hsame
      · exact hne (hsame.trans hy.symm)

theorem Store.Frame.isDetails {aside : List Nat} (h : s.Frame aside t) (hv : s.IsDetails v)
    (hobject : s.Holds aside v) (hmap : s.Holds aside (s.usage v).counts) :
    t.IsDetails v ∧ t.usage v = s.usage v ∧ t.figures v = s.figures v := by
  obtain ⟨z, rfl⟩ := hv.stored
  have hcell : t.cell z = (s.usage (.shared z)).toValue := by
    obtain ⟨hz, hn⟩ := holds_shared.1 hobject
    rw [h.cell z hz hn, hv.cell.2]
  have hread := usage_of_cell hcell
  have hfigures : t.figures (.shared z) = s.figures (.shared z) := by
    simp only [figures, Usage.figures, named, hread, h.entries? hmap]
  have hcounts : t.obeys (.optional .counts) (s.usage (.shared z)).counts = true := by
    rw [obeys_counts, h.head hmap]
    exact obeys_counts.1 hv.usage_formed.counts
  refine ⟨.of_cell hcell (hv.usage_formed.withCounts hcounts) hv.mapped ?_, hread, hfigures⟩
  rw [figures, hread] at hfigures
  rw [hfigures]
  exact hv.keyed

/-- **Adding does not change its argument**, nor anybody else, as long as they share nothing with
the receiver; and they go on sharing nothing with it. -/
theorem addUsage_separate (ha : s.IsDetails a) (hb : s.IsDetails b) (hv : s.IsDetails v)
    (h : s.Separate a v) :
    (s.addUsage a b).IsDetails v ∧ (s.addUsage a b).figures v = s.figures v ∧
      (s.addUsage a b).Separate a v := by
  have hmap := h.holds_counts ha hv
  obtain ⟨hdetails, husage, hfigures⟩ :=
    (frame_addUsage ha hb).isDetails hv (holds_of_ne ha hv h.1) hmap
  refine ⟨hdetails, hfigures, h.1, ?_⟩
  obtain ⟨x, rfl⟩ := ha.stored
  obtain ⟨c, hrecorded⟩ := recorded_addUsage ha hb
  rw [usage_of_cell hrecorded.object, husage]
  rcases hrecorded.place with hc | ⟨-, hc⟩
  · rw [hc]
    exact h.2
  · -- a new map has a cell that nobody else refers to
    refine Or.inr fun he => ?_
    have hnew : Value.shared s.size = (s.usage v).counts := hc.symm.trans he
    rw [← hnew, holds_shared] at hmap
    exact absurd hmap.1 (Nat.lt_irrefl _)

/-! ## One after the other -/

/-- Adds objects to one receiver, in their order. -/
def Store.addAll (s : Store) (a : Value) (bs : List Value) : Store :=
  bs.foldl (fun s b => s.addUsage a b) s

/-- **Adding any number of objects** leaves their sum in the receiver. -/
theorem figures_addAll {bs : List Value} (ha : s.IsDetails a)
    (hb : ∀ b ∈ bs, s.IsDetails b ∧ s.Separate a b) :
    (s.addAll a bs).IsDetails a ∧
      (s.addAll a bs).figures a = Figures.sum (s.figures a :: bs.map s.figures) := by
  induction bs generalizing s with
  | nil => exact ⟨ha, (Figures.sum_singleton ha.keyed).symm⟩
  | cons b bs ih =>
    obtain ⟨⟨hfirst, -⟩, hrest⟩ := List.forall_mem_cons.1 hb
    obtain ⟨hreceiver, hfigures⟩ := isDetails_receiver ha hfirst
    have later : ∀ c ∈ bs, (s.addUsage a b).IsDetails c ∧ (s.addUsage a b).Separate a c ∧
        (s.addUsage a b).figures c = s.figures c := by
      intro c hc
      obtain ⟨hd, hf, hs⟩ := addUsage_separate ha hfirst (hrest c hc).1 (hrest c hc).2
      exact ⟨hd, hs, hf⟩
    obtain ⟨hend, hsum⟩ := ih hreceiver fun c hc => ⟨(later c hc).1, (later c hc).2.1⟩
    refine ⟨hend, hsum.trans ?_⟩
    rw [List.map_congr_left fun c hc => (later c hc).2.2, hfigures]
    exact Figures.sum_sum_cons _ _

/-! ## Written out in the same way -/

/-- Objects that say the same are alike: figures are all that there is to see of counters. -/
theorem alikeIn_of_figures {w : Value} (hv : s.IsDetails v) (hw : t.IsDetails w)
    (h : s.figures v = t.figures w) : s.AlikeIn t v w := by
  have number : ∀ {m n : Value}, s.obeys (.optional .integer) m = true →
      t.obeys (.optional .integer) n = true → m.int? = n.int? → s.AlikeIn t m n := by
    intro m n hm hn he
    have hmn : m = n := by rw [← numberValue_int? hm, ← numberValue_int? hn, he]
    rw [← hmn]
    rcases obeys_counter.1 hm with rfl | ⟨k, rfl⟩
    · exact fun depth => by cases depth <;> rfl
    · exact fun depth => by cases depth <;> rfl
  have hf := hv.usage_formed
  have hg := hw.usage_formed
  refine alikeIn_object (formed_details hv.formed).1 (formed_details hw.formed).1
    (.cons (number hf.input hg.input (congrArg Figures.input h))
    (.cons (number hf.output hg.output (congrArg Figures.output h))
    (.cons (number hf.total hg.total (congrArg Figures.total h)) (.cons ?_ .nil))))
  have hnamed : s.named (s.usage v).counts = t.named (t.usage w).counts := congrArg Figures.counts h
  rcases obeys_counts.1 hf.counts with hn | ⟨es, hes, he⟩ <;>
    rcases obeys_counts.1 hg.counts with hm | ⟨fs, hfs, hf⟩
  · rw [hn, hm]
    exact fun depth => by cases depth <;> rfl
  · rw [hn, named_of_head hfs] at hnamed
    cases hnamed
  · rw [hm, named_of_head hes] at hnamed
    cases hnamed
  · rw [named_of_head hes, named_of_head hfs, Option.some.injEq] at hnamed
    have hsame : es = fs := by rw [← map_numbers he, ← map_numbers hf, hnamed]
    intro depth
    cases depth with
    | zero => rfl
    | succ depth =>
      simp only [layers, hes, hfs, hsame]
      refine congrArg Value.map (List.map_congr_left fun e hm => ?_)
      obtain ⟨n, hn⟩ := isInteger_iff.1 (hf e hm).2
      rw [hn]
      cases depth <;> rfl

/-- **The laws of adding counters.** Adding one object and then another is adding their sum; two
objects added to one another say the same up to the order of the names; an object that knows nothing
adds nothing, and turns into what is added to it. The argument stays as it is unless it shares
something with the receiver. An object added to itself doubles what it knows. Null is refused. -/
theorem usage_add_laws {c : Value} (ha : s.IsDetails a) (hb : s.IsDetails b) (hc : s.IsDetails c) :
    s.call a [b] .add = (s.addUsage a b, .ok .null) ∧
      (s.addUsage a b).figures a = Figures.sum [s.figures a, s.figures b] ∧
      (((s.usage a).add s (s.usage b)).add s (s.usage c)).figures s =
        ((s.usage a).add s ((s.usage b).add s (s.usage c))).figures s ∧
      (s.Separate a b → s.Separate a c →
        ((s.addUsage a b).addUsage a c).AlikeIn ((s.addUsage b c).addUsage a b) a a) ∧
      ((s.addUsage a b).figures a).Same ((s.addUsage b a).figures b) ∧
      (s.usage c = .unknown →
        s.AlikeIn (s.addUsage a c) a a ∧ s.AlikeIn (s.addUsage c a) a c) ∧
      (s.Separate a b → s.AlikeIn (s.addUsage a b) b b ∧
        (s.addUsage a b).head b = s.head b ∧
        (s.addUsage a b).head (s.usage b).counts = s.head (s.usage b).counts) ∧
      (s.addUsage a a).figures a = (s.figures a).doubled ∧
      s.call a [.null] .add = (s, .error (.absent .usage)) ∧
        (Failure.absent .usage).kind = "ValueError" := by
  obtain ⟨hab, hsum⟩ := isDetails_receiver ha hb
  refine ⟨?_, hsum, ?_, fun hsb hsc => ?_, ?_, fun he => ?_, fun hs => ?_, ?_, rfl, rfl⟩
  · obtain ⟨x, rfl⟩ := hb.stored
    rfl
  · exact figures_add_assoc ha.usage_formed hb.usage_formed hc.usage_formed ha.keyed hb.keyed
      hc.keyed
  · have hall : ∀ d ∈ [b, c], s.IsDetails d ∧ s.Separate a d := by
      simp [hb, hc, hsb, hsc]
    obtain ⟨hleft, hone⟩ := figures_addAll ha hall
    obtain ⟨hbc, hmiddle⟩ := isDetails_receiver hb hc
    obtain ⟨ha', hsame, -⟩ := addUsage_separate hb hc ha hsb.symm
    obtain ⟨hright, hother⟩ := isDetails_receiver ha' hbc
    refine alikeIn_of_figures hleft hright (hone.trans ?_)
    rw [hother, hsame, hmiddle]
    exact (Figures.sum_cons_sum _ _).symm
  · rw [hsum, (isDetails_receiver hb ha).2]
    exact Figures.sum_perm (.swap _ _ _)
  · have hnone : s.figures c = Figures.sum [] := by rw [figures, he]; rfl
    obtain ⟨hac, hleft⟩ := isDetails_receiver ha hc
    obtain ⟨hca, hright⟩ := isDetails_receiver hc ha
    rw [hnone] at hleft hright
    constructor
    · refine alikeIn_of_figures ha hac (Eq.symm (hleft.trans ?_))
      exact (Figures.sum_cons_sum _ _).trans (Figures.sum_singleton ha.keyed)
    · refine alikeIn_of_figures ha hca (Eq.symm (hright.trans ?_))
      exact (Figures.sum_sum_cons _ _).trans (Figures.sum_singleton ha.keyed)
  · have hframe := frame_addUsage ha hb
    obtain ⟨hd, hf, -⟩ := addUsage_separate ha hb hb hs
    exact ⟨alikeIn_of_figures hb hd hf.symm, hframe.head (holds_of_ne ha hb hs.1),
      hframe.head (hs.holds_counts ha hb)⟩
  · rw [(isDetails_receiver ha ha).2]
    exact Figures.sum_twice ha.keyed

end

/-- Objects with counters in cells 9, 10, 12 and 13. The one in cell 10 has no named counts, and the
last one knows nothing. -/
def ledger : Store :=
  (Store.empty.internAll
    [(Usage.mk (.int 10) .null .null (.map [(.text "cached", .int 4)])).toValue,
      (Usage.mk (.int 5) (.int 0) .null .null).toValue,
      (Usage.mk .null .null .null
        (.map [(.text "audio", .int 1), (.text "cached", .int 2)])).toValue,
      Usage.unknown.toValue]).1

theorem usage_add_laws_ledger :
    ((ledger.addUsage (.shared 9) (.shared 10)).addUsage (.shared 9) (.shared 12)).AlikeIn
        ((ledger.addUsage (.shared 10) (.shared 12)).addUsage (.shared 9) (.shared 10))
        (.shared 9) (.shared 9) ∧
      (ledger.addUsage (.shared 9) (.shared 9)).figures (.shared 9) =
        ⟨some 20, none, none, some [(.text "cached", 8)]⟩ ∧
      ledger.AlikeIn (ledger.addUsage (.shared 13) (.shared 9)) (.shared 9) (.shared 13) := by
  have first : ledger.IsDetails (.shared 9) :=
    .of_cell (u := ⟨.int 10, .null, .null, .shared 8⟩) rfl ⟨rfl, rfl, rfl, by decide⟩
      (fun es h => by cases h) fun es h => by cases h; decide
  have second : ledger.IsDetails (.shared 10) :=
    .of_cell (u := ⟨.int 5, .int 0, .null, .null⟩) rfl ⟨rfl, rfl, rfl, rfl⟩
      (fun es h => by cases h) fun es h => by cases h
  have third : ledger.IsDetails (.shared 12) :=
    .of_cell (u := ⟨.null, .null, .null, .shared 11⟩) rfl ⟨rfl, rfl, rfl, by decide⟩
      (fun es h => by cases h) fun es h => by cases h; decide
  have last : ledger.IsDetails (.shared 13) :=
    .of_cell (u := .unknown) rfl ⟨rfl, rfl, rfl, rfl⟩ (fun es h => by cases h) fun es h => by
      cases h
  have hab : ledger.Separate (.shared 9) (.shared 10) := ⟨by decide, Or.inr (by decide)⟩
  have hac : ledger.Separate (.shared 9) (.shared 12) := ⟨by decide, Or.inr (by decide)⟩
  obtain ⟨-, -, -, hassoc, -, -, -, hdouble, -⟩ := usage_add_laws first second third
  obtain ⟨-, -, -, -, -, hempty, -⟩ := usage_add_laws first second last
  exact ⟨hassoc hab hac, hdouble.trans (by decide), (hempty rfl).2⟩

end Reassembly
