import Reassembly.Proofs.Runs
import Reassembly.Proofs.Carried
import Reassembly.Proofs.Steady

/-!
# What coalescing leaves in a list

A list of content items of the store is coalesced in place. What stands in it afterwards is told
run by run: an item that is alone stays the same object, and a longer run gives way to one new
object, with the texts of the run and a full copy of the properties of its first item. All other
cells are what they were; so no item is changed, whoever else may hold it.

* `Store.FullCopy`: a copy of a value in cells that were not there before.
* `StandsFor`: what may stand in the place of a run.
* `fullCopy_intern_copy`, `FullCopy.later`: copies that are made, and that stay.
* `settle_standIn`, `settleAll_standIns`, `coalesceList_standsFor`: one run, and all of them.
* `coalesceList_runs`: **coalescing** is cutting into maximal runs and putting an item in the place
  of each.
-/
namespace Reassembly

open Store

/-- `w` is a full copy of `v`, in cells that `t` has and `s` has not. It says the same, it leads to
no old cell, and if `v` is a reference then the copied cells and the old ones refer to each other in
the same way, one for one. -/
structure Store.FullCopy (s t : Store) (v w : Value) : Prop where
  alike : s.AlikeIn t v w
  fresh : ∀ y ∈ t.reachedBy w, s.size ≤ y
  null : v = .null → w = .null
  one_for_one : ∀ p, v = .shared p → ∃ place : Nat → Nat, w = .shared (place p) ∧
    (∀ y ∈ s.reachedBy v, s.size ≤ place y ∧
      t.cell (place y) = (s.cell y).bind fun r => .shared (place r)) ∧
    ∀ y ∈ s.reachedBy v, ∀ z ∈ s.reachedBy v, place y = place z → y = z

/-- What may stand in the place of a run: the item itself if it is alone, else a new item with the
texts of the run, a copy of the properties of its first item, and nothing else. -/
inductive StandsFor (s t : Store) : List Value → Value → Prop where
  | alone (v : Value) : StandsFor s t [v] v
  | merged {k : Kind} {first next p : Value} {rest : List Value} {ref : Nat}
      (kind : mergeKind? s first = some k) (new : s.size ≤ ref)
      (cell : t.cell ref = .object k [.null, .null, p,
        .text (String.join ((first :: next :: rest).map (itemText s k)))])
      (copy : s.FullCopy t (itemProperties s k first) p) :
      StandsFor s t (first :: next :: rest) (.shared ref)

/-! ## Full copies -/

namespace Store

section
variable {s t u : Store} {v w : Value} {n : Nat}

/-- New cells refer to new cells only; so they do after one more copy. -/
theorem sound_copy (hs : s.Sound []) (hn : s.Sound (List.range n)) (hv : s.Holds [] v) :
    (s.copy v).1.Sound (List.range n) ∧ (s.copy v).1.Holds (List.range n) (s.copy v).2 := by
  have hc := carries_copy hs hv
  have hf : s.Frame (List.range n) (s.copy v).1 := .of_extends _ (s.extends_copy v)
  have hle : n ≤ s.size := by
    refine Nat.le_of_not_lt fun hlt => ?_
    exact Nat.lt_irrefl _ (hn.inside s.size (List.mem_range.2 hlt))
  have above : ∀ {y}, s.size ≤ y → y ∉ List.range n := by
    intro y hy hm
    have := List.mem_range.1 hm
    omega
  refine ⟨⟨fun y hy => Nat.lt_of_lt_of_le (hn.inside y hy) hf.size, ?_, ?_⟩, ?_⟩
  · exact fun y hy _ => hc.sound.shareable y hy List.not_mem_nil
  · intro y hy ha
    by_cases hlt : y < s.size
    · rw [hf.cell y hlt ha]
      exact hf.holds (hn.closed y hlt ha)
    · obtain ⟨i, rfl⟩ : ∃ i, y = s.size + i := ⟨y - s.size, by omega⟩
      have hi : i < (s.reachedBy v).length := by
        rw [size_copy] at hy
        omega
      intro x hx
      refine ⟨(hc.sound.closed _ hy List.not_mem_nil x hx).1, above ?_⟩
      rw [cell_copy s v hi] at hx
      obtain ⟨r, -, hr⟩ := (Value.mem_refs_bind _ _).1 hx
      simp only [newPlace, Value.refs, List.mem_singleton] at hr
      omega
  · exact fun x hx => ⟨(hc.holds x hx).1, above (s.le_of_mem_refs_copy v x hx)⟩

theorem reachedBy_subset (hs : s.Sound []) (hv : s.Holds [] v) (h : s.Extends t) :
    ∀ y ∈ s.reachedBy v, y ∈ t.reachedBy v := by
  have hf : s.Frame [] t := .of_extends [] h
  have lifted : ∀ {y}, y < s.size → y ∈ List.range t.size := fun hy =>
    List.mem_range.2 (Nat.lt_of_lt_of_le hy hf.size)
  have both : ∀ y ∈ s.reachedBy v, y < s.size ∧ y ∈ t.reachedBy v := by
    refine forall_mem_reached (fun x hx y hy => ?_) fun x hx => ?_
    · have hin := (hs.closed x hx.1 List.not_mem_nil y hy).1
      refine ⟨hin, mem_reached_of_refs hx.2 ?_ (lifted hin)⟩
      rw [hf.cell x hx.1 List.not_mem_nil]
      exact hy
    · have hin := (hv x hx).1
      exact ⟨hin, mem_reached hx (lifted hin)⟩
  exact fun y hy => (both y hy).2

theorem fullCopy_intern_copy {s₀ : Store} (h0 : s₀.Sound []) (hext : s₀.Extends s)
    (hs : s.Sound []) (hn : s.Sound (List.range s₀.size)) (hv : s₀.Holds [] v) :
    s₀.FullCopy ((s.copy v).1.intern (s.copy v).2).1 v ((s.copy v).1.intern (s.copy v).2).2 := by
  have hframe : s₀.Frame [] s := .of_extends [] hext
  have hc := carries_copy hs (hframe.holds hv)
  have hi := carries_intern hc.sound _ hc.holds
  obtain ⟨hsn, hvn⟩ := sound_copy hs hn (hframe.holds hv)
  have hin := carries_intern hsn _ hvn
  refine ⟨(hframe.alike h0 hv).trans (hc.alike.trans hi.alike), fun y hy => ?_, ?_, ?_⟩
  · have hnew := ((reachedBy_region hin.sound hin.holds).1 y hy).2
    exact Nat.le_of_not_lt fun hlt => hnew (List.mem_range.2 hlt)
  · rintro rfl
    rfl
  · rintro p rfl
    have hold := reachedBy_subset h0 hv hext
    refine ⟨fun r => s.size + (s.reachedBy (.shared p)).idxOf r, rfl, fun y hy => ?_, ?_⟩
    · have hlt := List.idxOf_lt_length_of_mem (hold y hy)
      have hcell := cell_copy s (.shared p) hlt
      rw [List.getElem_idxOf hlt] at hcell
      refine ⟨Nat.le_trans hframe.size (Nat.le_add_right _ _), hcell.trans ?_⟩
      have hy := (reachedBy_region h0 hv).1 y hy
      rw [hframe.cell y hy.1 List.not_mem_nil]
      rfl
    · intro y hy z _ heq
      exact (List.idxOf_inj (hold y hy)).1 (Nat.add_left_cancel heq)

theorem FullCopy.later (h : s.FullCopy t v w) (hs : s.Sound []) (hv : s.Holds [] v)
    (ht : t.Sound (List.range s.size)) (hw : t.Holds (List.range s.size) w)
    (hf : t.Frame (List.range s.size) u) (hu : u.Sound (List.range s.size)) :
    s.FullCopy u v w := by
  refine ⟨h.alike.trans (hf.alike ht hw), fun y hy => ?_, h.null, fun p hp => ?_⟩
  · have hnew := ((reachedBy_region hu (hf.holds hw)).1 y hy).2
    exact Nat.le_of_not_lt fun hlt => hnew (List.mem_range.2 hlt)
  · obtain ⟨place, hplace, hcells, hinj⟩ := h.one_for_one p hp
    refine ⟨place, hplace, fun y hy => ?_, hinj⟩
    obtain ⟨hnew, hcell⟩ := hcells y hy
    have hshare := Value.isShareable_bind (f := fun r => .shared (place r))
      (hs.shareable y ((reachedBy_region hs hv).1 y hy).1 List.not_mem_nil)
    have hlt : place y < t.size := by
      refine lt_size_of_cell hcell fun hnull => ?_
      rw [hnull] at hshare
      cases hshare
    have hout : place y ∉ List.range s.size := fun hm => by
      have := List.mem_range.1 hm
      omega
    exact ⟨hnew, (hf.cell _ hlt hout).trans hcell⟩

end

end Store

/-! ## One run -/

section
variable {s t u : Store} {run : List Value} {out : Value}

theorem holds_itemProperties {aside : List Nat} (hs : s.Sound aside) (k : Kind) {v : Value}
    (hv : s.Holds aside v) : s.Holds aside (itemProperties s k v) := by
  unfold itemProperties
  cases hi : s.textItem? k v with
  | none => exact holds_null
  | some i => exact (holds_textItem? hs hv hi).2

theorem settle_toValue (s : Store) {k : Kind} (hk : k ≠ .accumulator) (p : Value) (text : String) :
    s.settle (TextItem.toValue k ⟨.null, .null, p, text⟩) =
      ((s.copy p).1.intern (s.copy p).2).1.push
        (.object k [.null, .null, ((s.copy p).1.intern (s.copy p).2).2, .text text]) := by
  have hrefs : (TextItem.toValue k ⟨.null, .null, p, text⟩).refs = p.refs := by
    simp [TextItem.toValue, Value.refs, Value.refsAll]
  have hreached : s.reachedBy (TextItem.toValue k ⟨.null, .null, p, text⟩) = s.reachedBy p := by
    unfold reachedBy
    rw [hrefs]
  have hcopy : s.copy (TextItem.toValue k ⟨.null, .null, p, text⟩) =
      ((s.copy p).1, .object k [.null, .null, (s.copy p).2, .text text]) := by
    unfold Store.copy
    rw [hreached]
    rfl
  show (s.copy (TextItem.toValue k ⟨.null, .null, p, text⟩)).1.intern
    (s.copy (TextItem.toValue k ⟨.null, .null, p, text⟩)).2 = _
  rw [hcopy]
  simp [intern, internAll, hk]

theorem StandsFor.later (h : StandsFor s t run out) (hs : s.Sound [])
    (hrun : ∀ v ∈ run, s.Holds [] v) (ht : t.Sound (List.range s.size))
    (hf : t.Frame (List.range s.size) u) (hu : u.Sound (List.range s.size)) :
    StandsFor s u run out := by
  cases h with
  | alone => exact .alone out
  | @merged k first next p rest ref hkind hnew hcell hcopy =>
    have hlt : ref < t.size := lt_size_of_cell hcell (by simp)
    have hout : ref ∉ List.range s.size := fun hm => by
      have := List.mem_range.1 hm
      omega
    have hparts := ht.closed ref hlt hout
    rw [hcell, holds_object] at hparts
    have hprops := holds_itemProperties hs k (hrun first (by simp))
    exact .merged hkind hnew ((hf.cell ref hlt hout).trans hcell)
      (hcopy.later hs hprops ht (hparts p (by simp)) hf hu)

/-- `t` has more cells than `s`, and these are sound on their own: they lead to no old cell. -/
structure Store.Widened (s t : Store) : Prop where
  grows : s.Extends t
  sound : t.Sound []
  apart : t.Sound (List.range s.size)

theorem Store.Widened.refl (hs : s.Sound []) : s.Widened s where
  grows := .refl s
  sound := hs
  apart := by
    have none : ∀ y, y < s.size → y ∉ List.range s.size → False := fun y hy ha =>
      ha (List.mem_range.2 hy)
    exact ⟨fun y hy => List.mem_range.1 hy, fun y hy ha => (none y hy ha).elim,
      fun y hy ha => (none y hy ha).elim⟩

/-- A merged item is settled: it is a new object, with a full copy of the properties. -/
theorem settle_merged (hs : s.Sound []) (ht : s.Widened t) {k : Kind} (hk : k ≠ .accumulator)
    {p : Value} (hp : s.Holds [] p) {text : String} {u : Store} {out : Value}
    (h : t.settle (TextItem.toValue k ⟨.null, .null, p, text⟩) = (u, out)) :
    s.Widened u ∧ ∃ ref q, out = .shared ref ∧ t.size ≤ ref ∧ ref < u.size ∧
      u.cell ref = .object k [.null, .null, q, .text text] ∧ s.FullCopy u p q := by
  have hframe : s.Frame [] t := .of_extends [] ht.grows
  have hcopy := fullCopy_intern_copy hs ht.grows ht.sound ht.apart hp
  have hc := carries_copy ht.sound (hframe.holds hp)
  have hi := carries_intern hc.sound _ hc.holds
  obtain ⟨hsn, hvn⟩ := sound_copy ht.sound ht.apart (hframe.holds hp)
  have hin := carries_intern hsn _ hvn
  rw [settle_toValue t hk] at h
  generalize (t.copy p).1.intern (t.copy p).2 = c at hcopy hi hin h
  obtain ⟨c, q⟩ := c
  simp only at hcopy hi hin h
  obtain ⟨rfl, rfl⟩ := Prod.mk.inj h
  have hobject : ∀ {aside}, c.Holds aside q →
      c.Holds aside (.object k [.null, .null, q, .text text]) := by
    intro aside hq
    simp [hq, holds_of_refs_nil (v := .text _) rfl]
  have hgrows : t.Extends c := hc.grows.trans hi.grows
  have hsound := hin.sound.push (hobject hin.holds) rfl
  have hpush := extends_push c (.object k [.null, .null, q, .text text])
  refine ⟨⟨ht.grows.trans (hgrows.trans hpush), hi.sound.push (hobject hi.holds) rfl, hsound⟩,
    c.size, q, rfl, (Frame.of_extends [] hgrows).size, ?_, cell_push_self c _, ?_⟩
  · show c.size < (c.push _).1.size
    rw [size_push]
    omega
  · exact hcopy.later hs hp hin.sound hin.holds (.of_extends _ hpush) hsound

/-- **One run** is settled: what stands for it is there, and it is new unless it is the item that
was alone. -/
theorem settle_standIn (hs : s.Sound []) (ht : s.Widened t) (hn : run ≠ [])
    (hrefs : ∀ v ∈ run, ∃ r, r < s.size ∧ v = .shared r)
    (hkind : (∃ v, run = [v]) ∨ ∃ k, ∀ v ∈ run, mergeKind? s v = some k) :
    StandsFor s (t.settle (standIn s run)).1 run (t.settle (standIn s run)).2 ∧
      s.Widened (t.settle (standIn s run)).1 ∧
      ((t.settle (standIn s run)).2 ∈ run ∨ ∃ ref, (t.settle (standIn s run)).2 = .shared ref ∧
        t.size ≤ ref ∧ ref < (t.settle (standIn s run)).1.size) := by
  match run, hn with
  | [v], _ =>
    obtain ⟨r, -, rfl⟩ := hrefs v (by simp)
    exact ⟨.alone _, ht, Or.inl (by simp [standIn, settle])⟩
  | first :: next :: rest, _ =>
    obtain ⟨k, hk⟩ : ∃ k, ∀ v ∈ first :: next :: rest, mergeKind? s v = some k := by
      rcases hkind with ⟨v, hv⟩ | hk
      · cases hv
      · exact hk
    have hfirst := hk first (by simp)
    have hna : k ≠ .accumulator := by
      rcases mergeKind?_cases hfirst with rfl | rfl <;> simp
    have hheld : s.Holds [] (itemProperties s k first) := by
      obtain ⟨r, hr, rfl⟩ := hrefs first (by simp)
      exact holds_itemProperties hs k (holds_shared.2 ⟨hr, List.not_mem_nil⟩)
    have hstand : standIn s (first :: next :: rest) = TextItem.toValue k
        ⟨.null, .null, itemProperties s k first,
          String.join ((first :: next :: rest).map (itemText s k))⟩ := by
      simp only [standIn, hfirst, Option.getD_some]
      rfl
    rw [hstand]
    generalize hsettle : t.settle (TextItem.toValue k ⟨.null, .null, itemProperties s k first,
      String.join ((first :: next :: rest).map (itemText s k))⟩) = settled
    obtain ⟨u, out⟩ := settled
    obtain ⟨hwide, ref, q, rfl, hnew, hlt, hcell, hcopy⟩ := settle_merged hs ht hna hheld hsettle
    have hold : s.size ≤ t.size := (Frame.of_extends [] ht.grows).size
    refine ⟨.merged hfirst (Nat.le_trans hold hnew) hcell hcopy, hwide, Or.inr ?_⟩
    exact ⟨ref, rfl, hnew, hlt⟩

/-! ## All runs -/

/-- Runs of references to cells of the store, each of them one item or of one kind. -/
def Store.AllRuns (s : Store) (cut : List (List Value)) : Prop :=
  ∀ run ∈ cut, run ≠ [] ∧ (∀ v ∈ run, ∃ r, r < s.size ∧ v = .shared r) ∧
    ((∃ v, run = [v]) ∨ ∃ k, ∀ v ∈ run, mergeKind? s v = some k)

theorem holds_of_refs {r : Nat} {v : Value} (h : r < s.size ∧ v = .shared r) : s.Holds [] v := by
  rw [h.2]
  exact holds_shared.2 ⟨h.1, List.not_mem_nil⟩

/-- **All runs** are settled, one after the other. What is new among the items is newer than the
store it was put into, so no new item stands in two places. -/
theorem settleAll_standIns (hs : s.Sound []) {cut : List (List Value)} (ht : s.Widened t)
    (hcut : s.AllRuns cut) :
    List.Forall₂ (StandsFor s (t.settleAll (cut.map (standIn s))).1) cut
        (t.settleAll (cut.map (standIn s))).2 ∧
      s.Widened (t.settleAll (cut.map (standIn s))).1 ∧
      (∀ out ∈ (t.settleAll (cut.map (standIn s))).2, s.Holds [] out ∨
        ∃ ref, out = .shared ref ∧ t.size ≤ ref) ∧
      (t.settleAll (cut.map (standIn s))).2.Pairwise fun v w => v = w → s.Holds [] v := by
  induction cut generalizing t with
  | nil => exact ⟨.nil, ht, by simp [settleAll], List.Pairwise.nil⟩
  | cons run rest ih =>
    obtain ⟨⟨hn, hrefs, hkind⟩, hrest⟩ := List.forall_mem_cons.1 hcut
    obtain ⟨hstand, hwide, hplace⟩ := settle_standIn hs ht hn hrefs hkind
    obtain ⟨hall, hlast, hnewer, hpairs⟩ := ih hwide hrest
    have hext : (t.settle (standIn s run)).1.Extends _ :=
      extends_settleAll (t.settle (standIn s run)).1 (rest.map (standIn s))
    have hold : ∀ v ∈ run, s.Holds [] v := fun v hv =>
      (hrefs v hv).elim fun r hr => holds_of_refs hr
    have hgrow : t.size ≤ (t.settle (standIn s run)).1.size :=
      (Frame.of_extends [] (t.extends_settle (standIn s run))).size
    simp only [List.map_cons, settleAll]
    refine ⟨.cons ?_ hall, hlast, List.forall_mem_cons.2 ⟨?_, fun out hout => ?_⟩,
      List.pairwise_cons.2 ⟨fun out hout heq => ?_, hpairs⟩⟩
    · exact hstand.later hs hold hwide.apart (.of_extends _ hext) hlast.apart
    · rcases hplace with hm | ⟨ref, hr, hle, -⟩
      · exact Or.inl (hold _ hm)
      · exact Or.inr ⟨ref, hr, hle⟩
    · rcases hnewer out hout with ho | ⟨ref, hr, hle⟩
      · exact Or.inl ho
      · exact Or.inr ⟨ref, hr, Nat.le_trans hgrow hle⟩
    · rcases hplace with hm | ⟨ref, hr, -, hlt⟩
      · exact hold _ hm
      · rcases hnewer out hout with ho | ⟨ref', hr', hle⟩
        · rw [heq]
          exact ho
        · rw [hr, hr', Value.shared.injEq] at heq
          omega

end

/-! ## In place -/

section
variable {s : Store} {x : Nat} {refs : List Nat}

theorem allRuns_runs (hf : ∀ r ∈ refs, s.formed .content (.shared r) = true) :
    s.AllRuns (runs s (refs.map .shared)) := by
  have h := maximalRuns_runs s (refs.map .shared)
  intro run hr
  refine ⟨h.nonempty run hr, fun v hv => ?_, h.one_kind run hr⟩
  have hm : v ∈ refs.map Value.shared := by
    rw [← h.flatten]
    exact List.mem_flatten_of_mem hr hv
  obtain ⟨r, hr, rfl⟩ := List.mem_map.1 hm
  obtain ⟨l, fields, hc, -⟩ := formed_iff.1 (hf r hr)
  exact ⟨r, lt_size_of_cell hc (by simp), rfl⟩

theorem coalesce_eq_runs (hf : ∀ r ∈ refs, s.formed .content (.shared r) = true) :
    coalesce s (refs.map .shared) =
      .done ((runs s (refs.map .shared)).map (standIn s)) := by
  have hitems : ∀ v ∈ refs.map Value.shared, s.formed .content v = true := by
    simpa using hf
  rw [coalesce_eq_joined (fun v hv => mergeable_of_formed (hitems v hv))
    (fun v hv => ne_null_of_formed (hitems v hv)), joined_eq_runs]

theorem coalesceList_standsFor (hs : s.Sound []) (hx : s.cell x = .list (refs.map .shared))
    (hf : ∀ r ∈ refs, s.formed .content (.shared r) = true) :
    ∃ t outs, s.coalesceList (.shared x) = .done t ∧ t.cell x = .list outs ∧
      List.Forall₂ (StandsFor s t) (runs s (refs.map .shared)) outs ∧
      (outs.Pairwise fun v w => v = w → s.Holds [] v) ∧
      ∀ y, y < s.size → y ≠ x → t.cell y = s.cell y := by
  have hlt : x < s.size := lt_size_of_cell hx (by simp)
  have hall := allRuns_runs hf
  obtain ⟨hstand, hwide, -, hpairs⟩ := settleAll_standIns hs (.refl hs) hall
  have hlist : s.coalesceList (.shared x) = .done
      ((s.settleAll ((runs s (refs.map .shared)).map (standIn s))).1.write (.shared x)
        (.list (s.settleAll ((runs s (refs.map .shared)).map (standIn s))).2)) := by
    have hhead : s.head (.shared x) = .list (refs.map .shared) := hx
    simp only [coalesceList, hhead, coalesce_eq_runs hf]
    rfl
  generalize s.settleAll ((runs s (refs.map .shared)).map (standIn s)) = settled at *
  obtain ⟨t, outs⟩ := settled
  simp only at hstand hwide hpairs hlist
  have hsize : s.size ≤ t.size := (Frame.of_extends [] hwide.grows).size
  have hin : x ∈ List.range s.size := List.mem_range.2 hlt
  refine ⟨_, outs, hlist, t.cell_write_self (Nat.lt_of_lt_of_le hlt hsize), ?_, hpairs,
    fun y hy hne => ?_⟩
  · rw [List.forall₂_iff_get] at hstand ⊢
    refine ⟨hstand.1, fun i hi ho => ?_⟩
    have hrun := hall _ (List.get_mem _ ⟨i, hi⟩)
    refine (hstand.2 i hi ho).later hs (fun v hv => ?_) hwide.apart (.of_write hin _)
      (hwide.apart.write hin _)
    exact (hrun.2.1 v hv).elim fun r hr => holds_of_refs hr
  · rw [t.cell_write_of_ne fun h => hne (Value.shared.inj h).symm]
    exact hwide.grows.cell hy

/-- **Coalescing in place.** There is one way to cut the items of a list into maximal runs. What
stands in the list afterwards stands for these runs, one by one and in their order. A new item
stands in one place only, and no cell changes but that of the list: the items that were there are as
they were. -/
theorem coalesceList_runs (hs : s.Sound []) (hx : s.cell x = .list (refs.map .shared))
    (hf : ∀ r ∈ refs, s.formed .content (.shared r) = true) :
    ∃ cut t outs, (∀ other, MaximalRuns s (refs.map .shared) other ↔ other = cut) ∧
      s.coalesceList (.shared x) = .done t ∧ t.cell x = .list outs ∧
      List.Forall₂ (StandsFor s t) cut outs ∧
      (outs.Pairwise fun v w => v = w → s.Holds [] v) ∧
      ∀ y, y < s.size → y ≠ x → t.cell y = s.cell y := by
  obtain ⟨t, outs, hlist, hcell, hstand, hpairs, hframe⟩ := coalesceList_standsFor hs hx hf
  have hunique : ∀ other, MaximalRuns s (refs.map .shared) other ↔
      other = runs s (refs.map .shared) := fun other => maximalRuns_iff
  exact ⟨_, t, outs, hunique, hlist, hcell, hstand, hpairs, hframe⟩

end

/-- A list in cell 18: two texts, the first of them with properties, an annotated text, and two
pieces of reasoning, the first of them with an empty list of annotations. -/
def blended : Store :=
  (Store.empty.intern (.list
    [.object .text [.null, .null, .map [(.text "mood", .list [.text "calm"])], .text "It is "],
      plainText "open",
      .object .text [.list [.object .note [.null, .null, .null]], .null, .null, .text "[1]"],
      .object .reasoning [.list [], .null, .null, .text "Ask "],
      .object .reasoning [.null, .null, .null, .text "why."]])).1

theorem coalesceList_runs_blended :
    ∃ cut t outs,
      (∀ other, MaximalRuns blended ([10, 11, 14, 16, 17].map .shared) other ↔ other = cut) ∧
      blended.coalesceList (.shared 18) = .done t ∧ t.cell 18 = .list outs ∧
      List.Forall₂ (StandsFor blended t) cut outs ∧
      (outs.Pairwise fun v w => v = w → blended.Holds [] v) ∧
      ∀ y, y < blended.size → y ≠ 18 → t.cell y = blended.cell y :=
  coalesceList_runs (by decide) rfl (by decide)

/-- Three items are left of five. -/
example : ((blended.coalesceList (.shared 18)).result.items (.shared 18)).length = 3 := by
  decide +kernel

end Reassembly
