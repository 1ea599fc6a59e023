import Reassembly.Proofs.Bench
import Reassembly.Proofs.Merging
import Reassembly.Proofs.Rechunk

/-!
# Coalescing in pieces

A list of the store may be coalesced before another one is put behind it, and the other one may be
coalesced as well: once the two are coalesced together, they say what they would say if nothing had
been coalesced before. And a list that has been coalesced has no two neighbours that merge with each
other, so coalescing it again changes nothing in the store.

* `Store.coalescedList`: a new list of some items, coalesced.
* `coalescedList_alike`: what stands in it says what the items say, put together one by one.
* `mergeKind?_of_standsFor`: a new item merges with its neighbours as the run did that it stands
  for.
* `coalesceList_again`: coalescing a list for the second time.
* `coalescing_in_pieces`: **both**, for all lists of content items of a store.
-/
namespace Reassembly

open Store

/-- A new list of the items, coalesced: the store after that, and what stands in the list. -/
def Store.coalescedList (s : Store) (items : List Value) : Attempt (Store × List Value) :=
  let (t, list) := s.intern (.list items)
  (t.coalesceList list).map fun t => (t, t.items list)

/-! ## A new list -/

section
variable {s t : Store} {refs : List Nat}

theorem internAll_refs (s : Store) (refs : List Nat) :
    s.internAll (refs.map .shared) = (s, refs.map .shared) := by
  induction refs with
  | nil => rfl
  | cons r refs ih => simp only [List.map_cons, internAll, intern, ih]

theorem settleAll_refs (s : Store) (refs : List Nat) :
    s.settleAll (refs.map .shared) = (s, refs.map .shared) := by
  induction refs with
  | nil => rfl
  | cons r refs ih => simp only [List.map_cons, settleAll, settle, ih]

theorem settle_of_formed {k : Kind} {v : Value} (h : s.formed k v = true) (t : Store) :
    ∃ r, (t.settle v).2 = .shared r := by
  obtain ⟨l, fields, hv, -⟩ := formed_iff.1 h
  cases v with
  | shared r => exact ⟨r, rfl⟩
  | object l fields =>
    have hpush : ∀ (u : Store) (w : Value), ∃ r, (u.push w).2 = .shared r := fun u w => ⟨_, rfl⟩
    show ∃ r, ((t.copy (.object l fields)).1.intern (t.copy (.object l fields)).2).2 = .shared r
    simp only [Store.copy, Value.bind, intern]
    exact hpush _ _
  | _ => cases hv

theorem settleAll_of_formed {k : Kind} {vs : List Value} (h : ∀ v ∈ vs, s.formed k v = true)
    (t : Store) : ∃ refs : List Nat, (t.settleAll vs).2 = refs.map .shared := by
  induction vs generalizing t with
  | nil => exact ⟨[], rfl⟩
  | cons v vs ih =>
    obtain ⟨hv, hvs⟩ := List.forall_mem_cons.1 h
    obtain ⟨r, hr⟩ := settle_of_formed hv t
    obtain ⟨rs, hrs⟩ := ih hvs (t.settle v).1
    exact ⟨r :: rs, by simp only [settleAll, hr, hrs, List.map_cons]⟩

theorem holds_of_formed_ref {r : Nat} (h : s.formed .content (.shared r) = true) :
    s.Holds [] (.shared r) := by
  obtain ⟨l, fields, hc, -⟩ := formed_iff.1 h
  exact holds_shared.2 ⟨lt_size_of_cell hc (by simp), List.not_mem_nil⟩

theorem formed_refs (h : ∀ r ∈ refs, s.formed .content (.shared r) = true) :
    ∀ v ∈ refs.map Value.shared, s.formed .content v = true := by
  simpa using h

theorem holds_refs (h : ∀ r ∈ refs, s.formed .content (.shared r) = true) :
    ∀ v ∈ refs.map Value.shared, s.Holds [] v := by
  simpa using fun r hr => holds_shared.1 (holds_of_formed_ref (h r hr))

theorem formed_of_extends (hs : s.Sound []) (ht : t.Sound []) (h : s.Extends t) {v : Value}
    (hv : s.Holds [] v) (hf : s.formed .content v = true) : t.formed .content v = true := by
  have frame : s.Frame [] t := .of_extends [] h
  exact formed_of_alikeIn hs ht hv (frame.holds hv) (frame.alike hs hv) hf

theorem AlikeItems.later (hs : s.Sound []) (ht : t.Sound []) (h : s.Extends t) {v w : Value}
    (hv : s.Holds [] v) (hw : s.Holds [] w) (hvw : AlikeItems s v w) : AlikeItems t v w := by
  have frame : s.Frame [] t := .of_extends [] h
  refine ⟨?_, formed_of_extends hs ht h hv hvw.formed_left,
    formed_of_extends hs ht h hw hvw.formed_right⟩
  exact ((frame.alike hs hv).symm.trans hvw.alike).trans (frame.alike hs hw)

theorem forall₂_alikeItems_later (hs : s.Sound []) (ht : t.Sound []) (h : s.Extends t)
    {vs ws : List Value} (hv : ∀ v ∈ vs, s.Holds [] v) (hw : ∀ w ∈ ws, s.Holds [] w)
    (hvw : List.Forall₂ (AlikeItems s) vs ws) : List.Forall₂ (AlikeItems t) vs ws := by
  rw [List.forall₂_iff_get] at hvw ⊢
  refine ⟨hvw.1, fun i hi hj => (hvw.2 i hi hj).later hs ht h ?_ ?_⟩
  · exact hv _ (List.get_mem vs ⟨i, hi⟩)
  · exact hw _ (List.get_mem ws ⟨i, hj⟩)

/-- **A list that nothing leads to**, coalesced in place, says what its items say, put together one
by one. -/
theorem coalesceList_alike {x : Nat} (hs : s.Sound [x]) (hx : s.cell x = .list (refs.map .shared))
    (hf : ∀ r ∈ refs, s.formed .content (.shared r) = true)
    (hheld : ∀ v ∈ refs.map Value.shared, s.Holds [x] v) :
    ∃ (t : Store) (outs : List Nat), s.coalesceList (.shared x) = .done t ∧
      t.cell x = .list (outs.map .shared) ∧ s.Frame [x] t ∧ t.Sound [x] ∧
      (∀ v ∈ outs.map Value.shared, t.Holds [x] v) ∧
      List.Forall₂ (AlikeItems t) (joined s (refs.map .shared)) (outs.map .shared) := by
  have hitems := formed_refs hf
  have hjoined := formed_joined hitems
  have hin := holds_joined hs hheld
  have hcoalesce := coalesce_eq_joined (fun v hv => mergeable_of_formed (hitems v hv))
    (fun v hv => ne_null_of_formed (hitems v hv))
  have hcarry := carries_settleAll hs hin
  obtain ⟨outs, houts⟩ := settleAll_of_formed hjoined s
  have hlist : s.coalesceList (.shared x) = .done ((s.settleAll (joined s
      (refs.map .shared))).1.write (.shared x) (.list (outs.map .shared))) := by
    have hhead : s.head (.shared x) = .list (refs.map .shared) := hx
    simp only [coalesceList, hhead, hcoalesce]
    rw [← houts]
    rfl
  rw [houts] at hcarry
  generalize (s.settleAll (joined s (refs.map .shared))).1 = u at hcarry hlist
  have hlt : x < u.size := Nat.lt_of_lt_of_le (lt_size_of_cell hx (by simp)) hcarry.frame.size
  have hwritten : u.Frame [x] (u.write (.shared x) (.list (outs.map .shared))) :=
    .of_write List.mem_cons_self _
  have hframe := hcarry.frame.trans hwritten
  have hsound := hcarry.sound.write List.mem_cons_self (.list (outs.map .shared))
  have hout := holds_list.1 hcarry.holds
  refine ⟨_, outs, hlist, u.cell_write_self hlt, hframe, hsound,
    fun v hv => hwritten.holds (hout v hv), ?_⟩
  obtain ⟨others, hothers, halike⟩ := hcarry.alike.list rfl
  cases hothers
  rw [List.forall₂_iff_get] at halike ⊢
  refine ⟨halike.1, fun i hi hj => ?_⟩
  have hvw := halike.2 i hi hj
  generalize hv : (joined s (refs.map .shared)).get ⟨i, hi⟩ = v at hvw ⊢
  generalize hw : (outs.map Value.shared).get ⟨i, hj⟩ = w at hvw ⊢
  have hvh := hin v (hv ▸ List.get_mem _ _)
  have hwh := hout w (hw ▸ List.get_mem _ _)
  have hvf := hjoined v (hv ▸ List.get_mem _ _)
  have hold := hframe.alike hs hvh
  have hnew := hwritten.alike hcarry.sound hwh
  exact ⟨(hold.symm.trans hvw).trans hnew,
    formed_of_alikeIn hs hsound hvh (hframe.holds hvh) hold hvf,
    formed_of_alikeIn hs hsound hvh (hwritten.holds hwh) (hvw.trans hnew) hvf⟩

theorem coalescedList_alike (hs : s.Sound [])
    (hf : ∀ r ∈ refs, s.formed .content (.shared r) = true) :
    ∃ (t : Store) (outs : List Nat),
      s.coalescedList (refs.map .shared) = .done (t, outs.map .shared) ∧ s.Extends t ∧
        t.Sound [] ∧ (∀ v ∈ outs.map Value.shared, t.Holds [] v) ∧
        List.Forall₂ (AlikeItems t) (joined s (refs.map .shared)) (outs.map .shared) := by
  have hitems := formed_refs hf
  have hheld := holds_refs hf
  -- the list is the last cell of `u`, and nothing leads to it
  have hlater := hs.push_aside (.list (refs.map .shared))
  have hx := cell_push_self s (.list (refs.map .shared))
  have hgrows := extends_push s (.list (refs.map .shared))
  have hintern : s.intern (.list (refs.map .shared)) =
      ((s.push (.list (refs.map .shared))).1, .shared s.size) := by
    simp only [intern, internAll_refs]
    rfl
  unfold coalescedList
  rw [hintern]
  generalize (s.push (.list (refs.map .shared))).1 = u at hlater hx hgrows
  have hu : ∀ r ∈ refs, u.formed .content (.shared r) = true := fun r hr =>
    have hv := holds_of_formed_ref (hf r hr)
    formed_of_alikeIn hs hlater.sound hv (hlater.holds hv) (hlater.frame.alike hs hv) (hf r hr)
  obtain ⟨t, outs, hlist, hcell, hframe, hsound, hout, halike⟩ :=
    coalesceList_alike hlater.sound hx hu fun v hv => hlater.holds (hheld v hv)
  have hall : ∀ v ∈ outs.map Value.shared, t.Holds [] v := fun v hv => (hout v hv).all
  have hold : s.Frame [] t := by
    refine ⟨Nat.le_trans hlater.frame.size hframe.size, fun y hy _ => ?_⟩
    rw [hframe.cell y (Nat.lt_of_lt_of_le hy hlater.frame.size), hgrows.cell hy]
    simpa using Nat.ne_of_lt hy
  rw [hlater.frame.joined hs hheld] at halike
  refine ⟨t, outs, ?_, hold.to_extends, hsound.all fun y hy => ?_, hall, halike⟩
  · have hitems : t.items (.shared s.size) = outs.map .shared := by
      simp only [items, show t.head (.shared s.size) = .list (outs.map .shared) from hcell]
    show (u.coalesceList (.shared s.size)).map _ = _
    rw [hlist]
    simp only [Attempt.map, Attempt.done, hitems]
  · have hy : y = s.size := by simpa using hy
    rw [hy, hcell]
    exact ⟨rfl, holds_list.2 hall⟩

/-! ## In pieces -/

theorem coalescedList_alike_later (hs : s.Sound [])
    (hf : ∀ r ∈ refs, s.formed .content (.shared r) = true) :
    ∃ (t : Store) (outs : List Nat),
      s.coalescedList (refs.map .shared) = .done (t, outs.map .shared) ∧ s.Extends t ∧
        t.Sound [] ∧ (∀ r ∈ outs, t.formed .content (.shared r) = true) ∧
        ∀ u : Store, u.Sound [] → t.Extends u →
          List.Forall₂ (AlikeItems u) (joined u (refs.map .shared)) (outs.map .shared) := by
  obtain ⟨t, outs, hlist, hext, ht, hout, halike⟩ := coalescedList_alike hs hf
  have hheld := holds_refs hf
  refine ⟨t, outs, hlist, hext, ht, fun r hr => ?_, fun u hu h => ?_⟩
  · obtain ⟨v, -, hv⟩ := exists_mem_of_forall₂ halike (List.mem_map_of_mem (f := Value.shared) hr)
    exact hv.formed_right
  · have hsame : joined u (refs.map .shared) = joined s (refs.map .shared) :=
      (Frame.of_extends [] (hext.trans h)).joined hs hheld
    rw [hsame]
    refine forall₂_alikeItems_later ht hu h (fun v hv => ?_) hout halike
    exact (Frame.of_extends [] hext).holds (holds_joined hs hheld v hv)

/-- **In pieces.** Two lists are coalesced, put behind each other and coalesced together; that says
what coalescing all at once says. -/
theorem coalescedList_append {xs ys : List Nat} (hs : s.Sound [])
    (hxs : ∀ r ∈ xs, s.formed .content (.shared r) = true)
    (hys : ∀ r ∈ ys, s.formed .content (.shared r) = true) :
    ∃ t₁ as t₂ bs t₃ cs t₄ ds,
      s.coalescedList (xs.map .shared) = .done (t₁, as) ∧
      t₁.coalescedList (ys.map .shared) = .done (t₂, bs) ∧
      t₂.coalescedList (as ++ bs) = .done (t₃, cs) ∧
      t₃.coalescedList (xs.map .shared ++ ys.map .shared) = .done (t₄, ds) ∧
      List.Forall₂ t₄.Alike cs ds := by
  have lift : ∀ {u w : Store} {refs : List Nat}, u.Sound [] → w.Sound [] → u.Extends w →
      (∀ r ∈ refs, u.formed .content (.shared r) = true) →
      ∀ r ∈ refs, w.formed .content (.shared r) = true := fun hu hw hext hf r hr =>
    formed_of_extends hu hw hext (holds_of_formed_ref (hf r hr)) (hf r hr)
  obtain ⟨t₁, as, h1, e1, s1, has, alike1⟩ := coalescedList_alike_later hs hxs
  obtain ⟨t₂, bs, h2, e2, s2, hbs, alike2⟩ := coalescedList_alike_later s1 (lift hs s1 e1 hys)
  obtain ⟨t₃, cs, h3, e3, s3, -, alike3⟩ := coalescedList_alike_later s2
    (List.forall_mem_append.2 ⟨lift s1 s2 e2 has, hbs⟩)
  obtain ⟨t₄, ds, h4, e4, s4, -, alike4⟩ := coalescedList_alike_later s3
    (lift hs s3 ((e1.trans e2).trans e3) (List.forall_mem_append.2 ⟨hxs, hys⟩))
  -- everything is compared in the last store
  have pieceX := alike1 t₄ s4 ((e2.trans e3).trans e4)
  have pieceY := alike2 t₄ s4 (e3.trans e4)
  have pieces := alike3 t₄ s4 e4
  have atOnce := alike4 t₄ s4 (.refl t₄)
  rw [List.map_append] at h3 h4 pieces atOnce
  refine ⟨t₁, _, t₂, _, t₃, _, t₄, _, h1, h2, h3, h4, ?_⟩
  have law : joined t₄ (joined t₄ (xs.map .shared) ++ joined t₄ (ys.map .shared)) =
      joined t₄ (xs.map .shared ++ ys.map .shared) := by
    rw [joined_joined_append, joined_append, joined_joined, ← joined_append]
  have joint := alike_joined (List.rel_append pieceX pieceY)
  rw [law] at joint
  have reading : ∀ {vs ws : List Value}, List.Forall₂ (AlikeItems t₄) vs ws →
      ∀ depth, vs.map (t₄.layers depth) = ws.map (t₄.layers depth) := fun h =>
    forall₂_alikeIn_iff.1 (h.imp fun _ _ hvw => hvw.alike)
  refine forall₂_alikeIn_iff.2 fun depth => ?_
  calc (cs.map Value.shared).map (t₄.layers depth)
      = (joined t₄ (as.map .shared ++ bs.map .shared)).map (t₄.layers depth) :=
        (reading pieces depth).symm
    _ = (joined t₄ (xs.map .shared ++ ys.map .shared)).map (t₄.layers depth) :=
        (reading joint depth).symm
    _ = (ds.map Value.shared).map (t₄.layers depth) := reading atOnce depth

/-! ## For the second time -/

theorem Store.write_cell {x : Nat} (h : x < s.size) : s.write (.shared x) (s.cell x) = s := by
  have h : x < s.cells.length := h
  simp [write, cell, h]

theorem formed_of_mem_runs (hf : ∀ r ∈ refs, s.formed .content (.shared r) = true) :
    ∀ run ∈ runs s (refs.map .shared), ∀ v ∈ run, ∃ r, v = .shared r ∧
      s.formed .content (.shared r) = true := by
  intro run hrun v hv
  have hm : v ∈ refs.map Value.shared := by
    rw [← (maximalRuns_runs s (refs.map .shared)).flatten]
    exact List.mem_flatten_of_mem hrun hv
  obtain ⟨r, hr, rfl⟩ := List.mem_map.1 hm
  exact ⟨r, rfl, hf r hr⟩

theorem StandsFor.ref {run : List Value} {out : Value} (h : StandsFor s t run out)
    (hrun : ∀ v ∈ run, ∃ r, v = .shared r) : ∃ r, out = .shared r := by
  cases h with
  | alone => exact hrun out (by simp)
  | merged => exact ⟨_, rfl⟩

/-- What stands in a list may be annotated with the list itself; whether that is empty stays as it
was. -/
theorem mergeKind?_of_standsFor {x : Nat} {outs : List Value} (hs : s.Sound [])
    (hx : s.cell x = .list (refs.map .shared)) (hcell : t.cell x = .list outs)
    (hempty : outs = [] ↔ refs = []) (hframe : ∀ y, y < s.size → y ≠ x → t.cell y = s.cell y)
    {run : List Value} {out : Value} (h : StandsFor s t run out)
    (hrun : ∀ v ∈ run, ∃ r, v = .shared r ∧ s.formed .content (.shared r) = true)
    (hkind : (∃ v, run = [v]) ∨ ∃ k, ∀ v ∈ run, mergeKind? s v = some k) :
    mergeKind? t out = mergeKind? s (standIn s run) := by
  have hitems : ∀ {a}, s.Holds [] a → (t.items a = [] ↔ s.items a = []) := by
    intro a ha
    cases a with
    | shared y =>
      by_cases hyx : y = x
      · subst hyx
        simp only [items, head, hx, hcell, List.map_eq_nil_iff]
        exact hempty
      · simp only [items, head, hframe y (holds_shared.1 ha).1 hyx]
    | _ => rfl
  cases h with
  | alone =>
    obtain ⟨r, rfl, hf⟩ := hrun out (by simp)
    obtain ⟨l, fields, hr, -⟩ := formed_iff.1 hf
    have hr : s.cell r = .object l fields := hr
    have hlt : r < s.size := lt_size_of_cell hr (by simp)
    have hrx : r ≠ x := by
      rintro rfl
      rw [hx] at hr
      cases hr
    have htext : ∀ k, t.textItem? k (.shared r) = s.textItem? k (.shared r) := by
      intro k
      simp only [textItem?, head, hframe r hlt hrx]
    refine Option.ext fun k => ?_
    show mergeKind? t (.shared r) = some k ↔ mergeKind? s (.shared r) = some k
    rw [mergeKind?_eq_some_iff, mergeKind?_eq_some_iff, htext]
    refine and_congr_right fun _ => exists_congr fun item => and_congr_right fun hi => ?_
    exact hitems (holds_textItem? hs (holds_shared.2 ⟨hlt, List.not_mem_nil⟩) hi).1
  | @merged k first next p rest ref kind _ cell _ =>
    have hall : ∀ v ∈ first :: next :: rest, mergeKind? s v = some k := by
      rcases hkind with ⟨v, hv⟩ | ⟨l, hl⟩
      · cases hv
      · have hfirst := hl first (by simp)
        rw [kind] at hfirst
        cases hfirst
        exact hl
    rw [mergeKind?_standIn (by simp) hall, mergeKind?_eq_some_iff]
    have htext : t.textItem? k (.shared ref) = some ⟨.null, .null, p,
        String.join ((first :: next :: rest).map (itemText s k))⟩ := by
      simp only [textItem?, head, cell, if_true]
    exact ⟨mergeKind?_cases kind, _, htext, rfl⟩

theorem exists_refs_of_standsFor {cut : List (List Value)} {outs : List Value}
    (h : List.Forall₂ (StandsFor s t) cut outs)
    (hcut : ∀ run ∈ cut, ∀ v ∈ run, ∃ r, v = .shared r) :
    ∃ later : List Nat, outs = later.map .shared := by
  induction h with
  | nil => exact ⟨[], rfl⟩
  | cons hrun _ ih =>
    obtain ⟨hm, hms⟩ := List.forall_mem_cons.1 hcut
    obtain ⟨later, rfl⟩ := ih hms
    obtain ⟨r, rfl⟩ := hrun.ref hm
    exact ⟨r :: later, rfl⟩

theorem map_mergeKind?_of_standsFor {x : Nat} {outs : List Value} (hs : s.Sound [])
    (hx : s.cell x = .list (refs.map .shared)) (hcell : t.cell x = .list outs)
    (hframe : ∀ y, y < s.size → y ≠ x → t.cell y = s.cell y)
    (hf : ∀ r ∈ refs, s.formed .content (.shared r) = true)
    (h : List.Forall₂ (StandsFor s t) (runs s (refs.map .shared)) outs) :
    outs.map (mergeKind? t) = (joined s (refs.map .shared)).map (mergeKind? s) := by
  have hmax := maximalRuns_runs s (refs.map .shared)
  have hempty : outs = [] ↔ refs = [] := by
    have hcut : outs = [] ↔ runs s (refs.map .shared) = [] := by
      rw [← List.length_eq_zero_iff, ← h.length_eq, List.length_eq_zero_iff]
    rw [hcut]
    constructor
    · intro hnil
      simpa [hnil] using hmax.flatten
    · rintro rfl
      rfl
  have hmarked := (List.forall₂_and_left _ _).2 ⟨fun run hrun => hrun, h⟩
  have hequal : List.Forall₂ (· = ·)
      (((runs s (refs.map .shared)).map (standIn s)).map (mergeKind? s))
      (outs.map (mergeKind? t)) := by
    rw [List.forall₂_map_left_iff, List.forall₂_map_left_iff, List.forall₂_map_right_iff]
    refine hmarked.imp fun run out hout => ?_
    exact (mergeKind?_of_standsFor hs hx hcell hempty hframe hout.2
      (formed_of_mem_runs hf run hout.1) (hmax.one_kind run hout.1)).symm
  rw [List.forall₂_eq_eq_eq] at hequal
  rw [joined_eq_runs, hequal]

/-- **A second time** coalescing a list changes nothing in the store. -/
theorem coalesceList_again {x : Nat} (hs : s.Sound [])
    (hx : s.cell x = .list (refs.map .shared))
    (hf : ∀ r ∈ refs, s.formed .content (.shared r) = true) :
    ∃ t, s.coalesceList (.shared x) = .done t ∧ t.coalesceList (.shared x) = .done t := by
  obtain ⟨t, outs, hfirst, hcell, hstand, -, hframe⟩ := coalesceList_standsFor hs hx hf
  refine ⟨t, hfirst, ?_⟩
  -- the items merge with each other as those did that they stand for, which is not at all
  have hkinds := map_mergeKind?_of_standsFor hs hx hcell hframe hf hstand
  have hchain : outs.IsChain fun v w => together t v w = false := by
    have hapart : ((joined s (refs.map .shared)).map (mergeKind? s)).IsChain fun a b =>
        (a.isSome && decide (a = b)) = false :=
      (List.isChain_map _).2 (isChain_joined s (refs.map .shared))
    rw [← hkinds] at hapart
    exact (List.isChain_map _).1 hapart
  obtain ⟨later, rfl⟩ := exists_refs_of_standsFor hstand fun run hrun v hv =>
    (formed_of_mem_runs hf run hrun v hv).imp fun _ h => h.1
  have hitems := coalesce_of_apart hchain (by simp)
  have hhead : t.head (.shared x) = .list (later.map .shared) := hcell
  have hlt : x < t.size := lt_size_of_cell hcell (by simp)
  have hsame : t.write (.shared x) (.list (later.map .shared)) = t := by
    rw [← hcell]
    exact write_cell hlt
  simp only [coalesceList, hhead, hitems, Attempt.map, Attempt.done, settleAll_refs, hsame]

/-- **Coalescing in pieces** and all at once gives lists that say the same, and coalescing a list
again changes nothing: every item stays the same object in the same place. -/
theorem coalescing_in_pieces (hs : s.Sound []) :
    (∀ xs ys : List Nat, (∀ r ∈ xs, s.formed .content (.shared r) = true) →
      (∀ r ∈ ys, s.formed .content (.shared r) = true) →
      ∃ t₁ as t₂ bs t₃ cs t₄ ds,
        s.coalescedList (xs.map .shared) = .done (t₁, as) ∧
        t₁.coalescedList (ys.map .shared) = .done (t₂, bs) ∧
        t₂.coalescedList (as ++ bs) = .done (t₃, cs) ∧
        t₃.coalescedList (xs.map .shared ++ ys.map .shared) = .done (t₄, ds) ∧
        List.Forall₂ t₄.Alike cs ds) ∧
    ∀ (x : Nat) (refs : List Nat), s.cell x = .list (refs.map .shared) →
      (∀ r ∈ refs, s.formed .content (.shared r) = true) →
      ∃ t, s.coalesceList (.shared x) = .done t ∧ t.coalesceList (.shared x) = .done t := by
  constructor
  · intro xs ys hxs hys
    exact coalescedList_append hs hxs hys
  · intro x refs hx hf
    exact coalesceList_again hs hx hf

/-- The first text alone, the second one with the reasoning behind it; and the list as it is. -/
theorem coalescing_in_pieces_blended :
    (∃ t₁ as t₂ bs t₃ cs t₄ ds,
      blended.coalescedList ([10].map .shared) = .done (t₁, as) ∧
      t₁.coalescedList ([11, 16, 17].map .shared) = .done (t₂, bs) ∧
      t₂.coalescedList (as ++ bs) = .done (t₃, cs) ∧
      t₃.coalescedList ([10].map .shared ++ [11, 16, 17].map .shared) = .done (t₄, ds) ∧
      List.Forall₂ t₄.Alike cs ds) ∧
    ∃ t, blended.coalesceList (.shared 18) = .done t ∧ t.coalesceList (.shared 18) = .done t :=
  ⟨(coalescing_in_pieces (by decide)).1 [10] [11, 16, 17] (by decide) (by decide),
    (coalescing_in_pieces (by decide)).2 18 [10, 11, 14, 16, 17] rfl (by decide)⟩

end

end Reassembly
