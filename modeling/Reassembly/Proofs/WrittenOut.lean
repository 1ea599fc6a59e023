import Reassembly.Proofs.Expansion
import Reassembly.Proofs.Workshop

/-!
# Objects written out in full

An object that obeys its rules still does when it is written out: what its declaration speaks of
lies only a few references deep. Deeper down there is nothing but properties and what the maker of
an object left in it, and there references may even lead back to where they came from.

* `Kind.reach`: how deep that is.
* `formed_expandTo`: an object obeys its rules when so many references have been followed.
* `reach_le_size`, `formed_expand`: the objects of a workshop do when written out in full.
-/
namespace Reassembly

open Store

/-- How many references have to be followed from a reference to an object of the kind, to see all
that the declarations speak of. -/
def Kind.reach (k : Kind) : Nat := if k = .details then 2 else 2 * k.depth + 1

/-- As many for a value that obeys the rule. -/
def Rule.reach : Rule → Nat
  | .timestamp | .properties | .counts => 1
  | .one k => k.reach
  | .many k => k.reach + 1
  | .contents => Kind.content.reach + 1
  | .messages => Kind.message.reach + 1
  | .optional r => r.reach
  | _ => 0

theorem Kind.reach_field (k : Kind) : ∀ f ∈ k.fields, f.rule.reach < k.reach := by
  cases k <;> decide

theorem reach_of_isA {k l : Kind} (h : l.isA k = true) : l.reach = k.reach := by
  cases k <;> cases l <;> first | rfl | cases h

theorem isFrozen_of_isA {k l : Kind} (h : l.isA k = true) : l.isFrozen = k.isFrozen := by
  cases k <;> cases l <;> first | rfl | cases h

namespace Store

section
variable {s : Store} {v : Value} {k : Kind}

theorem exists_expandTo_head {n : Nat} (hn : 0 < n) (v : Value) :
    ∃ m, n ≤ m + 1 ∧ s.expandTo n v = s.expandTo m (s.head v) := by
  cases v with
  | shared x =>
    obtain ⟨m, rfl⟩ : ∃ m, n = m + 1 := ⟨n - 1, by omega⟩
    exact ⟨m, le_refl _, rfl⟩
  | _ => exact ⟨n, Nat.le_succ n, rfl⟩

theorem expandTo_atom (n : Nat) (h : v.isAtom = true) : s.expandTo n v = v := by
  obtain ⟨f, hf⟩ := s.expandTo_eq_bind n
  rw [hf]
  cases v <;> first | rfl | cases h

theorem isMapOf_expandTo (test : Value → Bool) {n : Nat} (hn : 0 < n)
    (ht : ∀ w m, test w = true → test (s.expandTo m w) = true) (h : s.isMapOf test v = true) :
    s.isMapOf test (s.expandTo n v) = true := by
  obtain ⟨es, hes, hall⟩ := isMapOf_iff.1 h
  obtain ⟨m, -, hm⟩ := exists_expandTo_head (s := s) hn v
  rw [hm, hes, expandTo_map]
  refine isMapOf_iff.2 ⟨_, rfl, List.forall_mem_map.2 fun e he => ?_⟩
  exact ⟨(hall e he).1, ht e.2 m (hall e he).2⟩

theorem isListOf_expandTo {test : Value → Bool} {reach n : Nat} (hn : reach + 1 ≤ n)
    (ht : ∀ w m, test w = true → reach ≤ m → test (s.expandTo m w) = true)
    (h : s.isListOf test v = true) : s.isListOf test (s.expandTo n v) = true := by
  obtain ⟨items, hitems, hall⟩ := isListOf_iff.1 h
  obtain ⟨m, hmn, hm⟩ := exists_expandTo_head (s := s) (by omega : 0 < n) v
  rw [hm, hitems, expandTo_list]
  exact isListOf_iff.2 ⟨_, rfl, List.forall_mem_map.2 fun i hi => ht i m (hall i hi) (by omega)⟩

theorem obeys_expandTo {r : Rule}
    (objects : ∀ k, r.target? = some k → ∀ v n, s.formed k v = true → k.reach ≤ n →
      s.formed k (s.expandTo n v) = true)
    {n : Nat} (h : s.obeys r v = true) (hn : r.reach ≤ n) : s.obeys r (s.expandTo n v) = true := by
  induction r generalizing v n with
  | anything => rfl
  | text =>
    obtain ⟨t, rfl⟩ := obeys_text.1 h
    rw [expandTo_atom n rfl]
    exact h
  | textOrEmpty =>
    obtain ⟨t, rfl⟩ := obeys_textOrEmpty.1 h
    rw [expandTo_atom n rfl]
    exact h
  | label =>
    obtain ⟨t, rfl, -⟩ := isLabel_iff.1 h
    rw [expandTo_atom n rfl]
    exact h
  | author =>
    have hatom : v.isAtom = true := by
      rcases obeys_author.1 h with rfl | ⟨t, rfl, -⟩ <;> rfl
    rw [expandTo_atom n hatom]
    exact h
  | integer =>
    have hatom : v.isAtom = true := by
      cases v <;> first | rfl | cases h
    rw [expandTo_atom n hatom]
    exact h
  | timestamp =>
    obtain ⟨t, ht⟩ := isTimestamp_iff.1 h
    obtain ⟨m, -, hm⟩ := exists_expandTo_head (s := s) hn v
    rw [hm, ht, expandTo_atom m rfl]
    rfl
  | properties => exact isMapOf_expandTo (fun _ => true) hn (fun _ _ _ => rfl) h
  | counts =>
    refine isMapOf_expandTo _ hn (fun w m hw => ?_) h
    cases w with
    | int i => rw [expandTo_atom m rfl, hw]
    | _ => cases hw
  | one k => exact objects k rfl v n h hn
  | many k => exact isListOf_expandTo hn (fun w m => objects k rfl w m) h
  | contents => exact isListOf_expandTo hn (fun w m => objects .content rfl w m) h
  | messages => exact isListOf_expandTo hn (fun w m => objects .message rfl w m) h
  | optional r ih =>
    rcases obeys_optional.1 h with rfl | h
    · rw [expandTo_atom n rfl]
      rfl
    · exact obeys_optional.2 (Or.inr (ih objects h hn))

/-- **An object obeys its rules** when the references within the reach of its kind have been
followed. -/
theorem formed_expandTo {n : Nat} (h : s.formed k v = true) (hn : k.reach ≤ n) :
    s.formed k (s.expandTo n v) = true := by
  -- the objects in an object are of smaller depth
  induction hd : k.depth using Nat.strongRecOn generalizing k v n with
  | ind depth ih =>
    obtain ⟨l, fields, hhead, hl, hall⟩ := formed_iff.1 h
    obtain ⟨m, hmn, hm⟩ := exists_expandTo_head (s := s) (by
      have : 0 < k.reach := by cases k <;> decide
      omega : 0 < n) v
    rw [hm, hhead, expandTo_object]
    refine formed_iff.2 ⟨l, _, rfl, hl, List.forall₂_map_right_iff.2 ?_⟩
    obtain ⟨hlength, hobeys⟩ := List.forall₂_iff_zip.1 hall
    refine List.forall₂_iff_zip.2 ⟨hlength, fun {f x} hfx => ?_⟩
    have hf := (List.of_mem_zip hfx).1
    have hreach := l.reach_field f hf
    rw [reach_of_isA hl] at hreach
    refine obeys_expandTo (fun t ht w i hw hi => ?_) (hobeys hfx) (by omega)
    have hdepth := l.depth_target f hf t ht
    rw [depth_of_isA hl, hd] at hdepth
    exact ih _ hdepth hw hi rfl

end

end Store

theorem isFrozen_of_wellKnown : ∀ x < Store.empty.size,
    ∃ r, Store.empty.kind? (.shared x) = some r ∧ r.isFrozen = true := by
  have all : ∀ x < Store.empty.size, (Store.empty.kind? (.shared x)).any Kind.isFrozen = true := by
    decide
  exact fun x hx => (Option.any_eq_true _ _).1 (all x hx)

/-- The labels that have names lie before all other objects of a workshop, so it is large enough for
any one of these. -/
theorem Workshop.InOrder.reach_le_size {w : Workshop} (h : w.InOrder) {k : Kind} {v : Value}
    (hv : w.store.GivenAs k v) (hk : k.isFrozen = false) : k.reach ≤ w.store.size := by
  obtain ⟨kinds, onward, -, -⟩ := h
  obtain ⟨l, hl, hlk⟩ := (Option.any_eq_true _ _).1 hv.2
  have hshared : ∃ x, v = .shared x := by
    cases v with
    | shared x => exact ⟨x, rfl⟩
    | object => cases hv.1.1
    | _ => cases hl
  obtain ⟨x, rfl⟩ := hshared
  have hx : empty.size ≤ x := by
    by_contra hlt
    obtain ⟨r, hr, hfrozen⟩ := isFrozen_of_wellKnown x (by omega)
    have hsame := (onward.kind? hr).symm.trans hl
    cases hsame
    rw [isFrozen_of_isA hlk, hk] at hfrozen
    cases hfrozen
  have hsize : x < w.store.size := hv.1.2.2 x (List.mem_singleton_self x)
  have hreach : k.reach ≤ empty.size + 1 := by cases k <;> decide
  omega

/-- **The objects of a workshop** obey their rules when they are written out in full. -/
theorem Workshop.InOrder.formed_expand {w : Workshop} (h : w.InOrder) {k : Kind} {v : Value}
    (hv : w.store.GivenAs k v) (hk : k.isFrozen = false) (ha : k ≠ .accumulator) :
    w.store.formed k (w.store.expand v) = true := by
  have hreach := h.reach_le_size hv hk
  obtain ⟨kinds, -, htidy, -⟩ := h
  exact formed_expandTo (formed_of_made htidy ha hv.made.1 hv.2) hreach

end Reassembly
