import Reassembly.Proofs.Batches

/-!
# Accounts of a meeting

While some calls wait for their updates, others go on. At any time the list is what it was at the
start, with a batch for each call that has come to its end, and each of the others has an
accumulator of its own that holds what it has been given. One call that goes on leaves the others as
they are.

* `Call.Kept`, `Meeting.Kept`: what is true of a call, and of a meeting.
* `Meeting.Next`: one call goes on.
* `Kept.next`: this keeps the account.
* `Meeting.Onward`, `Onward.trans`: how meetings go on.
-/
namespace Reassembly

open Store

section
variable {s t : Store} {aside more : List Nat} {ref : Nat}

/-- What is known of a call. -/
inductive Call.Kept (s : Store) (aside : List Nat) (ref : Nat) : Call → Prop
  /-- Its accumulator holds what it has been given so far. -/
  | taking {mode sized source x pulls fed} (starts : source.isNothing mode sized = false)
      (given : (source.seenIn mode).pulls = fed.map (.update · false) ++ pulls)
      (slot : Slot.Kept s aside ⟨.shared x, true, fed⟩) :
      Call.Kept s aside ref
        ⟨.updates mode sized (some source), .shared ref, .taking (.shared x) pulls⟩
  /-- It has failed, as it does in any store. -/
  | failed {addition place f} (fails : ∀ t : Store, (t.add place addition).2 = .error f) :
      Call.Kept s aside ref ⟨addition, place, .ended (.error f)⟩
  | done {addition} : Call.Kept s aside ref ⟨addition, .shared ref, .ended (.ok .null)⟩

theorem Call.Kept.later (h : s.Later aside t more) (hs : s.Sound aside) {call : Call}
    (hk : call.Kept s aside ref)
    (hc : ∀ x ∈ call.stage.cells, x ∈ more ∧ t.cell x = s.cell x) : call.Kept t more ref := by
  cases hk with
  | taking starts given slot =>
    refine .taking starts given (slot.later h hs fun x hx => hc x ?_)
    cases hx
    exact List.mem_singleton.2 rfl
  | failed fails => exact .failed fails
  | done => exact .done

end

/-! ## The account -/

namespace Meeting

/-- Call number `n` has added this batch. -/
def Did (w : Meeting) (ref n : Nat) (batch : List Value) : Prop :=
  ∃ call, w.calls[n]? = some call ∧ call.place = .shared ref ∧ call.stage = .ended (.ok .null) ∧
    w.store.Brings (w.aside ref) call.addition batch

/-- The list is as it was at the start, with the batches of the calls that have added something. -/
structure Kept (w : Meeting) (ref : Nat) (items : List Value) (batches : List (List Value)) :
    Prop where
  sound : w.store.Sound []
  list : w.store.cell ref = .list (items ++ batches.flatten)
  apart : ∀ {m n : Nat} {c d : Call} {x : Nat}, w.calls[m]? = some c → w.calls[n]? = some d →
    x ∈ c.stage.cells → x ∈ d.stage.cells → m = n
  calls : ∀ {n : Nat} {call : Call}, w.calls[n]? = some call → call.Kept w.store (w.aside ref) ref
  did : List.Forall₂ (w.Did ref) w.done batches
  nodup : w.done.Nodup
  complete : ∀ {n : Nat} {call : Call}, w.calls[n]? = some call → call.stage.isDone = true →
    n ∈ w.done

section
variable {w v : Meeting} {ref n : Nat} {items : List Value} {batches : List (List Value)}

theorem mem_taken {x : Nat} :
    x ∈ w.taken ref ↔
      x = ref ∨ ∃ (n : Nat) (call : Call), w.calls[n]? = some call ∧ x ∈ call.stage.cells := by
  simp only [taken, List.mem_cons, List.mem_flatMap]
  refine or_congr_right ⟨?_, ?_⟩
  · rintro ⟨call, hm, hx⟩
    obtain ⟨n, hn⟩ := List.mem_iff_getElem?.1 hm
    exact ⟨n, call, hn, hx⟩
  · rintro ⟨n, call, hn, hx⟩
    exact ⟨call, List.mem_of_getElem? hn, hx⟩

theorem mem_aside {call : Call} {x : Nat} (hn : w.calls[n]? = some call)
    (hx : x ∈ call.stage.cells) (hlt : x < w.store.size) : x ∈ w.aside ref :=
  mem_leading_of_mem (mem_taken.2 (.inr ⟨n, call, hn, hx⟩)) hlt

theorem Kept.sound_aside (h : w.Kept ref items batches) : w.store.Sound (w.aside ref) :=
  sound_leading h.sound _

theorem Kept.ref_mem (h : w.Kept ref items batches) : ref ∈ w.aside ref :=
  mem_leading_of_mem List.mem_cons_self (lt_size_of_list h.list)

/-- The accumulators of the calls have cells, and none of them is the list. -/
theorem Kept.cells (h : w.Kept ref items batches) {call : Call} (hn : w.calls[n]? = some call)
    {x : Nat} (hx : x ∈ call.stage.cells) : x < w.store.size ∧ x ≠ ref := by
  cases h.calls hn with
  | taking _ _ slot =>
    obtain rfl := List.mem_singleton.1 hx
    obtain ⟨y, hy, hin, -⟩ := slot.place
    cases hy
    exact ⟨lt_of_mem_leading hin, slot.ne_of_list rfl h.list⟩
  | failed _ => cases hx
  | done => cases hx

theorem Kept.exists_did (h : w.Kept ref items batches) (hn : n ∈ w.done) :
    ∃ batch, w.Did ref n batch := by
  obtain ⟨batch, -, hdid⟩ := exists_mem_of_forall₂ h.did.flip hn
  exact ⟨batch, hdid⟩

theorem Did.isDone {batch : List Value} (h : w.Did ref n batch) {call : Call}
    (hn : w.calls[n]? = some call) : call.stage.isDone = true := by
  obtain ⟨other, hother, -, hended, -⟩ := h
  rw [hn] at hother
  cases hother
  rw [hended]
  rfl

end

/-! ## One call goes on -/

/-- Call number `n` has come this far, and the others stay as they are. It has not added anything
before. It has written to the list and to its own cells only, and has kept those or come by new
ones. -/
structure Next (w : Meeting) (ref n : Nat) (own : List Nat) (call : Call) (v : Meeting) : Prop where
  sound : v.store.Sound []
  frame : w.store.Frame (ref :: own) v.store
  owned : ∀ x ∈ own, ∃ c : Call, w.calls[n]? = some c ∧ x ∈ c.stage.cells
  cells : ∀ x ∈ call.stage.cells, x ∈ own ∨ w.store.size ≤ x
  others : ∀ m, m ≠ n → v.calls[m]? = w.calls[m]?
  reached : v.calls[n]? = some call
  before : ∀ c : Call, w.calls[n]? = some c → c.stage.isDone = false

section
variable {w v : Meeting} {ref n : Nat} {items : List Value} {batches made : List (List Value)}
  {own : List Nat} {call : Call}

theorem Next.later (hx : w.Next ref n own call v) (h : w.Kept ref items batches) :
    w.store.Later (w.aside ref) v.store (v.aside ref) := by
  have frame : w.store.Frame (w.taken ref) v.store := by
    refine hx.frame.mono fun x hm _ => mem_taken.2 ((List.mem_cons.1 hm).imp_right fun hm => ?_)
    obtain ⟨c, hc, hxc⟩ := hx.owned x hm
    exact ⟨n, c, hc, hxc⟩
  refine later_leading h.sound hx.sound frame fun y hy => ?_
  rcases mem_taken.1 hy with rfl | ⟨m, c, hm, hy⟩
  · exact .inl List.mem_cons_self
  · by_cases hmn : m = n
    · subst hmn
      rw [hx.reached] at hm
      cases hm
      refine (hx.cells y hy).imp_left fun hy => ?_
      obtain ⟨c, hc, hyc⟩ := hx.owned y hy
      exact mem_taken.2 (.inr ⟨m, c, hc, hyc⟩)
    · rw [hx.others m hmn] at hm
      exact .inl (mem_taken.2 (.inr ⟨m, c, hm, hy⟩))

/-- The cells of another call are none of this one. -/
theorem Next.foreign (hx : w.Next ref n own call v) (h : w.Kept ref items batches) {m : Nat}
    {c : Call} {x : Nat} (hmn : m ≠ n) (hm : w.calls[m]? = some c) (hxc : x ∈ c.stage.cells) :
    x ∉ own ∧ x ∉ call.stage.cells := by
  have hown : x ∉ own := by
    intro hin
    obtain ⟨d, hd, hxd⟩ := hx.owned x hin
    exact hmn (h.apart hm hd hxc hxd)
  refine ⟨hown, fun hin => ?_⟩
  have hlt := (h.cells hm hxc).1
  rcases hx.cells x hin with hin | hnew
  · exact hown hin
  · omega

theorem Next.apart (hx : w.Next ref n own call v) (h : w.Kept ref items batches) {p q : Nat}
    {c d : Call} {x : Nat} (hp : v.calls[p]? = some c) (hq : v.calls[q]? = some d)
    (hc : x ∈ c.stage.cells) (hd : x ∈ d.stage.cells) : p = q := by
  by_cases hpn : p = n <;> by_cases hqn : q = n
  · rw [hpn, hqn]
  · subst hpn
    rw [hx.reached] at hp
    cases hp
    rw [hx.others q hqn] at hq
    exact absurd hc (hx.foreign h hqn hq hd).2
  · subst hqn
    rw [hx.reached] at hq
    cases hq
    rw [hx.others p hpn] at hp
    exact absurd hd (hx.foreign h hpn hp hc).2
  · rw [hx.others p hpn] at hp
    rw [hx.others q hqn] at hq
    exact h.apart hp hq hc hd

theorem Next.calls (hx : w.Next ref n own call v) (h : w.Kept ref items batches)
    (kept : call.Kept v.store (v.aside ref) ref) {m : Nat} {c : Call} (hm : v.calls[m]? = some c) :
    c.Kept v.store (v.aside ref) ref := by
  by_cases hmn : m = n
  · subst hmn
    rw [hx.reached] at hm
    cases hm
    exact kept
  · have hold := hm
    rw [hx.others m hmn] at hold
    refine (h.calls hold).later (hx.later h) h.sound_aside fun x hxc => ?_
    obtain ⟨hlt, hne⟩ := h.cells hold hxc
    refine ⟨mem_aside hm hxc (Nat.lt_of_lt_of_le hlt hx.frame.size),
      hx.frame.cell x hlt fun hin => ?_⟩
    rcases List.mem_cons.1 hin with hin | hin
    · exact hne hin
    · exact (hx.foreign h hmn hold hxc).1 hin

theorem Next.ne_of_did (hx : w.Next ref n own call v) {m : Nat} {batch : List Value}
    (hdid : w.Did ref m batch) : m ≠ n := by
  rintro rfl
  obtain ⟨c, hc, -⟩ := id hdid
  have hdone := hdid.isDone hc
  rw [hx.before c hc] at hdone
  cases hdone

/-- What has been added stays added. -/
theorem Next.did (hx : w.Next ref n own call v) (h : w.Kept ref items batches) {m : Nat}
    {batch : List Value} (hdid : w.Did ref m batch) : v.Did ref m batch := by
  have hmn := hx.ne_of_did hdid
  obtain ⟨c, hc, hplace, hended, hmade⟩ := hdid
  exact ⟨c, (hx.others m hmn).trans hc, hplace, hended, hmade.later (hx.later h) h.sound_aside⟩

/-- **One call goes on**: the list has grown by what the call has added, if it has come to its
end. -/
theorem Kept.next (h : w.Kept ref items batches) (hx : w.Next ref n own call v)
    (list : v.store.cell ref = .list (items ++ (batches ++ made).flatten))
    (kept : call.Kept v.store (v.aside ref) ref) (hdone : v.done = w.done ++ call.stage.entry n)
    (new : List.Forall₂ (v.Did ref) (call.stage.entry n) made) :
    v.Kept ref items (batches ++ made) where
  sound := hx.sound
  list := list
  apart := hx.apart h
  calls := hx.calls h kept
  did := by
    rw [hdone]
    exact List.rel_append (h.did.imp fun _ _ => hx.did h) new
  nodup := by
    rw [hdone, List.nodup_append]
    refine ⟨h.nodup, ?_, fun m hm k hk hmk => ?_⟩
    · unfold Stage.entry
      split <;> simp
    · unfold Stage.entry at hk
      split at hk
      · obtain ⟨batch, hdid⟩ := h.exists_did hm
        exact hx.ne_of_did hdid (hmk.trans (List.mem_singleton.1 hk))
      · cases hk
  complete := by
    intro m c hm hc
    rw [hdone, List.mem_append]
    by_cases hmn : m = n
    · subst hmn
      rw [hx.reached] at hm
      cases hm
      rw [Stage.entry, if_pos hc]
      exact .inr (List.mem_singleton.2 rfl)
    · rw [hx.others m hmn] at hm
      exact .inl (h.complete hm hc)

/-- If nothing new leads to what was set aside, no more is set aside now. -/
theorem Next.settled (hx : w.Next ref n own call v) (h : w.Kept ref items batches)
    (hs : v.store.Sound (w.aside ref)) (hcells : ∀ x ∈ call.stage.cells, x ∈ own) :
    v.store.Later (w.aside ref) v.store (v.aside ref) := by
  have old : ∀ {m : Nat} {c : Call} {x : Nat}, w.calls[m]? = some c → x ∈ c.stage.cells →
      x ∈ w.aside ref := fun hm hxc => mem_aside hm hxc (h.cells hm hxc).1
  refine ⟨.refl _ _, sound_leading hx.sound _, fun y hy => .inl ?_⟩
  refine mem_of_mem_leading hs (fun x hxt _ => ?_) hy
  rcases mem_taken.1 hxt with rfl | ⟨m, c, hm, hxc⟩
  · exact h.ref_mem
  · by_cases hmn : m = n
    · subst hmn
      rw [hx.reached] at hm
      cases hm
      obtain ⟨d, hd, hxd⟩ := hx.owned x (hcells x hxc)
      exact old hd hxd
    · rw [hx.others m hmn] at hm
      exact old hm hxc

/-- The meeting goes on like this: more calls may have added something, and nothing that was set
aside before has changed. -/
def Onward (w : Meeting) (ref : Nat) (items : List Value) (batches : List (List Value))
    (v : Meeting) : Prop :=
  ∃ more made, v.Kept ref items (batches ++ made) ∧ v.done = w.done ++ more ∧
    w.store.Later (w.aside ref) v.store (v.aside ref)

theorem Kept.onward (h : w.Kept ref items batches) (made : List (List Value))
    (hx : w.Next ref n own call v)
    (list : v.store.cell ref = .list (items ++ (batches ++ made).flatten))
    (kept : call.Kept v.store (v.aside ref) ref) (hdone : v.done = w.done ++ call.stage.entry n)
    (new : List.Forall₂ (v.Did ref) (call.stage.entry n) made) : w.Onward ref items batches v :=
  ⟨_, made, h.next hx list kept hdone new, hdone, hx.later h⟩

theorem Kept.refl (h : w.Kept ref items batches) : w.Onward ref items batches w := by
  refine ⟨[], [], ?_, (List.append_nil _).symm, .refl _ _, h.sound_aside, fun y hy => .inl hy⟩
  rw [List.append_nil]
  exact h

theorem Onward.later (h : w.Onward ref items batches v) :
    w.store.Later (w.aside ref) v.store (v.aside ref) := by
  obtain ⟨-, -, -, -, hlater⟩ := h
  exact hlater

theorem Onward.trans {u : Meeting} (h : w.Onward ref items batches v)
    (k : ∀ {made}, v.Kept ref items (batches ++ made) → v.Onward ref items (batches ++ made) u) :
    w.Onward ref items batches u := by
  obtain ⟨more, made, hv, hdone, hl⟩ := h
  obtain ⟨most, rest, hu, hdone', hl'⟩ := k hv
  refine ⟨more ++ most, made ++ rest, ?_, ?_, hl.trans hl'⟩
  · rw [← List.append_assoc]
    exact hu
  · rw [hdone', hdone, List.append_assoc]

end

end Meeting

end Reassembly
