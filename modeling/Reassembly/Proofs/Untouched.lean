import Reassembly.Proofs.Refold
import Reassembly.Proofs.Streams
import Reassembly.Workspace.Basic

/-!
# Reconstruction leaves its inputs alone

Much is shared: a response in progress holds the content items of its updates, and the updates of a
response hold its items and its counters. Still nothing is written to but what has been made on the
way. So all that was there when a run began is there when it is over, however the run ends, and
folding the same updates once more makes the same response.

* `toResponse_extends`: a run over a source only adds cells.
* `Bench.extends_run`: so do calls on accumulators that are made on the way.
* `toUpdates_of_formed`: so does taking a response apart, and what comes of it are updates.
* `toResponse_twice`: a second run makes the same of the same updates.
* `inputs_untouched`: all of this.
-/
namespace Reassembly

open Store

section
variable {s : Store}

/-! ## Runs and accumulators -/

/-- **A run over a source** only adds cells, whether it ends, fails or is cancelled. -/
theorem toResponse_extends (hs : s.Sound []) (mode : Mode) (c : Bool) {source : Source Value}
    (hu : ∀ u ∈ source.updates, s.IsUpdate [] u) :
    s.Extends (s.toResponse mode (.bool c) source).1 :=
  (toResponse_ends hs false mode c hu).1.frame.to_extends

/-- **Calls on accumulators** only add cells, if the accumulators are made on the way. -/
theorem Bench.extends_run (hs : s.Sound []) {acts : List Act} (ha : (Bench.on s).AllowsAll acts) :
    s.Extends ((Bench.on s).run acts).store :=
  ((Bench.kept_on hs).run ha).2.frame.to_extends

theorem toResponse_twice (hs : s.Sound []) (first second : Mode) (c : Bool) {us : List Value}
    (hu : ∀ u ∈ us, s.IsUpdate [] u) :
    ∃ t v t' w, s.toResponse first (.bool c) { updates := us } = (t, .ok v) ∧
      t.toResponse second (.bool c) { updates := us } = (t', .ok w) ∧ t'.Alike v w := by
  obtain ⟨t, v, hrun, hl, hv, hlike⟩ := toResponse_of_updates hs first c hu
  have hu' : ∀ u ∈ us, t.IsUpdate [] u := fun u hm => hl.isUpdate hs (hu u hm)
  obtain ⟨t', w, hrun', hl', -, hlike'⟩ := toResponse_of_updates hl.sound second c hu'
  rw [hl.frame.foldOf hs hu] at hlike'
  have hfold := (working_foldOf hs hu c).holds
  have hkeep : s.AlikeIn t _ _ := hl.frame.alike hs hfold
  have hfirst : t.AlikeIn t' v v := hl'.frame.alike hl.sound hv
  exact ⟨t, v, t', w, hrun, hrun',
    ((hfirst.symm.trans hlike.symm).trans hkeep).trans hlike'⟩

/-! ## Taking a response apart -/

variable {aside : List Nat}

theorem holds_of_formed_response (hs : s.Sound aside) {v : Value} (hv : s.Holds aside v)
    (hf : s.formed .response v = true) : s.Holds aside (s.response v).toValue :=
  holds_response.2 ((inherits_holds hs).response hf hv)

theorem holds_messageUpdate {r : Response} (hr : s.Holds aside r.toValue) {m : Message}
    (hm : m ∈ r.messages) : s.Holds aside (r.messageUpdate m).toValue := by
  obtain ⟨messages, id, conversation, model, created, finish, -, -, -⟩ := holds_response.1 hr
  obtain ⟨role, contents, author, mCreated, mId, raw, properties⟩ := messages m hm
  exact holds_update.2 ⟨role, contents, author, id, mId, conversation, newer_of_both mCreated created,
    finish, model, raw, properties⟩

theorem holds_closingUpdate {r : Response} (hr : s.Holds aside r.toValue) :
    s.Holds aside r.closingUpdate.toValue := by
  obtain ⟨-, -, -, -, -, -, usage, -, properties⟩ := holds_response.1 hr
  refine holds_update.2 ⟨holds_null, ?_, holds_null, holds_null, holds_null, holds_null, holds_null,
    holds_null, holds_null, holds_null, properties⟩
  unfold Response.closingUpdate
  split
  · exact fun c hc => by cases hc
  · rw [List.forall_mem_singleton]
    simp [usageItem, usage]

theorem holds_toUpdates {r : Response} (hr : s.Holds aside r.toValue) :
    ∀ u ∈ r.toUpdates, s.Holds aside u.toValue := by
  intro u hu
  rcases List.mem_append.1 hu with hu | hu
  · obtain ⟨m, hm, rfl⟩ := List.mem_map.1 hu
    exact holds_messageUpdate hr hm
  · split at hu
    · rw [List.mem_singleton.1 hu]
      exact holds_closingUpdate hr
    · cases hu

theorem Update.Formed.copied {u : Update} (h : u.Formed s) : (u.copied s).Formed s :=
  { h with properties := obeys_copied h.properties }

theorem isUpdate_copied (hs : s.Sound aside) {u : Update} (h : u.Formed s)
    (hu : s.Holds aside u.toValue) : s.IsUpdate aside (u.copied s).toValue := by
  refine ⟨formed_update_iff.2 h.copied, ?_⟩
  obtain ⟨role, contents, author, responseId, messageId, conversationId, created, finish, model, raw,
    properties⟩ := holds_update.1 hu
  exact holds_update.2 ⟨role, contents, author, responseId, messageId, conversationId, created,
    finish, model, raw, holds_copied hs properties⟩

theorem intern_updates (hs : s.Sound aside) {vs : List Value} (hv : ∀ v ∈ vs, s.IsUpdate aside v) :
    ∃ t list us, s.intern (.list vs) = (t, list) ∧ t.head list = .list us ∧
      List.Forall₂ (s.AlikeIn t) vs us ∧ s.Carries aside (.list vs) t list ∧
      ∀ u ∈ us, t.IsUpdate aside u := by
  have hcarry := carries_intern hs (.list vs) (holds_list.2 fun v hm => (hv v hm).holds)
  obtain ⟨us, hus, hlike⟩ := hcarry.alike.list rfl
  refine ⟨_, _, us, rfl, hus, hlike, hcarry, fun u hm => ?_⟩
  obtain ⟨v, hvm, hvu⟩ := exists_mem_of_forall₂ hlike hm
  have hheld := holds_list.1 (hus ▸ hcarry.sound.head hcarry.holds) u hm
  exact ⟨formed_of_alikeIn hs hcarry.sound (hv v hvm).holds hheld hvu (hv v hvm).formed, hheld⟩

/-- **Taking a response apart** gives a new list of updates, and only adds cells. -/
theorem toUpdates_of_formed (hs : s.Sound []) {v : Value} (hv : s.Holds [] v)
    (hf : s.formed .response v = true) :
    ∃ t list us, s.call v [] .toUpdates = (t, .ok list) ∧ t.head list = .list us ∧
      s.Extends t ∧ t.Sound [] ∧ ∀ u ∈ us, t.IsUpdate [] u := by
  have hr := (formed_response hf).1
  have hheld := holds_of_formed_response hs hv hf
  have hall : ∀ u ∈ (s.response v).toUpdates.map fun u => (u.copied s).toValue,
      s.IsUpdate [] u := by
    rw [List.forall_mem_map]
    exact fun u hu => isUpdate_copied hs (hr.toUpdates u hu) (holds_toUpdates hheld u hu)
  obtain ⟨t, list, us, hintern, hlist, -, hcarry, hus⟩ := intern_updates hs hall
  refine ⟨t, list, us, ?_, hlist, hcarry.grows, hcarry.sound, hus⟩
  simp only [Store.call, updatesOf_of_formed hr, Checked.orFail, hintern]

end

/-! ## All of it -/

/-- **Reconstruction leaves its inputs alone.** A run over a source leaves every cell as it was that
was there before, and so do calls on accumulators that are made on the way, in any order. A response
that is taken apart is as before, also after its updates have been folded again in whatever way. And
folding updates once more gives an equal response. -/
theorem inputs_untouched {s : Store} (hs : s.Sound []) :
    (∀ mode c (source : Source Value), (∀ u ∈ source.updates, s.IsUpdate [] u) →
      s.Extends (s.toResponse mode (.bool c) source).1) ∧
    (∀ acts, (Bench.on s).AllowsAll acts → s.Extends ((Bench.on s).run acts).store) ∧
    (∀ v, s.Holds [] v → s.formed .response v = true →
      ∃ t list us, s.call v [] .toUpdates = (t, .ok list) ∧ t.head list = .list us ∧
        s.Extends t ∧ (∀ u ∈ us, t.IsUpdate [] u) ∧
        (∀ mode c (source : Source Value), (∀ u ∈ source.updates, t.IsUpdate [] u) →
          s.Extends (t.toResponse mode (.bool c) source).1) ∧
        ∀ acts, (Bench.on t).AllowsAll acts → s.Extends ((Bench.on t).run acts).store) ∧
    ∀ first second c us, (∀ u ∈ us, s.IsUpdate [] u) →
      ∃ t v t' w, s.toResponse first (.bool c) { updates := us } = (t, .ok v) ∧
        t.toResponse second (.bool c) { updates := us } = (t', .ok w) ∧ t'.Alike v w := by
  refine ⟨fun mode c source hu => toResponse_extends hs mode c hu,
    fun acts ha => Bench.extends_run hs ha, fun v hv hf => ?_,
    fun first second c us hu => toResponse_twice hs first second c hu⟩
  obtain ⟨t, list, us, hcall, hlist, hgrows, hsound, hus⟩ := toUpdates_of_formed hs hv hf
  refine ⟨t, list, us, hcall, hlist, hgrows, hus, fun mode c source hu => ?_, fun acts ha => ?_⟩
  · exact hgrows.trans (toResponse_extends hsound mode c hu)
  · exact hgrows.trans (Bench.extends_run hsound ha)

/-- An update with counters of its own and a map in which there is a list. -/
def remark : Update :=
  { Update.blank with
    contents :=
      [plainText "hel",
        usageItem (.object .details [.null, .int 2, .null, .map [(.text "cached", .int 1)]])]
    properties := .map [(.text "seen", .list [])] }

/-- A response of one message, with counters. -/
def approval : Response :=
  { Response.empty with
    messages := [{ Message.opened userRole with contents := [plainText "Yes."] }]
    usage := noDetails }

/-- A store with the update in cell 15 and the response in cell 21. -/
def desk : Store := (Store.empty.internAll [remark.toValue, approval.toValue]).1

/-- The update comes twice, and then the source fails. -/
def brokenOff : Source Value where
  updates := [.shared 15, .shared 15]
  failure := some (2, .raised "OSError" "gone")

theorem inputs_untouched_desk :
    desk.Extends (desk.toResponse .async (.bool true) brokenOff).1 ∧
    desk.Extends ((Bench.on desk).run [.new true, .feed 0 (.shared 15), .feed 0 (.shared 15),
      .finalize 0, .feed 0 (.shared 15)]).store ∧
    (∃ t list us, desk.call (.shared 21) [] .toUpdates = (t, .ok list) ∧ t.head list = .list us ∧
      desk.Extends t ∧ desk.Extends (t.toResponse .sync (.bool false) { updates := us }).1) ∧
    ∃ t v t' w,
      desk.toResponse .sync (.bool false) { updates := [.shared 15, .shared 15] } = (t, .ok v) ∧
        t.toResponse .async (.bool false) { updates := [.shared 15, .shared 15] } = (t', .ok w) ∧
        t'.Alike v w := by
  obtain ⟨runs, accumulators, apart, twice⟩ := inputs_untouched (s := desk) (by decide)
  refine ⟨runs .async true brokenOff (by decide), accumulators _ (by decide +kernel), ?_,
    twice .sync .async false _ (by decide)⟩
  obtain ⟨t, list, us, hcall, hlist, hgrows, hus, again, -⟩ :=
    apart (.shared 21) (by decide) (by decide)
  exact ⟨t, list, us, hcall, hlist, hgrows, again .sync false { updates := us } hus⟩

end Reassembly
