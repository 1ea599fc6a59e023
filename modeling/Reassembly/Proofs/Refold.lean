import Reassembly.Proofs.Records

/-!
# Responses that are taken apart and folded again

A response comes apart into updates that its own constructor checks once more. If the response
obeys its rules so do these updates: the check fails nowhere and only copies maps, which a fold
does not notice.

* `Store.refold`: takes a response apart, and folds its updates with more behind them.
* `updatesOf_of_formed`: the updates of a response that obeys its rules.
* `refold_of_formed`: to refold it is to fold its updates.
-/
namespace Reassembly

open Store Response

/-- Takes a response apart and makes one again, of its updates and more behind them. -/
def Store.refold (s : Store) (v : Value) (more : List Update) (merge : Bool) :
    Checked Response := do
  let updates ← s.updatesOf v
  Response.ofUpdates s (updates.map s.update ++ more) merge

/-- The update as its constructor makes it, with a copy of its properties. -/
def Update.copied (s : Store) (u : Update) : Update :=
  { u with properties := (Rule.optional .properties).copied s u.properties }

section
variable {s : Store}

theorem copied_optional {r : Rule} (h : ∀ v, r.copied s v = v) (v : Value) :
    (Rule.optional r).copied s v = v := by
  rw [Rule.copied, h]
  split
  · next hv => exact hv.symm
  · rfl

/-! ## The checks -/

theorem checkUpdate_of_formed {u : Update} (h : u.Formed s) :
    s.checkUpdate u = .ok (u.copied s).toValue := by
  have named : List.Forall₂ (fun f v => f.take (Kind.update.named u.values) = .ok v ∧
      s.obeys f.rule v = true) Kind.update.fields u.values := by
    have hc := obeys_contents.2 h.contents
    refine .cons ⟨take_of_get? rfl fun _ => rfl, h.role⟩
      (.cons ⟨take_of_get? rfl fun _ => rfl, hc⟩
      (.cons ⟨take_of_get? rfl fun _ => rfl, h.author⟩
      (.cons ⟨take_of_get? rfl fun _ => rfl, h.responseId⟩
      (.cons ⟨take_of_get? rfl fun _ => rfl, h.messageId⟩
      (.cons ⟨take_of_get? rfl fun _ => rfl, h.conversationId⟩
      (.cons ⟨take_of_get? rfl fun _ => rfl, h.created⟩
      (.cons ⟨take_of_get? rfl fun _ => rfl, h.finish⟩
      (.cons ⟨take_of_get? rfl fun _ => rfl, h.model⟩
      (.cons ⟨take_of_get? rfl fun _ => rfl, rfl⟩
      (.cons ⟨take_of_get? rfl fun _ => rfl, h.properties⟩ .nil))))))))))
  rw [checkUpdate, construct_of_obeys named]
  have role := copied_optional (s := s) (r := .one .role) (fun _ => rfl) u.role
  have finish := copied_optional (s := s) (r := .one .finish) (fun _ => rfl) u.finish
  have created := copied_optional (s := s) (r := .timestamp) (fun _ => rfl) u.created
  have text := copied_optional (s := s) (r := .text) fun _ => rfl
  simp only [Kind.fields, Update.values, textField, timeField, reasonField, rawField,
    propertiesField, authorField, contentsField, List.zipWith_cons_cons, List.zipWith_nil_right,
    role, finish, created, text]
  rfl

theorem checkUsageItem_of_obeys {details : Value}
    (h : s.obeys (.optional (.one .details)) details = true) :
    s.checkUsageItem details = .ok (if details = .null then [] else [usageItem details]) := by
  unfold checkUsageItem
  split
  · rfl
  · next hn =>
    have named : List.Forall₂ (fun f v => f.take [(.text "details", details)] = .ok v ∧
        s.obeys f.rule v = true) Kind.usage.fields [.null, .null, .null, details] := by
      refine .cons ⟨take_of_missing rfl rfl, rfl⟩ (.cons ⟨take_of_missing rfl rfl, rfl⟩
        (.cons ⟨take_of_missing rfl rfl, rfl⟩ (.cons ⟨take_of_get? rfl fun hd => ?_, h⟩ .nil)))
      exact absurd hd hn
    rw [construct_of_obeys named]
    have hd := copied_optional (s := s) (r := .one .details) (fun _ => rfl) details
    simp only [Kind.fields, contentFields, List.cons_append, List.nil_append,
      List.zipWith_cons_cons, List.zipWith_nil_right, hd]
    rfl

/-! ## The updates of a response -/

theorem Response.Formed.messageUpdate {r : Response} (h : r.Formed s) {m : Message}
    (hm : m ∈ r.messages) : (r.messageUpdate m).Formed s where
  role := (h.messages m hm).role
  contents := (h.messages m hm).contents
  author := (h.messages m hm).author
  responseId := h.id
  messageId := (h.messages m hm).id
  conversationId := h.conversationId
  created := obeys_newer (h.messages m hm).created h.created
  finish := h.finish
  model := h.model
  properties := (h.messages m hm).properties

theorem formed_usageItem {details : Value}
    (h : s.obeys (.optional (.one .details)) details = true) :
    s.formed .content (usageItem details) = true :=
  formed_iff.2 ⟨.usage, _, rfl, rfl, .cons rfl (.cons rfl (.cons rfl (.cons h .nil)))⟩

theorem Response.Formed.closingUpdate {r : Response} (h : r.Formed s) :
    r.closingUpdate.Formed s where
  role := rfl
  contents := by
    unfold Response.closingUpdate
    split
    · exact fun c hc => by cases hc
    · exact List.forall_mem_singleton.2 (formed_usageItem h.usage)
  author := rfl
  responseId := rfl
  messageId := rfl
  conversationId := rfl
  created := rfl
  finish := rfl
  model := rfl
  properties := h.properties

theorem Response.Formed.toUpdates {r : Response} (h : r.Formed s) :
    ∀ u ∈ r.toUpdates, u.Formed s := by
  intro u hu
  rcases List.mem_append.1 hu with hu | hu
  · obtain ⟨m, hm, rfl⟩ := List.mem_map.1 hu
    exact h.messageUpdate hm
  · split at hu
    · rw [List.mem_singleton.1 hu]
      exact h.closingUpdate
    · cases hu

theorem mapM_checkUpdate {us : List Update} (h : ∀ u ∈ us, u.Formed s) :
    us.mapM s.checkUpdate = .ok (us.map fun u => (u.copied s).toValue) := by
  induction us with
  | nil => rfl
  | cons u us ih =>
    obtain ⟨hu, hus⟩ := List.forall_mem_cons.1 h
    rw [List.mapM_cons, checkUpdate_of_formed hu, ih hus]
    rfl

theorem checkClosing_of_formed {r : Response} (h : r.Formed s) :
    s.checkClosing r =
      .ok (if r.hasClosing then [(r.closingUpdate.copied s).toValue] else []) := by
  unfold checkClosing
  split
  · have first : ({ r.closingUpdate with contents := [] } : Update).Formed s :=
      { h.closingUpdate with contents := fun c hc => by cases hc }
    rw [checkUpdate_of_formed first, checkUsageItem_of_obeys h.usage]
    have hlast := checkUpdate_of_formed h.closingUpdate
    unfold Response.closingUpdate at hlast ⊢
    simp only [bind, Except.bind, hlast]
    rfl
  · rfl

/-- **The updates of a response that obeys its rules.** -/
theorem updatesOf_of_formed {v : Value} (h : (s.response v).Formed s) :
    s.updatesOf v = .ok ((s.response v).toUpdates.map fun u => (u.copied s).toValue) := by
  have hm : ∀ u ∈ (s.response v).messages.map (s.response v).messageUpdate, u.Formed s := by
    intro u hu
    obtain ⟨m, hm, rfl⟩ := List.mem_map.1 hu
    exact h.messageUpdate hm
  have hclosing : (if (s.response v).hasClosing then
      [((s.response v).closingUpdate.copied s).toValue] else []) =
        (if (s.response v).hasClosing then [(s.response v).closingUpdate] else []).map
          fun u => (u.copied s).toValue := by
    split <;> rfl
  rw [Response.toUpdates, List.map_append, ← hclosing]
  simp only [updatesOf, mapM_checkUpdate hm, checkClosing_of_formed h]
  rfl

/-! ## Folding them again -/

theorem mergeProperties_copied (s : Store) (old : Value) {new : Value}
    (h : s.obeys (.optional .properties) new = true) :
    mergeProperties s old ((Rule.optional .properties).copied s new) =
      mergeProperties s old new := by
  rcases obeys_properties.1 h with rfl | ⟨es, hes, -⟩
  · rfl
  · have hn : new ≠ .null := by rintro rfl; cases hes
    have hs : s.entries? new = some es := by simp [entries?, hes]
    have hc : s.entries? ((Rule.optional .properties).copied s new) = some es := by
      rw [Rule.copied, if_neg hn, Rule.copied, hs]
      rfl
    simp only [mergeProperties, hs, hc]

theorem feed_copied (r : Response) {u : Update} (h : u.Formed s) :
    r.feed s (u.copied s) = r.feed s u := by
  have hp := mergeProperties_copied s r.properties h.properties
  have hm : (r.feed s (u.copied s)).messages = (r.feed s u).messages := by
    rcases messages_feed s r u with ⟨ho, -, hnew⟩ | ⟨ms, m, hr, hd, hnew⟩
    · rw [hnew, messages_feed_of_opens s (u := u.copied s) ho]
      rfl
    · rw [hnew, messages_feed_of_last s (u := u.copied s) hr hd]
      rfl
  simp only [Response.feed] at hm ⊢
  rw [hm]
  simp only [Update.copied, hp]

theorem feedAll_copied (r : Response) {us : List Update} (h : ∀ u ∈ us, u.Formed s) :
    feedAll s r (us.map (Update.copied s)) = feedAll s r us := by
  induction us generalizing r with
  | nil => rfl
  | cons u us ih =>
    obtain ⟨hu, hus⟩ := List.forall_mem_cons.1 h
    have ih := ih (r.feed s u) hus
    simp only [feedAll, List.map_cons, List.foldl_cons] at ih ⊢
    rw [feed_copied r hu, ih]

/-- **Refolding a response that obeys its rules** is folding its updates, with those behind them. -/
theorem refold_of_formed {v : Value} {more : List Update} (h : (s.response v).Formed s)
    (hm : ∀ u ∈ more, u.Formed s) (merge : Bool) :
    s.refold v more merge =
      .ok ((feedAll s .empty ((s.response v).toUpdates ++ more)).settled s merge) := by
  have hu := h.toUpdates
  have hread : ((s.response v).toUpdates.map fun u => (u.copied s).toValue).map s.update =
      (s.response v).toUpdates.map (Update.copied s) := by
    rw [List.map_map]
    exact List.map_congr_left fun u _ => s.update_toValue (u.copied s)
  have hall : ∀ u ∈ (s.response v).toUpdates ++ more, u.Formed s :=
    List.forall_mem_append.2 ⟨hu, hm⟩
  have hfold : feedAll s .empty ((s.response v).toUpdates.map (Update.copied s) ++ more) =
      feedAll s .empty ((s.response v).toUpdates ++ more) := by
    rw [feedAll_append, feedAll_append, feedAll_copied _ hu]
  rw [Store.refold, updatesOf_of_formed h]
  change Response.ofUpdates s (_ ++ more) merge = _
  rw [hread, Response.ofUpdates, hfold, ← ofUpdates_of_formed hall]
  rfl

end

end Reassembly
