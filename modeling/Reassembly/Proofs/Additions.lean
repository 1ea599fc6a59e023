import Reassembly.Proofs.Growth
import Reassembly.Proofs.Refold
import Reassembly.Proofs.Streams

/-!
# One addition to a list of messages

A call that adds to a list of messages makes a batch, or fails. The batch goes to the end of the
list as a whole; nothing else of what is in the store changes.

* `keptContents_cases`: what a filter leaves of an update.
* `Store.Added`: what each call gives, and what the batch is: the messages of the response, of the
  response that the updates make, or one message that says what the update says.
* `Store.Takes`: a call does that, and the list grows by the batch.
* `takes_response`, `takes_update`, `takes_updates`: so it is with the three ways.
* `takes_add`: and with each call, also when there is no list.
-/
namespace Reassembly

open Store

/-! ## Filters -/

/-- Whether an item passes. Without a filter all do. -/
def passes (keep : Option ItemFilter) (item : Value) : Bool :=
  match keep with
  | none => true
  | some keep => (keep item).toOption.getD false

/-- A filter fails on the first item on which it fails, or gives those that pass, in their order. -/
theorem keptItems_cases (keep : ItemFilter) (items : List Value) :
    (∃ f before item after, keptItems keep items = .error f ∧ items = before ++ item :: after ∧
      (∀ b ∈ before, (keep b).isOk = true) ∧ keep item = .error f) ∨
    keptItems keep items = .ok (items.filter (passes (some keep))) ∧
      ∀ item ∈ items, (keep item).isOk = true := by
  induction items with
  | nil => exact Or.inr ⟨rfl, fun item h => by cases h⟩
  | cons v vs ih =>
    cases hv : keep v with
    | error f =>
      refine Or.inl ⟨f, [], v, vs, ?_, rfl, (fun b h => by cases h), hv⟩
      simp only [keptItems, hv]
    | ok kept =>
      rcases ih with ⟨f, before, item, after, hf, hvs, hbefore, hitem⟩ | ⟨hok, hall⟩
      · refine Or.inl ⟨f, v :: before, item, after, ?_, by rw [hvs, List.cons_append], ?_, hitem⟩
        · simp only [keptItems, hv, hf, Except.map]
        · refine List.forall_mem_cons.2 ⟨?_, hbefore⟩
          rw [hv]
          rfl
      · refine Or.inr ⟨?_, List.forall_mem_cons.2 ⟨by rw [hv]; rfl, hall⟩⟩
        have hpass : passes (some keep) v = kept := by simp [passes, hv, Except.toOption]
        simp only [keptItems, hv, hok, Except.map, List.filter_cons, hpass]

theorem keptContents_cases (keep : Option ItemFilter) (m : Message) :
    (∃ filter f before item after, keep = some filter ∧ keptContents keep m = .error f ∧
      m.contents = before ++ item :: after ∧ (∀ b ∈ before, (filter b).isOk = true) ∧
      filter item = .error f) ∨
    keptContents keep m = .ok (m.contents.filter (passes keep)) ∧
      ∀ filter ∈ keep, ∀ item ∈ m.contents, (filter item).isOk = true := by
  cases keep with
  | none =>
    refine Or.inr ⟨?_, fun filter hf => by cases hf⟩
    have hall : m.contents.filter (passes none) = m.contents :=
      List.filter_eq_self.2 fun item _ => rfl
    rw [hall]
    rfl
  | some filter =>
    rcases keptItems_cases filter m.contents with ⟨f, before, item, after, hf, h⟩ | ⟨hok, hall⟩
    · exact Or.inl ⟨filter, f, before, item, after, rfl, hf, h⟩
    · refine Or.inr ⟨hok, fun other ho => ?_⟩
      cases ho
      exact hall

/-! ## What a call gives -/

/-- The update as a message of its own, with some of its items. -/
def Update.alone (u : Update) (contents : List Value) : Message where
  role := u.role
  contents
  author := u.author
  created := u.created
  id := .null
  raw := u.raw
  properties := u.properties

/-- What a call in the store `t` gives, and the batch that it makes. The batch is read in the store
`u` that the call leaves, with the list as it was. The list is there or it is null. -/
inductive Store.Added (t u : Store) : (present : Bool) → Addition → Except Failure Value →
    List Value → Prop where
  | noList (addition) : t.Added u false addition (.error (.absent .messages)) []
  | noResponse : t.Added u true (.response .null) (.error (.absent .response)) []
  | response {r} (hr : r ≠ .null) : t.Added u true (.response r) (.ok .null) (t.responseMessages r)
  | noUpdates (mode sized) :
      t.Added u true (.updates mode sized none) (.error (.absent .updates)) []
  /-- The source fails, or the run is cancelled. -/
  | brokenOff {mode sized source f}
      (hf : (reconstruct t false mode true (source.map t.update)).outcome = .error f) :
      t.Added u true (.updates mode sized (some source)) (.error f) []
  | updates {mode sized source r batch}
      (hr : (reconstruct t false mode true (source.map t.update)).outcome = .ok r)
      (alike : List.Forall₂ (t.AlikeIn u) (r.messages.map (·.toValue)) batch) :
      t.Added u true (.updates mode sized (some source)) (.ok .null) batch
  | noUpdate (keep) : t.Added u true (.update .null keep) (.error (.absent .update)) []
  | noRole {v keep} (hv : v ≠ .null) (role : (t.update v).role = .null) :
      t.Added u true (.update v keep) (.error (.absent .role)) []
  /-- The filter fails on an item. -/
  | noFilter {v keep f before item after} (hv : v ≠ .null) (role : (t.update v).role ≠ .null)
      (contents : (t.update v).contents = before ++ item :: after)
      (first : ∀ b ∈ before, (keep b).isOk = true) (fails : keep item = .error f) :
      t.Added u true (.update v (some keep)) (.error f) []
  /-- No item passes. -/
  | nothing {v keep} (hv : v ≠ .null) (role : (t.update v).role ≠ .null)
      (tested : ∀ filter ∈ keep, ∀ item ∈ (t.update v).contents, (filter item).isOk = true)
      (contents : (t.update v).contents.filter (passes keep) = []) :
      t.Added u true (.update v keep) (.ok .null) []
  | message {v keep m} (hv : v ≠ .null) (role : (t.update v).role ≠ .null)
      (tested : ∀ filter ∈ keep, ∀ item ∈ (t.update v).contents, (filter item).isOk = true)
      (contents : (t.update v).contents.filter (passes keep) ≠ [])
      (alike : t.AlikeIn u
        ((t.update v).alone ((t.update v).contents.filter (passes keep))).toValue m) :
      t.Added u true (.update v keep) (.ok .null) [m]

theorem Store.Added.batch_of_error {t u : Store} {present : Bool} {addition : Addition}
    {outcome : Except Failure Value} {batch : List Value}
    (h : t.Added u present addition outcome batch) {f : Failure} (hf : outcome = .error f) :
    batch = [] := by
  cases h <;> first | rfl | cases hf

/-- What is added is what it should be: a response or an update that obeys its rules, or updates
that do, of a source that does not fail if it is a list. The messages of a response have cells of
their own. -/
def Addition.Proper (s : Store) : Addition → Prop
  | .response r =>
    r = .null ∨ s.formed .response r = true ∧ s.Holds [] r ∧
      ∀ m ∈ s.responseMessages r, m.isShareable = false
  | .updates _ _ none => True
  | .updates _ sized (some source) =>
    (sized = true → source.failure = none) ∧ ∀ u ∈ source.updates, s.IsUpdate [] u
  | .update u _ => u = .null ∨ s.IsUpdate [] u

instance (s : Store) : (addition : Addition) → Decidable (addition.Proper s)
  | .response r =>
    inferInstanceAs (Decidable (r = .null ∨ s.formed .response r = true ∧ s.Holds [] r ∧
      ∀ m ∈ s.responseMessages r, m.isShareable = false))
  | .updates _ _ none => .isTrue trivial
  | .updates _ sized (some source) =>
    inferInstanceAs (Decidable ((sized = true → source.failure = none) ∧
      ∀ u ∈ source.updates, s.IsUpdate [] u))
  | .update u _ => inferInstanceAs (Decidable (u = .null ∨ s.IsUpdate [] u))

/-- A call does what it should, and the list grows by the batch. -/
structure Store.Takes (s : Store) (ref : Nat) (present : Bool) (addition : Addition)
    (effect : Effect) (batch : List Value) : Prop where
  added : s.Added (effect.1.write (.shared ref) (s.cell ref)) present addition effect.2 batch
  grown : s.Grown ref batch effect.1

/-! ## The three ways -/

section
variable {s : Store} {ref : Nat} {old : List Value}

theorem responseMessages_of_head {v : Value} {messages : Value} {items fields : List Value}
    (hv : s.head v = .object .response (messages :: fields)) (hm : s.head messages = .list items) :
    s.responseMessages v = items := by
  have hplace : Kind.response.place? "messages" = some 0 := rfl
  have hmember : s.member v "messages" = messages := by
    rw [member_of_place s hv hplace]
    rfl
  rw [responseMessages, hmember, elements, elements?, hm]
  rfl

theorem ne_null_of_object {v : Value} {k : Kind} {fields : List Value}
    (hv : s.head v = .object k fields) : v ≠ .null := by
  rintro rfl
  cases hv

theorem addResponseTo_of_ne_null (ref : Nat) {v : Value} (hv : v ≠ .null) :
    s.addResponseTo (.shared ref) v = s.growBy (.shared ref) (.ok (s.responseMessages v)) := by
  have hadd : addResponse s true v = .ok (s.responseMessages v) := by
    cases v <;> first | rfl | exact absurd rfl hv
  show s.growBy (.shared ref) (addResponse s true v) = _
  rw [hadd]

/-- **The messages of a response** go to the end of the list. -/
theorem takes_response (hs : s.Sound []) (hl : s.cell ref = .list old) {r : Value}
    (hp : (Addition.response r).Proper s) :
    ∃ batch, s.Takes ref true (.response r) (s.add (.shared ref) (.response r)) batch := by
  rcases hp with rfl | ⟨hf, hr, hplain⟩
  · exact ⟨[], .noResponse, .refl hs ref⟩
  · obtain ⟨-, messages, items, hitems, -, -, hhead⟩ := formed_response hf
    have hr0 := ne_null_of_object hhead
    have hread := responseMessages_of_head hhead hitems
    have hheld : ∀ m ∈ s.responseMessages r, s.Holds [] m := by
      rw [hread]
      have hmessages := holds_object.1 (hhead ▸ hs.head hr) messages (by simp)
      exact holds_list.1 (hitems ▸ hs.head hmessages)
    have hadd : s.add (.shared ref) (.response r) =
        s.growBy (.shared ref) (.ok (s.responseMessages r)) := addResponseTo_of_ne_null ref hr0
    have hgrown := grown_growBy hs hl hheld
    rw [internAll_of_plain hplain] at hgrown
    rw [hadd]
    refine ⟨s.responseMessages r, ?_, hgrown⟩
    rw [growBy_list hl]
    exact .response hr0

/-! ### One update -/

theorem newMessage_of_formed {m : Message} (h : m.Formed s) {contents : List Value}
    (hc : ∀ c ∈ contents, s.formed .content c = true) :
    newMessage s m contents =
      .ok ({ m with
        contents, id := .null
        properties := (Rule.optional .properties).copied s m.properties } : Message).toValue := by
  let given : Entries Value :=
    [(.text "role", m.role), (.text "contents", .list contents), (.text "author_name", m.author),
      (.text "created_at", m.created), (.text "raw_representation", m.raw),
      (.text "additional_properties", m.properties)]
  have named : List.Forall₂ (fun f v => f.take given = .ok v ∧ s.obeys f.rule v = true)
      Kind.message.fields
      [m.role, .list contents, m.author, m.created, .null, m.raw, m.properties] :=
    .cons ⟨take_of_get? rfl fun _ => rfl, h.role⟩
      (.cons ⟨take_of_get? rfl fun _ => rfl, obeys_contents.2 hc⟩
      (.cons ⟨take_of_get? rfl fun _ => rfl, h.author⟩
      (.cons ⟨take_of_get? rfl fun _ => rfl, h.created⟩
      (.cons ⟨take_of_missing rfl rfl, rfl⟩
      (.cons ⟨take_of_get? rfl fun _ => rfl, rfl⟩
      (.cons ⟨take_of_get? rfl fun _ => rfl, h.properties⟩ .nil))))))
  have role := copied_optional (s := s) (r := .one .role) (fun _ => rfl) m.role
  have created := copied_optional (s := s) (r := .timestamp) (fun _ => rfl) m.created
  have id := copied_optional (s := s) (r := .text) (fun _ => rfl) .null
  rw [newMessage, construct_of_obeys named]
  simp only [Kind.fields, textField, timeField, rawField, propertiesField, authorField,
    contentsField, List.zipWith_cons_cons, List.zipWith_nil_right, role, created, id]
  rfl

theorem message_of_update {v : Value} (hf : s.formed .update v = true) :
    s.message v =
      { (s.update v).alone (s.update v).contents with id := (s.update v).messageId } := by
  obtain ⟨-, contents, hc, hhead⟩ := formed_update hf
  have hitems : s.items contents = (s.update v).contents := by simp only [Store.items, hc]
  unfold Store.message
  simp only [hhead, hitems]
  rfl

theorem formed_alone {u : Update} (h : u.Formed s) {contents : List Value}
    (hc : ∀ c ∈ contents, c ∈ u.contents) : (u.alone contents).Formed s where
  role := h.role
  contents := fun c hm => h.contents c (hc c hm)
  author := h.author
  created := h.created
  id := rfl
  properties := h.properties

theorem holds_alone {aside : List Nat} {u : Update} (h : s.Holds aside u.toValue)
    {contents : List Value} (hc : ∀ c ∈ contents, c ∈ u.contents) :
    s.Holds aside (u.alone contents).toValue := by
  obtain ⟨role, uContents, author, -, -, -, created, -, -, raw, properties⟩ := holds_update.1 h
  exact holds_message.2
    ⟨role, fun c hm => uContents c (hc c hm), author, created, holds_null, raw, properties⟩

theorem alike_copied {v : Value} (h : s.obeys (.optional .properties) v = true) :
    s.Alike v ((Rule.optional .properties).copied s v) := by
  rcases obeys_properties.1 h with rfl | ⟨es, hes, -⟩
  · exact alike_of_head rfl
  · have hn : v ≠ .null := by
      rintro rfl
      cases hes
    have hentries : s.entries? v = some es := by simp only [Store.entries?, hes]
    rw [Rule.copied, if_neg hn, Rule.copied, hentries]
    exact alike_of_head hes

theorem addFiltered_of_ne_null {v : Value} (hv : v ≠ .null) (keep : Option ItemFilter) :
    addFiltered s true v keep =
      if (s.message v).role = .null then .error (.absent .role)
      else
        match keptContents keep (s.message v) with
        | .error f => .error f
        | .ok contents =>
          if contents.isEmpty then .ok []
          else ((newMessage s (s.message v) contents).orFail).map fun m => [m] := by
  cases v <;> first | rfl | exact absurd rfl hv

theorem newMessage_of_update (hs : s.Sound []) {v : Value} (hu : s.IsUpdate [] v)
    {contents : List Value} (hc : ∀ c ∈ contents, c ∈ (s.update v).contents) :
    ∃ made, newMessage s (s.message v) contents = .ok made ∧ s.Holds [] made ∧
      s.Alike ((s.update v).alone contents).toValue made := by
  have hformed := (formed_update hu.formed).1
  have hitems : ∀ c ∈ contents, s.formed .content c = true := (formed_alone hformed hc).contents
  have hmessage : (s.message v).Formed s := by
    rw [message_of_update hu.formed]
    exact { formed_alone hformed fun c h => h with id := hformed.messageId }
  have hheld := holds_alone (hu.read_holds hs) hc
  rw [newMessage_of_formed hmessage hitems, message_of_update hu.formed]
  refine ⟨_, rfl, ?_, ?_⟩
  · obtain ⟨role, items, author, created, id, raw, properties⟩ := holds_message.1 hheld
    exact holds_message.2 ⟨role, items, author, created, id, raw, holds_copied hs properties⟩
  · refine alikeIn_object rfl rfl ?_
    refine .cons (fun _ => rfl) (.cons (fun _ => rfl) (.cons (fun _ => rfl) (.cons (fun _ => rfl)
      (.cons (fun _ => rfl) (.cons (fun _ => rfl) (.cons ?_ .nil))))))
    exact alike_copied hformed.properties

/-- An update with a role whose items have been through the filter. -/
theorem takes_kept (hs : s.Sound []) (hl : s.cell ref = .list old) {v : Value} (hv : v ≠ .null)
    (hu : s.IsUpdate [] v) {keep : Option ItemFilter} (hr : (s.update v).role ≠ .null)
    (hall : ∀ filter ∈ keep, ∀ item ∈ (s.update v).contents, (filter item).isOk = true) :
    ∃ batch, s.Takes ref true (.update v keep)
      (s.growBy (.shared ref)
        (if ((s.update v).contents.filter (passes keep)).isEmpty then .ok []
        else ((newMessage s (s.message v) ((s.update v).contents.filter (passes keep))).orFail).map
          fun m => [m])) batch := by
  by_cases hn : (s.update v).contents.filter (passes keep) = []
  · have hnone : ∀ x ∈ ([] : List Value), s.Holds [] x := fun x hx => by cases hx
    rw [if_pos (List.isEmpty_iff.2 hn)]
    refine ⟨[], ?_, grown_growBy hs hl hnone⟩
    rw [growBy_list hl]
    exact .nothing hv hr hall hn
  · have hkept : ∀ c ∈ (s.update v).contents.filter (passes keep), c ∈ (s.update v).contents :=
      fun c hc => (List.mem_filter.1 hc).1
    obtain ⟨made, hnew, hmade, hsame⟩ := newMessage_of_update hs hu hkept
    obtain ⟨t, got, hgrow, hgrown, hlike⟩ :=
      growBy_alike hs hl (List.forall_mem_singleton.2 hmade)
    obtain ⟨m, rest, hm, hrest, rfl⟩ := List.forall₂_cons_left_iff.1 hlike
    cases hrest
    have hfirst : s.AlikeIn s _ made := hsame
    have hout : (Checked.orFail (.ok made)).map (fun m => [m]) = .ok [made] := rfl
    rw [if_neg (by rwa [List.isEmpty_iff]), hnew, hout, hgrow]
    exact ⟨[m], .message hv hr hall hn (hfirst.trans hm), hgrown⟩

/-- **One update** goes to the end of the list as a message, if it has a role and something in it
passes the filter. -/
theorem takes_update (hs : s.Sound []) (hl : s.cell ref = .list old) {v : Value}
    {keep : Option ItemFilter} (hp : (Addition.update v keep).Proper s) :
    ∃ batch, s.Takes ref true (.update v keep) (s.add (.shared ref) (.update v keep)) batch := by
  have hadd : s.add (.shared ref) (.update v keep) =
      s.growBy (.shared ref) (addFiltered s true v keep) := rfl
  rw [hadd]
  by_cases hv : v = .null
  · subst hv
    exact ⟨[], .noUpdate keep, .refl hs ref⟩
  · have hu := hp.resolve_left hv
    have hm := message_of_update hu.formed
    have hrole : (s.message v).role = (s.update v).role := by
      rw [hm]
      rfl
    have hcontents : (s.message v).contents = (s.update v).contents := by
      rw [hm]
      rfl
    rw [addFiltered_of_ne_null hv, hrole]
    by_cases hr : (s.update v).role = .null
    · rw [if_pos hr]
      exact ⟨[], .noRole hv hr, .refl hs ref⟩
    · rw [if_neg hr]
      rcases keptContents_cases keep (s.message v) with
        ⟨filter, f, before, item, after, rfl, hf, hitems, hbefore, hitem⟩ | ⟨hok, hall⟩
      · rw [hcontents] at hitems
        rw [hf]
        exact ⟨[], .noFilter hv hr hitems hbefore hitem, .refl hs ref⟩
      · rw [hcontents] at hok hall
        rw [hok]
        exact takes_kept hs hl hv hu hr hall

/-! ### A source of updates -/

theorem reconstruct_empty (s : Store) {source : Source Value} (hu : source.updates = [])
    (hf : source.failure = none) (mode : Mode) :
    ∃ r, (reconstruct s false mode true (source.map s.update)).outcome = .ok r ∧
      r.messages = [] := by
  have hnone : (source.map s.update).updates = [] := by simp [Source.map, hu]
  have hc : ∀ j, ¬((source.map s.update).seenIn mode).CancelledAt j := by
    rintro j ⟨c, -, -, hlt, -⟩
    rw [Source.updates_seenIn, hnone] at hlt
    exact Nat.not_lt_zero _ hlt
  have hrun := (reconstruct_of_success s false true mode hc hf).1
  rw [hnone] at hrun
  exact ⟨_, hrun, rfl⟩

theorem forall₂_alikeIn_trans {s t u : Store} {as bs cs : List Value}
    (h : List.Forall₂ (s.AlikeIn t) as bs) (k : List.Forall₂ (t.AlikeIn u) bs cs) :
    List.Forall₂ (s.AlikeIn u) as cs :=
  forall₂_alikeIn_iff.2 fun depth =>
    (forall₂_alikeIn_iff.1 h depth).trans (forall₂_alikeIn_iff.1 k depth)

theorem responseMessages_of_alikeIn {s t : Store} {aside : List Nat} (ht : t.Sound aside)
    {r : Response} {v : Value} (hv : t.Holds aside v) (h : s.AlikeIn t r.toValue v) :
    v ≠ .null ∧
      List.Forall₂ (s.AlikeIn t) (r.messages.map (·.toValue)) (t.responseMessages v) ∧
      ∀ m ∈ t.responseMessages v, t.Holds aside m := by
  obtain ⟨fields, hhead, hparts⟩ := h.object rfl
  obtain ⟨messages, rest, hmessages, -, rfl⟩ := List.forall₂_cons_left_iff.1 hparts
  obtain ⟨items, hitems, hlike⟩ := hmessages.list rfl
  have hread := responseMessages_of_head hhead hitems
  rw [hread]
  have hheld := holds_object.1 (hhead ▸ ht.head hv) messages (by simp)
  exact ⟨ne_null_of_object hhead, hlike, holds_list.1 (hitems ▸ ht.head hheld)⟩

/-- **The messages that updates make** go to the end of the list when the source has ended. If it
fails, or the run is cancelled, the list stays as it is. -/
theorem takes_updates (hs : s.Sound []) (hl : s.cell ref = .list old) {mode : Mode} {sized : Bool}
    {source : Option (Source Value)} (hp : (Addition.updates mode sized source).Proper s) :
    ∃ batch, s.Takes ref true (.updates mode sized source)
      (s.add (.shared ref) (.updates mode sized source)) batch := by
  cases source with
  | none => exact ⟨[], .noUpdates mode sized, .refl hs ref⟩
  | some source =>
    obtain ⟨hsized, hu⟩ := hp
    have hneed : needMessages (Value.shared ref != .null) = .ok () := rfl
    by_cases hskip : (mode = .sync && sized && source.updates.isEmpty) = true
    · -- nothing is run, and a run would make nothing
      have hadd : s.add (.shared ref) (.updates mode sized (some source)) = (s, .ok .null) := by
        simp only [Store.add, addSourceTo, hneed, if_pos hskip]
      simp only [Bool.and_eq_true] at hskip
      obtain ⟨r, hr, hnone⟩ :=
        reconstruct_empty s (List.isEmpty_iff.1 hskip.2) (hsized hskip.1.2) mode
      rw [hadd]
      refine ⟨[], .updates hr ?_, .refl hs ref⟩
      rw [hnone]
      exact .nil
    · obtain ⟨hlater, hends⟩ := toResponse_ends hs false mode true hu
      simp only [Store.add, addSourceTo, hneed, if_neg hskip]
      cases hrun : s.toResponse mode (.bool true) source with
      | mk t outcome =>
        rw [hrun] at hlater hends
        have hgrown : s.Grown ref [] t := .of_extends hlater.sound hlater.frame.to_extends
        cases hr : (reconstruct s false mode true (source.map s.update)).outcome with
        | error f =>
          rw [hr] at hends
          have hout : outcome = .error f := hends
          rw [hout]
          exact ⟨[], .brokenOff hr, hgrown⟩
        | ok r =>
          rw [hr] at hends
          obtain ⟨v, hv, hheld, hlike⟩ := hends
          have hout : outcome = .ok v := hv
          rw [hout]
          obtain ⟨hv0, hmade, hheld⟩ := responseMessages_of_alikeIn hlater.sound hheld hlike
          have hsame : t.cell ref = s.cell ref :=
            hlater.frame.cell ref (lt_size_of_list hl) List.not_mem_nil
          obtain ⟨u, got, hgrow, hmore, hgot⟩ := growBy_alike hlater.sound (hsame.trans hl) hheld
          rw [hsame] at hgot
          simp only [addResponseTo_of_ne_null ref hv0, hgrow]
          exact ⟨got, .updates hr (forall₂_alikeIn_trans hmade hgot), hgrown.trans hmore⟩

/-- **Each addition** does what it should, and the list grows by its batch. -/
theorem takes_add (hs : s.Sound []) (hl : s.cell ref = .list old) {list : Value}
    (hlist : list = .shared ref ∨ list = .null) {addition : Addition}
    (hp : addition.Proper s) :
    ∃ batch, s.Takes ref (list != .null) addition (s.add list addition) batch := by
  rcases hlist with rfl | rfl
  · cases addition with
    | response r => exact takes_response hs hl hp
    | updates mode sized source => exact takes_updates hs hl hp
    | update v keep => exact takes_update hs hl hp
  · have hadd : s.add .null addition = (s, .error (.absent .messages)) := by
      cases addition <;> rfl
    rw [hadd]
    exact ⟨[], .noList addition, .refl hs ref⟩

end

end Reassembly
