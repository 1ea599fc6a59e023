import Reassembly.Proofs.Workshop

/-!
# A fold with all its checks

Inside of a fold objects are made and assigned to, and every one of these steps is checked: an
opening message is constructed, author, time, role and id are assigned to a message, counters are
summed, properties merged, and what coalescing merges is constructed and given its properties. None
of these checks can fail for updates that obey their rules, and in a workshop all updates do, as
long as nothing blank is given as bytes.

* `Response.feedChecked`, `Store.feedChecked`: one step of a fold, its checks written out.
* `feedChecked_of_formed`: they find nothing, and the step is the plain one.
* `mergedChecked_of_formed`: nor do those for a merged item.
* `failure?_eq_some_iff`, `toResponse_error_iff`: with what failure a source ends, and so a run.
* `Store.WellFormed`, `wellFormed_of_tidy`: what the objects of a tidy store are like.
* `reconstruction_unfailing`: in every workshop.
* `whisper_not_wellFormed`: blank bytes become an author that says nothing.
-/
namespace Reassembly

open Store

/-! ## The checks -/

/-- What an assignment leaves in a field; null is not assigned. -/
def assigned (s : Store) (f : Field) (new old : Value) : Checked Value :=
  if new = .null then .ok old else checkField s f new

def roleField : Field :=
  { name := "role", rule := .optional (.one .role), default := some Store.userRole }

example : Kind.message.fields =
    [roleField, contentsField, authorField, timeField, textField "message_id", rawField,
      propertiesField] := rfl

/-- The four assignments to the message that takes an update in. -/
def Message.absorbChecked (s : Store) (m : Message) (u : Update) : Checked Message := do
  let author ← assigned s authorField u.author m.author
  let created ← assigned s timeField u.created m.created
  let role ← assigned s roleField u.role m.role
  let id ← assigned s (textField "message_id") (real u.messageId) m.id
  return { m with role, contents := m.contents ++ kept s u, author, created, id }

def absorbLastChecked (s : Store) (u : Update) : List Message → Checked (List Message)
  | [] => .ok []
  | [m] => (m.absorbChecked s u).map ([·])
  | m :: n :: ms => (absorbLastChecked s u (n :: ms)).map (m :: ·)

/-- The counters can be summed. -/
def Usage.isCounted (s : Store) (a : Usage) : Bool :=
  s.obeys (.optional .integer) a.input && s.obeys (.optional .integer) a.output &&
    s.obeys (.optional .integer) a.total && s.obeys (.optional .counts) a.counts

def addItemChecked (s : Store) (total item : Value) : Checked Value :=
  match s.usageItem? item with
  | none | some .null => .ok total
  | some details =>
    if (s.usage total).isCounted s && (s.usage details).isCounted s then
      .ok ((s.usage total).add s (s.usage details)).toValue
    else .fail .notInteger

def addItemsChecked (s : Store) (total : Value) : List Value → Checked Value
  | [] => .ok total
  | c :: cs => (addItemChecked s total c).bind fun total => addItemsChecked s total cs

/-- Only a map can be merged, and only into a map. -/
def mergePropertiesChecked (s : Store) (old new : Value) : Checked Value :=
  if s.obeys (.optional .properties) old && s.obeys (.optional .properties) new then
    .ok (mergeProperties s old new)
  else .fail .notMap

namespace Response

/-- The messages with a new one at the end, if the update opens one: its constructor is given the
role. -/
def targetChecked (s : Store) (r : Response) (u : Update) : Checked (List Message) :=
  if r.opens u then
    (construct s .message [(.text "role", r.openingRole u)]).map fun m => r.messages ++ [s.message m]
  else .ok r.messages

/-- Folds in one update, with all checks on the way. Nobody checks what is assigned to the other
fields of a response. -/
def feedChecked (s : Store) (r : Response) (u : Update) : Checked Response := do
  let opened ← r.targetChecked s u
  let messages ← absorbLastChecked s u opened
  let usage ← addItemsChecked s r.usage u.contents
  let properties ← mergePropertiesChecked s r.properties u.properties
  return { r.feed s u with messages, usage, properties }

end Response

/-- Feeds an update to an accumulator, with all checks. -/
def Store.feedChecked (s : Store) (accumulator update : Value) : Checked Store :=
  let a := s.accumulator accumulator
  (a.response.feedChecked s (s.update update)).map fun response =>
    s.write accumulator { a with updates := a.updates + 1, response }.toValue

/-- The item that stands for a run of items: its constructor is given the text, and then it is
assigned its properties. -/
def mergedChecked (s : Store) (k : Kind) (first : Value) (others : List Value) : Checked Value := do
  let text := String.join (itemText s k first :: others.map (itemText s k))
  let made ← construct s k [(.text "text", .text text)]
  let properties ← assigned s propertiesField (itemProperties s k first) .null
  match made with
  | .object k [annotations, raw, _, text] => return .object k [annotations, raw, properties, text]
  | _ => .fail .notObject

/-! ## They find nothing -/

section
variable {s : Store}

theorem assigned_of_obeys (f : Field) (old : Value) {new : Value} (h : s.obeys f.rule new = true)
    (hc : f.rule.copied s new = new) : assigned s f new old = .ok (newer new old) := by
  unfold assigned newer
  split
  · rfl
  · rw [checkField, Checked.within_ok_iff]
    exact (checkRule_of_obeys (construct s) h).trans (congrArg Except.ok hc)

theorem absorbChecked_of_formed {u : Update} (hu : u.Formed s) (m : Message) :
    m.absorbChecked s u = .ok (m.absorb s u) := by
  have author := assigned_of_obeys authorField m.author hu.author rfl
  rw [← Message.absorb_author_of_obeys hu.author] at author
  have created := assigned_of_obeys timeField m.created hu.created
    (copied_optional (fun _ => rfl) _)
  have role := assigned_of_obeys roleField m.role hu.role
    (copied_optional (fun _ => rfl) _)
  have id := assigned_of_obeys (textField "message_id") m.id (obeys_real hu.messageId)
    (copied_optional (fun _ => rfl) _)
  rw [Message.absorbChecked, author, created, role, id]
  rfl

theorem absorbLastChecked_of_formed {u : Update} (hu : u.Formed s) (ms : List Message) :
    absorbLastChecked s u ms = .ok (absorbLast s u ms) := by
  fun_induction absorbLast s u ms with
  | case1 => rfl
  | case2 m =>
    rw [absorbLastChecked, absorbChecked_of_formed hu]
    rfl
  | case3 m n ms ih =>
    rw [absorbLastChecked, ih]
    rfl

theorem construct_message_of_role {role : Value}
    (h : s.obeys (.optional (.one .role)) role = true) :
    construct s .message [(.text "role", role)] = .ok (Message.opened role).toValue := by
  have named : List.Forall₂
      (fun f v => f.take [(.text "role", role)] = .ok v ∧ s.obeys f.rule v = true)
      Kind.message.fields [role, .list [], .null, .null, .null, .null, .null] :=
    .cons ⟨take_of_get? rfl fun _ => rfl, h⟩ (.cons ⟨rfl, rfl⟩ (.cons ⟨rfl, rfl⟩ (.cons ⟨rfl, rfl⟩
      (.cons ⟨rfl, rfl⟩ (.cons ⟨rfl, rfl⟩ (.cons ⟨rfl, rfl⟩ .nil))))))
  have hrole := copied_optional (s := s) (r := .one .role) (fun _ => rfl) role
  rw [construct_of_obeys named]
  simp only [Kind.fields, contentsField, authorField, timeField, textField, rawField,
    propertiesField, List.zipWith_cons_cons, List.zipWith_nil_right, hrole]
  rfl

theorem Response.obeys_openingRole {r : Response} {u : Update} (hr : r.Formed s)
    (hu : u.Formed s) : s.obeys (.optional (.one .role)) (r.openingRole u) = true := by
  refine obeys_newer hu.role ?_
  cases hl : r.messages.getLast? with
  | none => rfl
  | some last => exact (hr.messages last (List.mem_of_getLast? hl)).role

theorem targetChecked_of_formed {r : Response} {u : Update} (hr : r.Formed s) (hu : u.Formed s) :
    r.targetChecked s u = .ok (r.target u) := by
  unfold Response.targetChecked Response.target
  split
  · rw [construct_message_of_role (Response.obeys_openingRole hr hu)]
    rfl
  · rfl

theorem isCounted_of_formed {a : Usage} (h : a.Formed s) : a.isCounted s = true := by
  simp [Usage.isCounted, h.input, h.output, h.total, h.counts]

theorem addItemChecked_of_formed {total c : Value}
    (ht : s.obeys (.optional (.one .details)) total = true) (hc : s.formed .content c = true) :
    addItemChecked s total c = .ok (addItem s total c) := by
  unfold addItemChecked addItem
  cases hd : s.usageItem? c with
  | none => rfl
  | some details =>
    by_cases hn : details = .null
    · subst hn
      rfl
    · have hsum := isCounted_of_formed (usage_formed (obeys_of_usageItem? hc hd))
      cases details <;> first
      | exact absurd rfl hn
      | exact if_pos (Bool.and_eq_true_iff.2 ⟨isCounted_of_formed (usage_formed ht), hsum⟩)

theorem addItemsChecked_of_formed {items : List Value} {total : Value}
    (ht : s.obeys (.optional (.one .details)) total = true)
    (hi : ∀ c ∈ items, s.formed .content c = true) :
    addItemsChecked s total items = .ok (addItems s total items) := by
  induction items generalizing total with
  | nil => rfl
  | cons c cs ih =>
    obtain ⟨hc, hcs⟩ := List.forall_mem_cons.1 hi
    rw [addItemsChecked, addItemChecked_of_formed ht hc]
    exact ih (obeys_addItem ht hc) hcs

/-- **The checks of one step** find nothing wrong with an update that obeys its rules. -/
theorem feedChecked_of_formed {r : Response} {u : Update} (hr : r.Formed s) (hu : u.Formed s) :
    r.feedChecked s u = .ok (r.feed s u) := by
  have properties : mergePropertiesChecked s r.properties u.properties =
      .ok (mergeProperties s r.properties u.properties) := by
    rw [mergePropertiesChecked, hr.properties, hu.properties]
    rfl
  rw [Response.feedChecked, targetChecked_of_formed hr hu]
  simp only [bind, Except.bind, absorbLastChecked_of_formed hu,
    addItemsChecked_of_formed hr.usage hu.contents, properties]
  rfl

/-- **The checks for a merged item** find nothing wrong either; of its properties the item gets a
copy. -/
theorem mergedChecked_of_formed {k : Kind} (hk : k = .text ∨ k = .reasoning) {first : Value}
    (hf : s.formed .content first = true) (others : List Value) :
    ∃ item, mergedChecked s k first others = .ok item ∧
      s.Alike (mergedItem s k first others) item := by
  have hp := obeys_itemProperties hf k
  have hassigned : ∃ p, assigned s propertiesField (itemProperties s k first) .null = .ok p ∧
      s.Alike (itemProperties s k first) p := by
    unfold assigned
    split
    · next hn => exact ⟨.null, rfl, hn ▸ .refl s _⟩
    · refine ⟨_, (Checked.within_ok_iff _ _ _).2 (checkRule_of_obeys (construct s) hp), ?_⟩
      exact alike_copied hp
  obtain ⟨p, hassigned, hlike⟩ := hassigned
  have hmade : ∀ t, construct s k [(.text "text", .text t)] =
      .ok (.object k [.null, .null, .null, .text t]) := by
    intro t
    rcases hk with rfl | rfl <;> rfl
  refine ⟨.object k [.null, .null, p,
    .text (String.join (itemText s k first :: others.map (itemText s k)))], ?_, ?_⟩
  · simp only [mergedChecked, hmade, hassigned]
    rfl
  · exact alike_object rfl rfl (.cons (.refl s _) (.cons (.refl s _) (.cons hlike
      (.cons (.refl s _) .nil))))

/-! ## How sources end -/

theorem failure?_append (us : List Value) (pulls : List (Pull Value)) :
    failure? (us.map (.update · false) ++ pulls) = failure? pulls := by
  induction us with
  | nil => rfl
  | cons u us ih => exact ih

theorem failure?_of_cancelled {source : Source Value} {j : Nat} (h : source.CancelledAt j) :
    failure? source.pulls = some .cancelled := by
  obtain ⟨u, more, hp⟩ := Source.pulls_of_cancelled h
  rw [hp, failure?_append]
  rfl

theorem failure?_of_not_cancelled {source : Source Value} (h : ∀ j, ¬source.CancelledAt j) :
    failure? source.pulls = source.failure.map (·.2) := by
  rw [Source.pulls_of_not_cancelled h, failure?_append]
  cases source.failure <;> rfl

/-- **How a source fails**: when it is cancelled, or else by itself. -/
theorem failure?_eq_some_iff {source : Source Value} {f : Failure} :
    failure? source.pulls = some f ↔
      (∃ j, source.CancelledAt j) ∧ f = .cancelled ∨
        (∀ j, ¬source.CancelledAt j) ∧ ∃ after, source.failure = some (after, f) := by
  by_cases hcancel : ∃ j, source.CancelledAt j
  · obtain ⟨j, hj⟩ := id hcancel
    rw [failure?_of_cancelled hj, Option.some.injEq]
    exact ⟨fun h => .inl ⟨hcancel, h.symm⟩, fun h => h.elim (·.2.symm) fun h => absurd hj (h.1 j)⟩
  · have hnone : ∀ j, ¬source.CancelledAt j := fun j hj => hcancel ⟨j, hj⟩
    have failed : source.failure.map (·.2) = some f ↔
        ∃ after, source.failure = some (after, f) := by
      cases source.failure <;> simp [Prod.ext_iff]
    rw [failure?_of_not_cancelled hnone, failed]
    exact ⟨fun h => .inr ⟨hnone, h⟩, fun h => h.elim (fun h => absurd h.1 hcancel) (·.2)⟩

end

/-! ## The objects of a tidy store -/

/-- Nobody, or a name that says something. -/
def Value.IsAuthor (v : Value) : Prop := v = .null ∨ ∃ t, v = .text t ∧ Text.isBlankText t = false

/-- A list of content items. -/
def Store.IsContents (s : Store) (v : Value) : Prop :=
  ∃ items, s.head v = .list items ∧ ∀ c ∈ items, s.isOf .content c = true

/-- What the objects of a store are like. -/
structure Store.WellFormed (s : Store) : Prop where
  /-- objects obey the rules of their kinds -/
  formed : ∀ x k fields, s.cell x = .object k fields → k ≠ .accumulator →
    s.formed k (.shared x) = true
  /-- roles and finish reasons have texts that say something -/
  label : ∀ x k fields, s.cell x = .object k fields → k.isFrozen = true →
    ∃ t, fields = [.text t] ∧ Text.isBlankText t = false
  author : ∀ x k fields, s.cell x = .object k fields → k = .message ∨ k = .update →
    (s.member (.shared x) "author_name").IsAuthor
  contents : ∀ x k fields, s.cell x = .object k fields → k = .message ∨ k = .update →
    s.IsContents (s.member (.shared x) "contents")
  text : ∀ x k fields, s.cell x = .object k fields → k = .text ∨ k = .reasoning →
    ∃ t, s.member (.shared x) "text" = .text t
  /-- so does the response in an accumulator, and the messages in it -/
  progress : ∀ x fields, s.cell x = .object .accumulator fields →
    (s.accumulator (.shared x)).response.Formed s

section
variable {s : Store} {lists : ListKinds}

theorem obeys_member {x : Nat} {k : Kind} {fields : List Value} {name : String} {i : Nat}
    {f : Field} (hx : s.cell x = .object k fields)
    (hall : List.Forall₂ (fun f v => s.obeys f.rule v = true) k.fields fields)
    (hi : k.place? name = some i) (hf : k.fields[i]? = some f) :
    s.obeys f.rule (s.member (.shared x) name) = true := by
  obtain ⟨hlt, hget⟩ := List.getElem?_eq_some_iff.1 hf
  have hlt' : i < fields.length := hall.length_eq ▸ hlt
  rw [member_of_place s (show s.head (.shared x) = _ from hx) hi, List.getElem?_eq_getElem hlt']
  exact hget ▸ hall.get hlt hlt'

theorem wellFormed_of_tidy (ht : s.Tidy lists) : s.WellFormed := by
  have made : ∀ {x k fields}, s.cell x = .object k fields → s.Made lists (.shared x) :=
    fun hx => lt_size_of_cell hx (by simp)
  have formed : ∀ x k fields, s.cell x = .object k fields → k ≠ .accumulator →
      s.formed k (.shared x) = true := fun x k fields hx hk =>
    formed_of_made ht hk (made hx) (isOf_of_head hx (by cases k <;> rfl))
  have fields : ∀ {x k fields}, s.cell x = .object k fields → k ≠ .accumulator →
      List.Forall₂ (fun f v => s.obeys f.rule v = true) k.fields fields := by
    intro x k fs hx hk
    obtain ⟨l, others, hhead, -, hall⟩ := formed_iff.1 (formed x k fs hx hk)
    rw [show s.head (.shared x) = s.cell x from rfl, hx] at hhead
    cases hhead
    exact hall
  refine
    { formed
      label := fun x k fs hx hk => ?label
      author := fun x k fs hx hk => ?author
      contents := fun x k fs hx hk => ?contents
      text := fun x k fs hx hk => ?texts
      progress := fun x fs hx => ?progress }
  case label =>
    obtain ⟨t, ht, hblank⟩ := formed_label hk (formed x k fs hx (by rintro rfl; cases hk))
    rw [show s.head (.shared x) = s.cell x from rfl, hx] at ht
    cases ht
    exact ⟨t, rfl, hblank⟩
  case author =>
    have hall := fields hx (by rcases hk with rfl | rfl <;> decide)
    refine obeys_author.1 (obeys_member (i := 2) (f := authorField) hx hall ?_ ?_) <;>
      rcases hk with rfl | rfl <;> rfl
  case contents =>
    have hall := fields hx (by rcases hk with rfl | rfl <;> decide)
    have hc : s.obeys .contents (s.member (.shared x) "contents") = true := by
      refine obeys_member (i := 1) (f := contentsField) hx hall ?_ ?_ <;>
        rcases hk with rfl | rfl <;> rfl
    obtain ⟨items, hitems, hi⟩ := isListOf_iff.1 hc
    exact ⟨items, hitems, fun c hm => isOf_of_formed (hi c hm)⟩
  case texts =>
    have hall := fields hx (by rcases hk with rfl | rfl <;> decide)
    have ht : s.obeys .textOrEmpty (s.member (.shared x) "text") = true := by
      rcases hk with rfl | rfl <;> exact obeys_member (i := 3) hx hall rfl rfl
    exact obeys_textOrEmpty.1 ht
  case progress =>
    obtain ⟨-, -, -, -, hf, -⟩ := accumulator_of_kind ht (made hx) (kind?_eq_some.2 ⟨fs, hx⟩)
    exact hf

theorem feedChecked_of_tidy (ht : s.Tidy lists) {a u : Value} (ha : s.GivenAs .accumulator a)
    (hu : s.GivenAs .update u) : s.feedChecked a u = .ok (s.feed a u) := by
  obtain ⟨-, -, -, -, hf, -⟩ :=
    accumulator_of_kind ht ha.made.1 (kind?_of_isOf_accumulator ha.2)
  have hread := formed_update_of_made ht hu.made.1 hu.2
  have hgrow := growItemLists_of_formed hf.usage fun c hc => hread.contents c hc
  simp only [Store.feedChecked, Store.feed, feedChecked_of_formed hf hread, hgrow]
  rfl

end

/-! ## All of it -/

/-- The deed makes an object or assigns to one, which may be refused. -/
def Deed.isRefusable : Deed → Bool
  | .make _ _ | .validate _ _ | .assign _ _ _ => true
  | _ => false

/-- A deed that is refused changes nothing. -/
theorem Workshop.perform_of_refused {w : Workshop} {d : Deed} (hd : d.isRefusable = true)
    {f : Failure} (h : (w.perform d).2 = .error f) : (w.perform d).1 = w := by
  have enter : ∀ {e : Except Failure Value}, (w.enter e).2 = .error f → (w.enter e).1 = w := by
    intro e he
    cases e with
    | error g => rfl
    | ok v => cases he
  cases d with
  | make k given => exact enter h
  | validate k v => exact enter h
  | assign target name v =>
    simp only [Workshop.perform] at h ⊢
    split at h
    · rfl
    · cases h
  | _ => cases hd

theorem toResponse_error_iff {s : Store} {lists : ListKinds} (ht : s.Tidy lists) (mode : Mode)
    {coalesce : Value} (hc : s.Given coalesce) {source : Source Value}
    (hu : ∀ u ∈ source.updates, s.GivenAs .update u) {f : Failure} :
    (s.toResponse mode coalesce source).2 = .error f ↔
      failure? (source.seenIn mode).pulls = some f := by
  obtain ⟨more, -, -, hend⟩ := tidy_toResponse ht mode hc.made fun u hm => (hu u hm).made
  split at hend
  · next g hg => rw [hend, hg, Except.error.injEq, Option.some.injEq]
  · next hg =>
    obtain ⟨r, hr, -⟩ := hend
    rw [hr, hg]
    simp

/-- **Reconstruction cannot fail of itself.** Whatever a program has done, with constructors,
validation and assignments that may each be refused, the objects are well formed, and a refusal has
changed nothing; it is only asked not to give blank texts as bytes, which see `whisper`. No update
that is there can make any check in a fold fail, nor any of the checks at its end; and a run over a
source of such updates fails if the source does, and for its reason. -/
theorem reconstruction_unfailing {deeds : List Deed} (ha : Workshop.start.AllowsAll deeds) :
    let w := Workshop.start.run deeds
    let s := w.store
    s.WellFormed ∧
    (∀ d : Deed, d.isRefusable = true → ∀ f, (w.perform d).2 = .error f → (w.perform d).1 = w) ∧
    (∀ a u, s.GivenAs .accumulator a → s.GivenAs .update u →
      s.feedChecked a u = .ok (s.feed a u)) ∧
    (∀ a, s.GivenAs .accumulator a →
      ∃ t r, s.finalize a = (t, .ok r) ∧ t.isOf .response r = true) ∧
    (∀ k, k = .text ∨ k = .reasoning → ∀ first, s.GivenAs .content first → ∀ others,
      ∃ item, mergedChecked s k first others = .ok item ∧
        s.Alike (mergedItem s k first others) item) ∧
    ∀ coalesce, s.Given coalesce → ∀ source : Source Value,
      (∀ u ∈ source.updates, s.GivenAs .update u) →
      (∀ f, (s.toResponse .sync coalesce source).2 = .error f ↔
        ∃ after, source.failure = some (after, f)) ∧
      ∀ f, (s.toResponse .async coalesce source).2 = .error f ↔
        (∃ j, source.CancelledAt j) ∧ f = .cancelled ∨
          (∀ j, ¬source.CancelledAt j) ∧ ∃ after, source.failure = some (after, f) := by
  intro w s
  obtain ⟨kinds, -, ht, -⟩ : w.InOrder := Workshop.inOrder_start.run ha
  refine ⟨wellFormed_of_tidy ht, ?refused, ?fed, ?finalized, ?merged, ?run⟩
  case refused => exact fun d hd f => Workshop.perform_of_refused hd
  case fed => exact fun a u => feedChecked_of_tidy ht
  case finalized =>
    intro a hacc
    obtain ⟨r, hr, more, -, -, -, hresponse⟩ :=
      placed_finalize ht hacc.made.1 (kind?_of_isOf_accumulator hacc.2)
    exact ⟨_, r, Prod.ext rfl hr, hresponse⟩
  case merged =>
    intro k hk first hfirst others
    exact mergedChecked_of_formed hk (formed_of_made ht (by decide) hfirst.made.1 hfirst.2) others
  case run =>
    intro coalesce hc source hu
    refine ⟨fun f => ?_, fun f => ?_⟩
    · have hnever : ¬∃ j, (source.seenIn .sync).CancelledAt j := fun ⟨j, hj⟩ =>
        source.not_cancelledAt_sync j hj
      rw [toResponse_error_iff ht .sync hc hu, failure?_eq_some_iff, source.failure_seenIn]
      exact ⟨fun h => h.elim (fun h => absurd h.1 hnever) (·.2),
        fun h => .inr ⟨source.not_cancelledAt_sync, h⟩⟩
    · exact (toResponse_error_iff ht .async hc hu).trans failure?_eq_some_iff

/-! ## A broadcast -/

/-- An update with a text and a usage item that has lost its counters goes into an accumulator, in
cell 14, and into the transcript of a session. Its author says nothing, and three attempts are
refused. -/
def broadcast : List Deed :=
  [.make .text [(.text "text", .text "Hi")],
    .make .usage [],
    .assign (.shared 10) "details" .null,
    .make .update
      [(.text "role", .text "assistant"), (.text "contents", .list [.shared 8, .shared 10])],
    .assign (.shared 13) "author_name" (.text " "),
    .assign (.shared 13) "contents" (.int 3),
    .make .role [(.text "value", .text " ")],
    .validate .message (.map [(.text "role", .int 1)]),
    .make .accumulator [],
    .feed (.shared 14) (.shared 13),
    .make .session [(.text "session_id", .text "air")],
    .add (.transcript (.shared 16)) (.updates .sync false (some { updates := [.shared 13] }))]

theorem reconstruction_unfailing_broadcast :
    let s := (Workshop.start.run broadcast).store
    s.WellFormed ∧
      s.feedChecked (.shared 14) (.shared 13) = .ok (s.feed (.shared 14) (.shared 13)) ∧
      (∃ t r, s.finalize (.shared 14) = (t, .ok r) ∧ t.isOf .response r = true) ∧
      (∃ item, mergedChecked s .text (.shared 8) [.shared 8] = .ok item) ∧
      (∀ f, (s.toResponse .sync (.bool true) { updates := [.shared 13, .shared 13] }).2 ≠ .error f) ∧
      (s.toResponse .async (.bool true)
        { updates := [.shared 13], failure := some (1, .raised "OSError" "gone") }).2 =
          .error (.raised "OSError" "gone") := by
  intro s
  have allowed : Workshop.start.AllowsAll broadcast := by decide +kernel
  obtain ⟨wellFormed, -, fed, finalized, merged, run⟩ := reconstruction_unfailing allowed
  have accumulator : s.GivenAs .accumulator (.shared 14) := by decide +kernel
  have update : s.GivenAs .update (.shared 13) := by decide +kernel
  obtain ⟨item, hitem, -⟩ := merged .text (.inl rfl) (.shared 8) (by decide +kernel) [.shared 8]
  refine ⟨wellFormed, fed _ _ accumulator update, finalized _ accumulator, ⟨item, hitem⟩,
    fun f hf => ?_, ?_⟩
  · have updates : ∀ u ∈ [.shared 13, .shared 13], s.GivenAs .update u := by simp [update]
    obtain ⟨after, hnone⟩ := ((run (.bool true) (by decide) { updates := _ } updates).1 f).1 hf
    cases hnone
  · have updates : ∀ u ∈ [.shared 13], s.GivenAs .update u := by simp [update]
    refine ((run (.bool true) (by decide) { updates := _, failure := _ } updates).2 _).2
      (.inr ⟨Source.not_cancelledAt_of_none rfl, 1, rfl⟩)

/-- A message is made with bytes for an author, and there are none. -/
def whisper : Deed := .make .message [(.text "author_name", .encoded "")]

/-- The deed is not refused, and it leaves a message with a blank author: an author is asked for
blanks before its bytes are read. -/
theorem whisper_not_wellFormed :
    let w := Workshop.start.perform whisper
    w.2 = .ok (.shared 9) ∧ w.1.store.member (.shared 9) "author_name" = .text "" ∧
      ¬w.1.store.WellFormed := by
  intro w
  have hauthor : w.1.store.member (.shared 9) "author_name" = .text "" := by decide +kernel
  refine ⟨by decide +kernel, hauthor, fun h => ?_⟩
  have hcell : w.1.store.cell 9 = .object .message
      [.shared 2, .shared 8, .text "", .null, .null, .null, .null] := by decide +kernel
  have hname := h.author 9 .message _ hcell (.inl rfl)
  rw [hauthor] at hname
  rcases hname with hnone | ⟨t, ht, hblank⟩
  · cases hnone
  · cases ht
    cases hblank

end Reassembly
