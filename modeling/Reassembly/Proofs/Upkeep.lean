import Reassembly.Proofs.Additions
import Reassembly.Proofs.Bench
import Reassembly.Proofs.Checks
import Reassembly.Proofs.Placing
import Reassembly.Response.Updates

/-!
# What is done to a tidy store

Each operation on the objects of a tidy store leaves it tidy, whether it succeeds or fails, and what
it gives is made well.

* `Store.Leaves`: what an operation leaves.
* `fits_of_obeys`, `made_response`: what obeys its rules and has well made parts is made well.
* `tidy_feed`, `placed_finalize`: the two steps of an accumulator; `tidy_toResponse`: a run.
* `tidy_assign`, `made_of_updatesOf`: assignments, and taking a response apart.
* `leaves_add`: growing a list of messages.
-/
namespace Reassembly

namespace Store

/-- The store is tidy after a call, what was known is still true, and the result is made well. -/
def Leaves (s : Store) (lists : ListKinds) (e : Effect) : Prop :=
  ∃ more, s.Onward lists e.1 more ∧ e.1.Tidy more ∧ ∀ w, e.2 = .ok w → e.1.Made more w

section
variable {s t : Store} {lists more : ListKinds} {v w : Value} {k : Kind} {r : Rule}

theorem Leaves.error (ht : s.Tidy lists) (f : Failure) : s.Leaves lists (s, .error f) :=
  ⟨lists, .refl s lists, ht, nofun⟩

theorem Leaves.null (h : s.Onward lists t more) (ht : t.Tidy more) :
    s.Leaves lists (t, .ok .null) :=
  ⟨more, h, ht, fun w hw => by cases hw; exact made_null⟩

theorem Leaves.after {e : Effect} (h : s.Onward lists t more) (k : t.Leaves more e) :
    s.Leaves lists e := by
  obtain ⟨most, onward, rest⟩ := k
  exact ⟨most, h.trans onward, rest⟩

/-! ## What obeys its rules -/

theorem isOf_of_formed (h : s.formed k v = true) : s.isOf k v = true := by
  obtain ⟨l, fields, hv, hl, -⟩ := formed_iff.1 h
  exact isOf_of_head hv hl

theorem fits_of_obeys (hr : r.listed? = none) (h : s.obeys r v = true) : s.Fits lists r v := by
  induction r with
  | anything => trivial
  | text => exact obeys_text.1 h
  | textOrEmpty => exact obeys_textOrEmpty.1 h
  | label => exact h
  | author => exact (obeys_author.1 h).imp id isLabel_iff.2
  | integer => exact h
  | timestamp => exact h
  | properties => exact h
  | counts => exact h
  | one k => exact isOf_of_formed h
  | many k => cases hr
  | contents => cases hr
  | messages => cases hr
  | optional r ih => exact (obeys_optional.1 h).imp id (ih hr)

theorem made_message {m : Message} (hf : m.Formed s) (he : m.Each (s.Made lists)) :
    s.Made lists m.toValue := by
  refine made_object.2 ⟨(suits_iff (by decide)).2 ?_, ?_⟩
  · exact .cons (fits_of_obeys rfl hf.role)
      (.cons (fun c hc => isOf_of_formed (hf.contents c hc)) (.cons (fits_of_obeys rfl hf.author)
      (.cons (fits_of_obeys rfl hf.created) (.cons (fits_of_obeys rfl hf.id) (.cons trivial
      (.cons (fits_of_obeys rfl hf.properties) .nil))))))
  · simp only [List.forall_mem_cons, made_list]
    exact ⟨he.role, he.contents, he.author, he.created, he.id, he.raw, he.properties, by simp⟩

/-- **A response** that obeys its rules and has well made parts is made well. -/
theorem made_response {r : Response} (hf : r.Formed s) (he : r.Each (s.Made lists)) :
    s.Made lists r.toValue := by
  have messages : ∀ m ∈ r.messages, s.Made lists m.toValue :=
    fun m hm => made_message (hf.messages m hm) (he.messages m hm)
  refine made_object.2 ⟨(suits_iff (by decide)).2 ?_, ?_⟩
  · exact .cons (List.forall_mem_map.2 fun _ _ => rfl) (.cons (fits_of_obeys rfl hf.id)
      (.cons (fits_of_obeys rfl hf.conversationId) (.cons (fits_of_obeys rfl hf.model)
      (.cons (fits_of_obeys rfl hf.created) (.cons (fits_of_obeys rfl hf.finish)
      (.cons (fits_of_obeys rfl hf.usage) (.cons trivial
      (.cons (fits_of_obeys rfl hf.properties) .nil))))))))
  · simp only [List.forall_mem_cons, made_list, List.forall_mem_map]
    exact ⟨messages, he.id, he.conversationId, he.model, he.created, he.finish, he.usage, he.raw,
      he.properties, by simp⟩

/-! ## Accumulators -/

/-- An accumulator of a tidy store: it can be read, and the response in it obeys its rules. -/
theorem accumulator_of_kind (ht : s.Tidy lists) (hv : s.Made lists v)
    (h : s.kind? v = some .accumulator) :
    ∃ response, s.head v = .object .accumulator [(s.accumulator v).coalesce,
        .int (s.accumulator v).updates, response, (s.accumulator v).attributes] ∧
      s.Made lists (s.accumulator v).coalesce ∧ s.Made lists (s.accumulator v).attributes ∧
      (s.accumulator v).response.Formed s ∧ (s.accumulator v).response.Each (s.Made lists) := by
  obtain ⟨fields, hhead⟩ := kind?_eq_some.1 h
  obtain ⟨hsuits, hparts⟩ := made_object.1 (hhead ▸ ht.head hv)
  rw [Suits, if_pos rfl] at hsuits
  obtain ⟨coalesce, n, response, notes, rfl, hresponse⟩ := hsuits
  simp only [List.forall_mem_cons] at hparts
  have hread : s.accumulator v = ⟨coalesce, n, s.response response, notes⟩ := by
    simp only [accumulator, hhead, Value.int?, Option.getD_some]
  have hformed := formed_of_made ht (by decide) hparts.2.2.1 hresponse
  rw [hread]
  exact ⟨response, hhead, hparts.1, hparts.2.2.2.1, (formed_response hformed).1,
    ht.inherits.response hformed hparts.2.2.1⟩

theorem made_accumulator {a : Accumulator} (hc : s.Made lists a.coalesce)
    (hn : s.Made lists a.attributes) (hr : s.Made lists a.response.toValue) :
    s.Made lists a.toValue := by
  refine made_object.2 ⟨?_, by simp [hc, hn, hr]⟩
  rw [Suits, if_pos rfl]
  exact ⟨_, _, _, _, rfl, rfl⟩

theorem made_empty : s.Made lists Response.empty.toValue := made_response .empty (.empty made_null)

theorem made_addItem {total c : Value} (hm : s.Made lists total)
    (ht : s.obeys (.optional (.one .details)) total = true) (hc : s.formed .content c = true)
    (htidy : s.Tidy lists) : s.Made lists (addItem s total c) := by
  rcases addItem_cases s total c with h | ⟨details, hd, h⟩
  · rw [h]
    exact hm
  · have hsum := (usage_formed ht).add (usage_formed (obeys_of_usageItem? hc hd))
    have number : ∀ {x}, s.obeys (.optional .integer) x = true → s.Made lists x := by
      intro x hx
      rcases obeys_counter.1 hx with rfl | ⟨n, rfl⟩ <;> simp
    have written : ∀ es : Entries Value, s.obeys (.optional .counts) (.map es) = true →
        s.Made lists (.map es) := by
      intro es he
      obtain ⟨fs, hfs, hint⟩ := (obeys_counts.1 he).resolve_left nofun
      cases hfs
      refine made_map.2 fun e hem => ?_
      obtain ⟨n, hn⟩ := isInteger_iff.1 (hint e hem).2
      rw [hn]
      trivial
    have old : s.Made lists (s.usage total).counts := by
      rcases obeys_optional.1 ht with rfl | hf
      · exact made_null
      · exact (made_object.1 ((formed_details hf).1 ▸ htidy.head hm)).2 _ (by simp)
    have counts : s.Made lists ((s.usage total).add s (s.usage details)).counts := by
      have hobeys := hsum.counts
      have hcases : ((s.usage total).add s (s.usage details)).counts = (s.usage total).counts ∨
          ∃ es, ((s.usage total).add s (s.usage details)).counts = .map es := by
        simp only [Usage.add, addNamed]
        split
        · exact Or.inl rfl
        · split
          · exact Or.inr ⟨_, rfl⟩
          · split
            · exact Or.inr ⟨_, rfl⟩
            · exact Or.inl rfl
      rcases hcases with he | ⟨es, he⟩
      · rw [he]
        exact old
      · rw [he] at hobeys ⊢
        exact written es hobeys
    rw [h]
    refine made_object.2 ⟨(suits_iff (by decide)).2 ?_, ?_⟩
    · exact .cons (fits_of_obeys rfl hsum.input) (.cons (fits_of_obeys rfl hsum.output)
        (.cons (fits_of_obeys rfl hsum.total) (.cons (fits_of_obeys rfl hsum.counts) .nil)))
    · simp [number hsum.input, number hsum.output, number hsum.total, counts]

theorem made_addItems (htidy : s.Tidy lists) {items : List Value} {total : Value}
    (hm : s.Made lists total) (ht : s.obeys (.optional (.one .details)) total = true)
    (hi : ∀ c ∈ items, s.formed .content c = true) : s.Made lists (addItems s total items) := by
  induction items generalizing total with
  | nil => exact hm
  | cons c cs ih =>
    obtain ⟨hc, hcs⟩ := List.forall_mem_cons.1 hi
    exact ih (made_addItem hm ht hc htidy) (obeys_addItem ht hc) hcs

theorem made_feed (ht : s.Tidy lists) {r : Response} {u : Update} (hr : r.Formed s)
    (he : r.Each (s.Made lists)) (hu : u.Formed s) (hue : u.Each (s.Made lists)) :
    s.Made lists (r.feed s u).toValue :=
  made_response (hr.feed hu)
    (he.feed ht.inherits hue (made_addItems ht he.usage hr.usage hu.contents))

theorem formed_update_of_made (ht : s.Tidy lists) (hv : s.Made lists v)
    (h : s.isOf .update v = true) : (s.update v).Formed s :=
  (formed_update (formed_of_made ht (by decide) hv h)).1

/-- **Feeding** an accumulator. -/
theorem tidy_feed (ht : s.Tidy lists) {a u : Value} (ha : s.Made lists a)
    (hk : s.kind? a = some .accumulator) (hu : s.Made lists u) (huk : s.isOf .update u = true) :
    s.Onward lists (s.feed a u) lists ∧ (s.feed a u).Tidy lists := by
  obtain ⟨response, hhead, hc, hn, hf, he⟩ := accumulator_of_kind ht ha hk
  have hupdate := formed_of_made ht (by decide) hu huk
  have hread := (formed_update hupdate).1
  have hmade : s.Made lists ((s.accumulator a).feed s (s.update u)).toValue :=
    made_accumulator hc hn (made_feed ht hf he hread (ht.inherits.update hupdate hu))
  have hfeed : s.feed a u = s.write a ((s.accumulator a).feed s (s.update u)).toValue := by
    simp only [Store.feed, growItemLists_of_formed hf.usage fun c hc => hread.contents c hc]
  rw [hfeed]
  cases a with
  | shared x => exact ht.writeObject hhead hmade
  | _ => exact ⟨.refl s lists, ht⟩

theorem made_mergedItem (ht : s.Tidy lists) (hk : mergeKind? s v = some k) (hv : s.Made lists v)
    (ws : List Value) : s.Made lists (mergedItem s k v ws) := by
  have hkind : k = .text ∨ k = .reasoning := mergeKind?_cases hk
  have props : s.Fits lists (.optional .properties) (itemProperties s k v) ∧
      s.Made lists (itemProperties s k v) := by
    unfold itemProperties
    cases hi : s.textItem? k v with
    | none => exact ⟨Or.inl rfl, made_null⟩
    | some item =>
      obtain ⟨hsuits, hparts⟩ := made_object.1 (head_of_textItem? hi ▸ ht.head hv)
      refine ⟨?_, hparts _ (by simp)⟩
      rcases hkind with rfl | rfl <;> rw [suits_iff (by decide)] at hsuits <;>
        simp only [Kind.fields, contentFields, List.cons_append, List.nil_append,
          List.forall₂_cons] at hsuits <;> exact hsuits.2.2.1
  refine made_object.2 ⟨?_, by simp [props.2]⟩
  rcases hkind with rfl | rfl <;> rw [suits_iff (by decide)] <;>
    exact .cons (Or.inl rfl) (.cons trivial (.cons props.1 (.cons ⟨_, rfl⟩ .nil)))

theorem tidy_settleMessages {ms : List Message} (ht : s.Tidy lists)
    (hm : ∀ m ∈ ms, s.Made lists m.toValue) :
    ∃ more, s.Onward lists (s.settleMessages ms).1 more ∧ (s.settleMessages ms).1.Tidy more ∧
      ∀ m ∈ (s.settleMessages ms).2, (s.settleMessages ms).1.Made more m.toValue := by
  induction ms generalizing s lists with
  | nil => exact ⟨lists, .refl s lists, ht, by simp [settleMessages]⟩
  | cons m ms ih =>
    obtain ⟨hfirst, hrest⟩ := List.forall_mem_cons.1 hm
    obtain ⟨hsuits, hparts⟩ := made_object.1 hfirst
    rw [suits_iff (by decide)] at hsuits
    simp only [List.forall_mem_cons, made_list] at hparts
    simp only [Kind.fields, List.forall₂_cons] at hsuits
    obtain ⟨more, onward, htidy, hitems⟩ := placed_settleAll ht fun c hc =>
      ⟨hparts.2.1 c hc, hsuits.2.1 c hc⟩
    obtain ⟨most, onward', htidy', hall⟩ := ih htidy fun n hn => Made.onward onward _ (hrest n hn)
    refine ⟨most, onward.trans onward', htidy', List.forall_mem_cons.2 ⟨?_, hall⟩⟩
    refine Made.onward onward' _ (made_object.2 ⟨(suits_iff (by decide)).2 ?_, ?_⟩)
    · have keep : ∀ {r x}, s.Fits lists r x → (s.settleAll m.contents).1.Fits more r x :=
        fun h => h.onward onward
      exact .cons (keep hsuits.1) (.cons (fun c hc => (hitems c hc).2) (.cons (keep hsuits.2.2.1)
        (.cons (keep hsuits.2.2.2.1) (.cons (keep hsuits.2.2.2.2.1) (.cons trivial
        (.cons (keep hsuits.2.2.2.2.2.2.1) .nil))))))
    · have keep : ∀ {x}, s.Made lists x → (s.settleAll m.contents).1.Made more x :=
        fun h => Made.onward onward _ h
      simp only [List.forall_mem_cons, made_list]
      exact ⟨keep hparts.1, fun c hc => (hitems c hc).1, keep hparts.2.2.1, keep hparts.2.2.2.1,
        keep hparts.2.2.2.2.1, keep hparts.2.2.2.2.2.1, keep hparts.2.2.2.2.2.2.1, by simp⟩

theorem tidy_settleResponse {r : Response} (ht : s.Tidy lists) (hr : s.Made lists r.toValue) :
    ∃ more, s.Onward lists (s.settleResponse r).1 more ∧ (s.settleResponse r).1.Tidy more ∧
      (s.settleResponse r).1.Made more (s.settleResponse r).2.toValue := by
  obtain ⟨hsuits, hparts⟩ := made_object.1 hr
  rw [suits_iff (by decide)] at hsuits
  simp only [List.forall_mem_cons, made_list, List.forall_mem_map] at hparts
  obtain ⟨more, onward, htidy, hmessages⟩ := tidy_settleMessages ht hparts.1
  have later := made_object.1 (Made.onward onward _ hr)
  rw [suits_iff (by decide)] at later
  simp only [Kind.fields, List.forall₂_cons, List.forall_mem_cons] at later
  refine ⟨more, onward, htidy, made_object.2 ⟨(suits_iff (by decide)).2 ?_, ?_⟩⟩
  · exact .cons (List.forall_mem_map.2 fun _ _ => rfl) (by
      simp only [List.forall₂_cons]
      exact later.1.2)
  · simp only [List.forall_mem_cons, made_list, List.forall_mem_map]
    exact ⟨hmessages, later.2.2⟩

/-- What comes of finalizing an accumulator of a tidy store: it always succeeds. -/
theorem finished_of_kind (ht : s.Tidy lists) (hv : s.Made lists v)
    (h : s.kind? v = some .accumulator) : (s.accumulator v).finished s =
      .done ((s.accumulator v).response.settled s (s.isTrue (s.accumulator v).coalesce)) := by
  obtain ⟨response, -, -, -, hf, -⟩ := accumulator_of_kind ht hv h
  exact coalesced_of_formed hf _

/-- **Finalizing** an accumulator. -/
theorem placed_finalize (ht : s.Tidy lists) (hv : s.Made lists v)
    (h : s.kind? v = some .accumulator) : ∃ w, (s.finalize v).2 = .ok w ∧
      s.Placed lists (.one .response) (s.finalize v).1 w := by
  obtain ⟨response, hhead, hc, hn, hf, he⟩ := accumulator_of_kind ht hv h
  let wanted := s.isTrue (s.accumulator v).coalesce
  have hmade : s.Made lists ((s.accumulator v).response.settled s wanted).toValue :=
    made_response (hf.settled wanted)
      (he.settled (fun hk hp ws => made_mergedItem ht hk hp ws) wanted)
  obtain ⟨more, onward, htidy, hsettled⟩ := tidy_settleResponse ht hmade
  obtain ⟨most, onward', htidy', hw, hresponse⟩ :=
    placed_intern htidy _ hsettled (.one .response) rfl
  have hall := onward.trans onward'
  have hrenewed : ∀ {u : Store} {kinds : ListKinds}, s.Onward lists u kinds →
      u.Made kinds (s.accumulator v).renewed.toValue := fun ho =>
    made_accumulator (Made.onward ho _ hc) (Made.onward ho _ hn) made_empty
  simp only [finalize, finished_of_kind ht hv h, Attempt.isDone, Attempt.done, List.isEmpty_nil,
    if_true]
  refine ⟨_, rfl, ?_⟩
  cases v with
  | shared x =>
    obtain ⟨later, hcell⟩ := hall.objects x _ _ hhead
    obtain ⟨hwrite, hdone⟩ := htidy'.writeObject hcell (hrenewed hall)
    exact ⟨most, hall.trans hwrite, hdone, Made.onward hwrite _ hw, Fits.onward hwrite hresponse⟩
  | _ => exact ⟨most, hall, htidy', hw, hresponse⟩

/-! ## Runs over a source -/

/-- The updates that a consumer may see are well made updates. -/
def Feeds (s : Store) (lists : ListKinds) (pulls : List (Pull Value)) : Prop :=
  ∀ u c, Pull.update u c ∈ pulls → s.Made lists u ∧ s.isOf .update u = true

theorem feeds_pulls {source : Source Value}
    (h : ∀ u ∈ source.updates, s.Made lists u ∧ s.isOf .update u = true) :
    s.Feeds lists source.pulls := by
  suffices key : ∀ (us : List Value) n, (∀ u ∈ us, s.Made lists u ∧ s.isOf .update u = true) →
      s.Feeds lists (source.pullsFrom n us) from key source.updates 0 h
  intro us
  induction us with
  | nil =>
    intro n _ u c hu
    unfold Source.pullsFrom at hu
    cases hf : source.failure <;> simp [hf] at hu
  | cons v vs ih =>
    intro n hv u c hu
    obtain ⟨hfirst, hrest⟩ := List.forall_mem_cons.1 hv
    unfold Source.pullsFrom at hu
    split at hu
    · simp at hu
    · rcases List.mem_cons.1 hu with he | hu
      · cases he
        exact hfirst
      · exact ih (n + 1) hrest u c hu

/-- **Consuming** what a source yields: it fails only as the source does. -/
theorem tidy_consume {a : Value} {pulls : List (Pull Value)} (ht : s.Tidy lists)
    (ha : s.Made lists a) (hk : s.kind? a = some .accumulator) (hp : s.Feeds lists pulls) :
    s.Onward lists (s.consume a pulls).1 lists ∧ (s.consume a pulls).1.Tidy lists := by
  induction pulls generalizing s with
  | nil => exact ⟨.refl s lists, ht⟩
  | cons pull pulls ih =>
    cases pull with
    | failure f => exact ⟨.refl s lists, ht⟩
    | update u cancelled =>
      rw [consume]
      split
      · exact ⟨.refl s lists, ht⟩
      · obtain ⟨hu, huk⟩ := hp u cancelled List.mem_cons_self
        obtain ⟨onward, htidy⟩ := tidy_feed ht ha hk hu huk
        obtain ⟨onward', htidy'⟩ := ih htidy (Made.onward onward _ ha)
          (onward.kind? hk) fun w c hw =>
          let hm := hp w c (List.mem_cons_of_mem _ hw)
          ⟨Made.onward onward _ hm.1, onward.isOf hm.2⟩
        exact ⟨onward.trans onward', htidy'⟩

/-- The failure with which a source ends, if it does not come to its own end. -/
def failure? : List (Pull Value) → Option Failure
  | [] => none
  | .failure f :: _ => some f
  | .update _ cancelled :: pulls => if cancelled then some .cancelled else failure? pulls

theorem consume_failure (s : Store) (a : Value) (pulls : List (Pull Value)) :
    (s.consume a pulls).2 = failure? pulls := by
  induction pulls generalizing s with
  | nil => rfl
  | cons pull pulls ih =>
    cases pull with
    | failure f => rfl
    | update u cancelled =>
      rw [consume, failure?]
      split
      · rfl
      · exact ih _

/-- **A run over a source** of updates fails as the source does, and otherwise gives a response. -/
theorem tidy_toResponse (ht : s.Tidy lists) (mode : Mode) {coalesce : Value}
    (hc : s.Made lists coalesce) {source : Source Value}
    (hu : ∀ u ∈ source.updates, s.Made lists u ∧ s.isOf .update u = true) :
    ∃ more, s.Onward lists (s.toResponse mode coalesce source).1 more ∧
      (s.toResponse mode coalesce source).1.Tidy more ∧
      match failure? (source.seenIn mode).pulls with
      | some f => (s.toResponse mode coalesce source).2 = .error f
      | none => ∃ w, (s.toResponse mode coalesce source).2 = .ok w ∧
          (s.toResponse mode coalesce source).1.Made more w ∧
          (s.toResponse mode coalesce source).1.isOf .response w = true := by
  have hnew : s.Made lists (Accumulator.new coalesce).toValue :=
    made_accumulator hc made_null made_empty
  obtain ⟨more, onward, htidy, hmade, hfits⟩ := placed_intern ht _ hnew (.one .accumulator) rfl
  have hkind : (s.intern (Accumulator.new coalesce).toValue).1.kind?
      (s.intern (Accumulator.new coalesce).toValue).2 = some .accumulator := by
    obtain ⟨l, hl, hlk⟩ := (Option.any_eq_true _ _).1 hfits
    rw [hl]
    cases l <;> first | rfl | cases hlk
  have hfeeds : (s.intern (Accumulator.new coalesce).toValue).1.Feeds more
      (source.seenIn mode).pulls := by
    refine feeds_pulls fun u hm => ?_
    rw [source.updates_seenIn] at hm
    exact ⟨Made.onward onward _ (hu u hm).1, onward.isOf (hu u hm).2⟩
  obtain ⟨onward', htidy'⟩ := tidy_consume htidy hmade hkind hfeeds
  have hfailure := consume_failure (s.intern (Accumulator.new coalesce).toValue).1
    (s.intern (Accumulator.new coalesce).toValue).2 (source.seenIn mode).pulls
  have hall := onward.trans onward'
  unfold toResponse
  rw [← hfailure]
  generalize s.intern (Accumulator.new coalesce).toValue = made at *
  obtain ⟨t, a⟩ := made
  dsimp only at *
  generalize hconsumed : t.consume a (source.seenIn mode).pulls = consumed at *
  obtain ⟨u, ending⟩ := consumed
  cases ending with
  | some f => exact ⟨more, hall, htidy', rfl⟩
  | none =>
    obtain ⟨w, hw, most, onward'', htidy'', hmade'', hresponse⟩ :=
      placed_finalize htidy' (Made.onward onward' _ hmade) (onward'.kind? hkind)
    refine ⟨most, hall.trans onward'', htidy'', w, ?_, hmade'', hresponse⟩
    simp only [hw]
    rfl

/-! ## Assignments -/

theorem forall₂_set {α β : Type} {R : α → β → Prop} {as : List α} {bs : List β} {i : Nat} {a : α}
    {b : β} (h : List.Forall₂ R as bs) (ha : as[i]? = some a) (hab : R a b) :
    List.Forall₂ R as (bs.set i b) := by
  induction h generalizing i with
  | nil => cases ha
  | cons hr _ ih =>
    cases i with
    | zero =>
      cases ha
      exact .cons hab ‹_›
    | succ i => exact .cons hr (ih ha)

/-- **An assignment** to an object that checks what is assigned to it. -/
theorem tidy_assign (ht : s.Tidy lists) {target : Value} (htarget : s.Made lists target)
    (hk : (s.kind? target).any Kind.checksAssignment = true) (hv : s.Made lists v) {name : String}
    (h : s.assign target (.text name) v = .ok t) :
    ∃ more, s.Onward lists t more ∧ t.Tidy more := by
  obtain ⟨kind, hkind, hchecks⟩ := (Option.any_eq_true _ _).1 hk
  obtain ⟨fields, hhead⟩ := kind?_eq_some.1 hkind
  have hacc : kind ≠ .accumulator := by
    rintro rfl
    cases hchecks
  simp only [assign, hhead, assignField] at h
  split at h
  · simp only [assignUndeclared, if_neg hacc] at h
    split at h
    · cases h
      exact ⟨lists, .refl s lists, ht⟩
    · split at h
      · cases h
      · cases h
  · next i hplace =>
    split at h
    · cases h
    · split at h
      · cases h
        exact ⟨lists, .refl s lists, ht⟩
      · next f hf =>
        split at h
        · cases h
        · next w hw =>
          cases h
          obtain ⟨hmade, hfits⟩ := made_of_checkField ht (List.mem_of_getElem? hf) hv hw
          obtain ⟨more, onward, htidy, hmade', hfits'⟩ := placed_intern ht w hmade f.rule hfits
          have hobject : (s.intern w).1.Made more (.object kind (fields.set i (s.intern w).2)) := by
            obtain ⟨hsuits, hparts⟩ := made_object.1 (hhead ▸ ht.head htarget)
            refine made_object.2 ⟨(suits_iff hacc).2 ?_, fun x hx => ?_⟩
            · exact forall₂_set (((suits_iff hacc).1 hsuits).imp fun _ _ hx => hx.onward onward) hf
                hfits'
            · rcases List.mem_or_eq_of_mem_set hx with hx | rfl
              · exact Made.onward onward x (hparts x hx)
              · exact hmade'
          cases target with
          | shared x =>
            obtain ⟨later, hx⟩ := onward.objects x kind fields hhead
            obtain ⟨hwrite, hdone⟩ := htidy.writeObject hx hobject
            exact ⟨more, onward.trans hwrite, hdone⟩
          | _ => exact ⟨more, onward, htidy⟩

/-! ## Taking a response apart -/

theorem exists_of_mapM_ok {α β : Type} {f : α → Checked β} {as : List α} {bs : List β}
    (h : as.mapM f = .ok bs) : ∀ b ∈ bs, ∃ a ∈ as, f a = .ok b := by
  induction as generalizing bs with
  | nil =>
    cases h
    exact fun b hb => by cases hb
  | cons a as ih =>
    rw [List.mapM_cons] at h
    obtain ⟨b, hb, h⟩ := bind_ok h
    obtain ⟨cs, hcs, h⟩ := bind_ok h
    cases h
    refine List.forall_mem_cons.2 ⟨⟨a, List.mem_cons_self, hb⟩, fun c hc => ?_⟩
    obtain ⟨a', ha', hf⟩ := ih hcs c hc
    exact ⟨a', List.mem_cons_of_mem _ ha', hf⟩

theorem made_of_checkUpdate (ht : s.Tidy lists) {u : Update} (hu : u.Each (s.Made lists))
    (h : s.checkUpdate u = .ok w) : s.Made lists w := by
  refine (made_of_construct ht (by decide) (fun e he => ?_) h).1
  obtain ⟨p, hp, rfl⟩ := List.mem_map.1 he
  have hvalue := (List.of_mem_zip hp).2
  revert hvalue
  have hall : ∀ x ∈ u.values, s.Made lists x := by
    simp only [Update.values, List.forall_mem_cons, made_list]
    exact ⟨hu.role, hu.contents, hu.author, hu.responseId, hu.messageId, hu.conversationId,
      hu.created, hu.finish, hu.model, hu.raw, hu.properties, by simp⟩
  exact hall p.2

theorem made_of_updatesOf (ht : s.Tidy lists) (hv : s.Made lists v)
    (hk : s.isOf .response v = true) {us : List Value} (h : s.updatesOf v = .ok us) :
    ∀ u ∈ us, s.Made lists u := by
  have he := ht.inherits.response (formed_of_made ht (by decide) hv hk) hv
  obtain ⟨updates, hupdates, h⟩ := bind_ok h
  obtain ⟨closing, hclosing, h⟩ := bind_ok h
  cases h
  refine List.forall_mem_append.2 ⟨fun u hu => ?_, ?_⟩
  · obtain ⟨x, hx, hxu⟩ := exists_of_mapM_ok hupdates u hu
    obtain ⟨m, hm, rfl⟩ := List.mem_map.1 hx
    have hme := he.messages m hm
    exact made_of_checkUpdate ht ⟨hme.role, hme.contents, hme.author, he.id, hme.id,
      he.conversationId, newer_of_both hme.created he.created, he.finish, he.model, hme.raw,
      hme.properties⟩ hxu
  · unfold checkClosing at hclosing
    split at hclosing
    · obtain ⟨-, -, hclosing⟩ := bind_ok hclosing
      obtain ⟨contents, hcontents, hclosing⟩ := bind_ok hclosing
      obtain ⟨last, hlast, hclosing⟩ := bind_ok hclosing
      cases hclosing
      have hitems : ∀ c ∈ contents, s.Made lists c := by
        unfold checkUsageItem at hcontents
        split at hcontents
        · cases hcontents
          exact fun c hc => by cases hc
        · obtain ⟨item, hitem, rfl⟩ := map_ok hcontents
          rw [List.forall_mem_singleton]
          exact (made_of_construct ht (by decide) (by simp [he.usage]) hitem).1
      rw [List.forall_mem_singleton]
      exact made_of_checkUpdate ht ⟨made_null, hitems, made_null, made_null, made_null, made_null,
        made_null, made_null, made_null, made_null, he.properties⟩ hlast
    · cases hclosing
      exact fun u hu => by cases hu

/-! ## Growing a list of messages -/

/-- What is added is what the functions that add take: responses, updates, messages, or nothing. -/
def Adds (s : Store) (lists : ListKinds) : Addition → Prop
  | .response r => r = .null ∨ s.Made lists r ∧ s.isOf .response r = true
  | .updates _ _ source =>
    ∀ x ∈ source, ∀ u ∈ x.updates, s.Made lists u ∧ s.isOf .update u = true
  | .update u _ =>
    u = .null ∨ s.Made lists u ∧ (s.isOf .update u = true ∨ s.isOf .message u = true)

theorem leaves_growBy (ht : s.Tidy lists) {list : Value}
    (hl : s.IsListing lists .message list) {batch : List Value}
    (hb : ∀ b ∈ batch, s.Made lists b ∧ s.isOf .message b = true) :
    s.Leaves lists (s.growBy list (.ok batch)) := by
  obtain ⟨more, onward, htidy, hmade, hfits⟩ := placed_internAll ht batch (fun b h => (hb b h).1)
    (batch.map fun _ => .one .message)
    (List.forall₂_map_left_iff.2 (List.forall₂_same.2 fun b h => (hb b h).2))
  have hmessages : ∀ b ∈ (s.internAll batch).2, (s.internAll batch).1.isOf .message b = true := by
    intro b hm
    obtain ⟨q, hq, hfit⟩ := exists_mem_of_forall₂ hfits hm
    obtain ⟨-, -, rfl⟩ := List.mem_map.1 hq
    exact hfit
  cases list with
  | shared x =>
    obtain ⟨hlt, items, hcell, hi⟩ := ht.known x .message hl
    have hlater : (s.internAll batch).1.cell x = .list items :=
      ((extends_internAll s batch).cell hlt).trans hcell
    have hold : ∀ i ∈ items, s.Made lists i := made_list.1 (hcell ▸ ht.made x hlt)
    obtain ⟨hwrite, hdone⟩ := htidy.writeList (items ++ (s.internAll batch).2) hlater
      (List.forall_mem_append.2 ⟨fun i h => Made.onward onward i (hold i h), hmade⟩) fun k hk => by
        have hkind : k = .message := Option.some.inj (hk.symm.trans (onward.known x _ hl))
        rw [hkind, List.forall_mem_append]
        exact ⟨fun i h => onward.isOf (hi i h), hmessages⟩
    have hextend : s.extendList (.shared x) batch =
        (s.internAll batch).1.write (.shared x) (.list (items ++ (s.internAll batch).2)) := by
      simp only [extendList, head, hcell]
    rw [growBy, hextend]
    exact .null (onward.trans hwrite) hdone
  | list items => exact .null onward htidy
  | _ => exact hl.elim

theorem made_responseMessages (ht : s.Tidy lists) (hv : s.Made lists v)
    (hk : s.isOf .response v = true) :
    ∀ m ∈ s.responseMessages v, s.Made lists m ∧ s.isOf .message m = true := by
  obtain ⟨-, messages, items, hlist, hi, -, hhead⟩ :=
    formed_response (formed_of_made ht (by decide) hv hk)
  have hparts := (made_object.1 (hhead ▸ ht.head hv)).2 messages (by simp)
  have hitems := made_list.1 (hlist ▸ ht.head hparts)
  rw [responseMessages_of_head hhead hlist]
  exact fun m hm => ⟨hitems m hm, isOf_of_formed (hi m hm)⟩

theorem IsListing.ne_null {list : Value} (hl : s.IsListing lists k list) :
    (list != .null) = true := by
  cases list <;> first | rfl | exact hl.elim

theorem leaves_addResponseTo (ht : s.Tidy lists) {list : Value}
    (hl : list = .null ∨ s.IsListing lists .message list)
    (hv : v = .null ∨ s.Made lists v ∧ s.isOf .response v = true) :
    s.Leaves lists (s.addResponseTo list v) := by
  rcases hl with rfl | hl
  · exact .error ht _
  · unfold addResponseTo
    rw [hl.ne_null]
    rcases hv with rfl | ⟨hmade, hk⟩
    · exact .error ht _
    · have hadd : addResponse s true v = .ok (s.responseMessages v) := by
        cases v <;> first | rfl | cases hk
      rw [hadd]
      exact leaves_growBy ht hl (made_responseMessages ht hmade hk)

theorem made_read (ht : s.Tidy lists) (hv : s.Made lists v)
    (hk : s.isOf .update v = true ∨ s.isOf .message v = true) :
    (s.message v).Each (s.Made lists) := by
  rcases hk with hk | hk
  · have hf := formed_of_made ht (by decide) hv hk
    have he := ht.inherits.update hf hv
    rw [message_of_update hf]
    exact ⟨he.role, he.contents, he.author, he.created, he.messageId, he.raw, he.properties⟩
  · exact ht.inherits.message (formed_of_made ht (by decide) hv hk) hv

theorem mem_of_keptItems {keep : ItemFilter} {items contents : List Value}
    (h : keptItems keep items = .ok contents) : ∀ c ∈ contents, c ∈ items := by
  induction items generalizing contents with
  | nil =>
    cases h
    exact fun c hc => hc
  | cons v vs ih =>
    rw [keptItems] at h
    split at h
    · cases h
    · next kept _ =>
      cases hrest : keptItems keep vs with
      | error f =>
        rw [hrest] at h
        cases h
      | ok cs =>
        rw [hrest] at h
        cases h
        intro c hc
        split at hc
        · exact (List.mem_cons.1 hc).elim (fun e => e ▸ List.mem_cons_self)
            fun hc => List.mem_cons_of_mem _ (ih hrest c hc)
        · exact List.mem_cons_of_mem _ (ih hrest c hc)

theorem mem_of_keptContents {keep : Option ItemFilter} {m : Message} {contents : List Value}
    (h : keptContents keep m = .ok contents) : ∀ c ∈ contents, c ∈ m.contents := by
  cases keep with
  | none =>
    cases h
    exact fun c hc => hc
  | some keep => exact mem_of_keptItems h

theorem leaves_addFiltered (ht : s.Tidy lists) {list : Value}
    (hl : list = .null ∨ s.IsListing lists .message list)
    (hv : v = .null ∨ s.Made lists v ∧ (s.isOf .update v = true ∨ s.isOf .message v = true))
    (keep : Option ItemFilter) :
    s.Leaves lists (s.growBy list (addFiltered s (list != .null) v keep)) := by
  rcases hl with rfl | hl
  · exact .error ht _
  · rw [hl.ne_null]
    rcases hv with rfl | ⟨hmade, hk⟩
    · exact .error ht _
    · have hne : v ≠ .null := by
        rintro rfl
        rcases hk with hk | hk <;> cases hk
      have he := made_read ht hmade hk
      rw [addFiltered_of_ne_null hne]
      split
      · exact .error ht _
      · split
        · exact .error ht _
        · next contents hcontents =>
          split
          · exact leaves_growBy ht hl (by simp)
          · cases hm : newMessage s (s.message v) contents with
            | error ps => exact .error ht _
            | ok m =>
              have hitems : ∀ c ∈ contents, s.Made lists c :=
                fun c hc => he.contents c (mem_of_keptContents hcontents c hc)
              have hnew := made_of_construct ht (k := .message) (by decide) (by
                simp only [List.forall_mem_cons, made_list]
                exact ⟨he.role, hitems, he.author, he.created, he.raw, he.properties, by simp⟩) hm
              exact leaves_growBy ht hl (by simpa using hnew)

theorem IsListing.or_onward (h : s.Onward lists t more) {list : Value}
    (hl : list = .null ∨ s.IsListing lists k list) : list = .null ∨ t.IsListing more k list :=
  hl.imp id (IsListing.onward h)

/-- **Adding to a list of messages.** -/
theorem leaves_add (ht : s.Tidy lists) {list : Value}
    (hl : list = .null ∨ s.IsListing lists .message list) {addition : Addition}
    (ha : s.Adds lists addition) : s.Leaves lists (s.add list addition) := by
  cases addition with
  | response r => exact leaves_addResponseTo ht hl ha
  | update u keep => exact leaves_addFiltered ht hl ha keep
  | updates mode sized source? =>
    show s.Leaves lists (s.addSourceTo list mode sized source?)
    unfold addSourceTo
    split
    · exact .error ht _
    · exact .error ht _
    · next source _ =>
      split
      · exact .null (.refl s lists) ht
      · have hsetting : s.Made lists (.bool true) := trivial
        obtain ⟨more, onward, htidy, hend⟩ :=
          tidy_toResponse ht mode hsetting (ha source rfl)
        split
        · next t f hrun =>
          rw [hrun] at onward htidy
          exact ⟨more, onward, htidy, nofun⟩
        · next t w hrun =>
          rw [hrun] at onward htidy hend
          split at hend
          · cases hend
          · obtain ⟨x, hx, hmade, hresponse⟩ := hend
            cases hx
            exact .after onward
              (leaves_addResponseTo htidy (IsListing.or_onward onward hl)
                (Or.inr ⟨hmade, hresponse⟩))

end

end Store

end Reassembly
