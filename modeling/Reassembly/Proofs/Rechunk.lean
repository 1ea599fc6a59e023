import Mathlib.Logic.Relation
import Reassembly.Proofs.ByValue
import Reassembly.Proofs.Parallel
import Reassembly.Proofs.Records

/-!
# Where a stream is cut into chunks

The same text may come in one item or in two, and the same items in one update or in two, and a
provider may send updates that carry nothing. With coalescing none of this shows in the response.

* `Cut`, `Rechunk`: one change to where a stream is cut. Any number of them, forwards and backwards,
  make its equivalence closure.
* `alike_joined`: coalescing makes items that are alike from items that are alike.
* `feedAll_split`, `feedAll_keepAlive`: two of the changes leave the fold as it is.
* `cutIn_stable`, `parallel_feed_cut`: the third leaves it parallel, with the cut item inside of one
  message; coalescing closes the cut again (`alike_settled_of_cutIn`).
* `ofUpdates_rechunk`: the responses are alike.
-/
namespace Reassembly

open Store

/-- An item of text, cut into two. What its first part carries besides text is what the item
carries; the second part may carry anything but annotations. -/
structure Cut (s : Store) (c c₁ c₂ : Value) : Prop where
  formed : s.formed .content c = true
  formed_left : s.formed .content c₁ = true
  formed_right : s.formed .content c₂ = true
  parts : ∃ k, (k = .text ∨ k = .reasoning) ∧ ∃ p p₁ annotations raw p₂ t₁ t₂,
    s.head c = TextItem.toValue k ⟨.null, .null, p, t₁ ++ t₂⟩ ∧
    s.head c₁ = TextItem.toValue k ⟨.null, .null, p₁, t₁⟩ ∧ s.Alike p p₁ ∧
    s.head c₂ = TextItem.toValue k ⟨annotations, raw, p₂, t₂⟩ ∧
    (annotations = .null ∨ s.head annotations = .list [])

/-- One change to the places where a stream is cut. -/
inductive Rechunk (s : Store) : List Update → List Update → Prop where
  /-- an item of an update is cut into two -/
  | cut (before after : List Update) (u : Update) (xs ys : List Value) {c c₁ c₂ : Value}
      (h : Cut s c c₁ c₂) :
      Rechunk s (before ++ { u with contents := xs ++ c :: ys } :: after)
        (before ++ { u with contents := xs ++ c₁ :: c₂ :: ys } :: after)
  /-- the last items of an update come in an update of their own, which carries nothing else -/
  | split (before after : List Update) (u : Update) (xs ys : List Value) :
      Rechunk s (before ++ { u with contents := xs ++ ys } :: after)
        (before ++ { u with contents := xs } :: { Update.blank with contents := ys } :: after)
  /-- an update that carries nothing comes in -/
  | keepAlive (before after : List Update) (h : before ++ after ≠ []) :
      Rechunk s (before ++ after) (before ++ .blank :: after)

/-! ## Items that are alike -/

/-- Content items that are alike. -/
structure AlikeItems (s : Store) (v w : Value) : Prop where
  alike : s.Alike v w
  formed_left : s.formed .content v = true
  formed_right : s.formed .content w = true

section
variable {s : Store} {v w : Value}

theorem AlikeItems.refl (h : s.formed .content v = true) : AlikeItems s v v := ⟨.refl s v, h, h⟩

theorem AlikeItems.symm (h : AlikeItems s v w) : AlikeItems s w v :=
  ⟨h.alike.symm, h.formed_right, h.formed_left⟩

theorem Store.Alike.hasAnnotations (h : s.Alike v w) (ha : s.hasAnnotations v = true) :
    s.hasAnnotations w = true := by
  unfold Store.hasAnnotations items at ha
  split at ha
  · next vs hv =>
    obtain ⟨ws, hw, hvw⟩ := h.list hv
    have hlen := hvw.length_eq
    have hne : vs ≠ [] := by simpa using ha
    have hws : ws ≠ [] := by
      rintro rfl
      exact hne (List.length_eq_zero_iff.1 hlen)
    simpa [Store.hasAnnotations, items, hw] using hws
  · cases ha

theorem textItem?_of_formed (h : s.formed .content v = true) {k : Kind}
    (hk : k = .text ∨ k = .reasoning) {a r p x : Value} (hv : s.head v = .object k [a, r, p, x]) :
    ∃ t, x = .text t ∧ s.textItem? k v = some ⟨a, r, p, t⟩ := by
  obtain ⟨l, fields, hl, -, hf⟩ := formed_iff.1 h
  rw [hv] at hl
  cases hl
  have hx : s.obeys .textOrEmpty x = true := by
    rcases hk with rfl | rfl
    · simp only [Kind.fields, contentFields, List.cons_append, List.nil_append,
        List.forall₂_cons] at hf
      exact hf.2.2.2.1
    · simp only [Kind.fields, contentFields, List.cons_append, List.nil_append,
        List.forall₂_cons] at hf
      exact hf.2.2.2.1
  obtain ⟨t, rfl⟩ := obeys_textOrEmpty.1 hx
  exact ⟨t, rfl, by simp [textItem?, hv]⟩

theorem AlikeItems.text_item (h : AlikeItems s v w) {k : Kind} (hk : k = .text ∨ k = .reasoning)
    {i : TextItem} (hv : s.textItem? k v = some i) :
    ∃ j, s.textItem? k w = some j ∧ s.Alike i.annotations j.annotations ∧
      s.Alike i.properties j.properties ∧ i.text = j.text := by
  have hi := head_of_textItem? hv
  obtain ⟨fields, hw, hf⟩ := h.alike.object hi
  simp only [List.forall₂_cons_left_iff, List.forall₂_nil_left_iff] at hf
  obtain ⟨a, _, ha, ⟨r, _, -, ⟨p, _, hp, ⟨x, _, hx, rfl, rfl⟩, rfl⟩, rfl⟩, rfl⟩ := hf
  obtain ⟨t, rfl, hj⟩ := textItem?_of_formed h.formed_right hk hw
  have ht : Value.text t = Value.text i.text := hx.text rfl
  exact ⟨_, hj, ha, hp, (Value.text.inj ht).symm⟩

theorem AlikeItems.textItem?_eq_none (h : AlikeItems s v w) {k : Kind}
    (hk : k = .text ∨ k = .reasoning) (hv : s.textItem? k v = none) : s.textItem? k w = none := by
  cases hw : s.textItem? k w with
  | none => rfl
  | some j =>
    obtain ⟨i, hi, -⟩ := h.symm.text_item hk hw
    rw [hv] at hi
    cases hi

theorem AlikeItems.mergeable_eq (h : AlikeItems s v w) {k : Kind}
    (hk : k = .text ∨ k = .reasoning) :
    mergeable s k v = mergeable s k w := by
  have imp : ∀ {v w}, AlikeItems s v w → mergeable s k v = true → mergeable s k w = true := by
    intro v w h hm
    unfold mergeable at hm ⊢
    split at hm
    · next i hv =>
      obtain ⟨j, hw, ha, -⟩ := h.text_item hk hv
      rw [hw]
      simp only [Bool.not_eq_true'] at hm ⊢
      cases hj : s.hasAnnotations j.annotations with
      | false => rfl
      | true => rw [ha.symm.hasAnnotations hj] at hm; cases hm
    · cases hm
  exact Bool.eq_iff_iff.2 ⟨imp h, imp h.symm⟩

theorem AlikeItems.mergeKind_eq (h : AlikeItems s v w) : mergeKind? s v = mergeKind? s w := by
  simp only [mergeKind?, h.mergeable_eq (Or.inl rfl), h.mergeable_eq (Or.inr rfl)]

theorem AlikeItems.itemText_eq (h : AlikeItems s v w) {k : Kind} (hk : k = .text ∨ k = .reasoning) :
    itemText s k v = itemText s k w := by
  unfold itemText
  cases hv : s.textItem? k v with
  | some i =>
    obtain ⟨j, hw, -, -, ht⟩ := h.text_item hk hv
    rw [hw]
    exact ht
  | none => rw [h.textItem?_eq_none hk hv]

theorem AlikeItems.alike_itemProperties (h : AlikeItems s v w) {k : Kind}
    (hk : k = .text ∨ k = .reasoning) :
    s.Alike (itemProperties s k v) (itemProperties s k w) := by
  unfold itemProperties
  cases hv : s.textItem? k v with
  | some i =>
    obtain ⟨j, hw, -, hp, -⟩ := h.text_item hk hv
    rw [hw]
    exact hp
  | none =>
    rw [h.textItem?_eq_none hk hv]
    exact .refl s .null

theorem AlikeItems.merged (h : AlikeItems s v w) {k : Kind} (hk : mergeKind? s v = some k)
    {x y : Value} (hxy : AlikeItems s x y) :
    AlikeItems s (mergedItem s k v [x]) (mergedItem s k w [y]) := by
  have hkind := mergeKind?_cases hk
  refine ⟨?_, formed_mergedItem hk h.formed_left [x],
    formed_mergedItem (h.mergeKind_eq ▸ hk) h.formed_right [y]⟩
  refine alike_object rfl rfl (.cons (.refl s _) (.cons (.refl s _) (.cons ?_ (.cons ?_ .nil))))
  · exact h.alike_itemProperties hkind
  · simp only [h.itemText_eq hkind, hxy.itemText_eq hkind, List.map_cons, List.map_nil]
    exact .refl s _

theorem alike_join (h : AlikeItems s v w) {vs ws : List Value}
    (hvw : List.Forall₂ (AlikeItems s) vs ws) :
    List.Forall₂ (AlikeItems s) (join s v vs) (join s w ws) := by
  cases hvw with
  | nil => exact .cons h .nil
  | @cons x y xs ys hxy hxys =>
    by_cases hm : ∃ k, mergeKind? s v = some k ∧ mergeKind? s x = some k
    · obtain ⟨k, hv, hx⟩ := hm
      rw [join_of_same hv hx, join_of_same (h.mergeKind_eq ▸ hv) (hxy.mergeKind_eq ▸ hx)]
      exact .cons (h.merged hv hxy) hxys
    · rw [join_of_ne fun k hv hx => hm ⟨k, hv, hx⟩, join_of_ne fun k hw hy =>
        hm ⟨k, h.mergeKind_eq.trans hw, hxy.mergeKind_eq.trans hy⟩]
      exact .cons h (.cons hxy hxys)

/-- **Coalescing** makes alike what is alike. -/
theorem alike_joined {vs ws : List Value} (h : List.Forall₂ (AlikeItems s) vs ws) :
    List.Forall₂ (AlikeItems s) (joined s vs) (joined s ws) := by
  induction h with
  | nil => exact .nil
  | cons hvw _ ih => exact alike_join hvw ih

theorem forall₂_alikeItems_refl {vs : List Value} (h : ∀ v ∈ vs, s.formed .content v = true) :
    List.Forall₂ (AlikeItems s) vs vs :=
  List.forall₂_same.2 fun v hv => .refl (h v hv)

end

/-! ## A cut item -/

section
variable {s : Store} {c c₁ c₂ : Value}

theorem isUsage_of_textItem? {v : Value} {k : Kind} (hk : k = .text ∨ k = .reasoning)
    {i : TextItem} (h : s.head v = i.toValue k) : s.isUsage v = false := by
  rcases hk with rfl | rfl <;> simp [isUsage, usageItem?, h, TextItem.toValue]

theorem Cut.not_usage (h : Cut s c c₁ c₂) :
    s.isUsage c = false ∧ s.isUsage c₁ = false ∧ s.isUsage c₂ = false := by
  obtain ⟨k, hk, p, p₁, a, raw, p₂, t₁, t₂, hc, hc₁, -, hc₂, -⟩ := h.parts
  exact ⟨isUsage_of_textItem? hk hc, isUsage_of_textItem? hk hc₁, isUsage_of_textItem? hk hc₂⟩

theorem Cut.merged (h : Cut s c c₁ c₂) :
    ∃ k, mergeKind? s c₁ = some k ∧ mergeKind? s c₂ = some k ∧
      AlikeItems s c (mergedItem s k c₁ [c₂]) := by
  obtain ⟨k, hk, p, p₁, a, raw, p₂, t₁, t₂, hc, hc₁, hp, hc₂, ha⟩ := h.parts
  have hi₁ : s.textItem? k c₁ = some ⟨.null, .null, p₁, t₁⟩ := by
    simp [textItem?, hc₁, TextItem.toValue]
  have hi₂ : s.textItem? k c₂ = some ⟨a, raw, p₂, t₂⟩ := by simp [textItem?, hc₂, TextItem.toValue]
  have hm₁ : mergeable s k c₁ = true := by simp [mergeable, hi₁, hasAnnotations, items, head]
  have hm₂ : mergeable s k c₂ = true := by
    rcases ha with rfl | ha
    · simp [mergeable, hi₂, hasAnnotations, items, head]
    · simp [mergeable, hi₂, hasAnnotations, items, ha]
  have hkind : ∀ {v}, mergeable s k v = true → mergeKind? s v = some k := by
    intro v hv
    rcases hk with rfl | rfl
    · exact mergeKind?_of_text hv
    · exact mergeKind?_of_reasoning hv
  refine ⟨k, hkind hm₁, hkind hm₂, ?_, h.formed, formed_mergedItem (hkind hm₁) h.formed_left [c₂]⟩
  refine alike_object hc rfl (.cons (.refl s _) (.cons (.refl s _) (.cons ?_ (.cons ?_ .nil))))
  · rw [itemProperties, hi₁]
    exact hp
  · have ht : String.join (itemText s k c₁ :: [c₂].map (itemText s k)) = t₁ ++ t₂ := by
      simp [itemText, hi₁, hi₂]
    rw [ht]
    exact .refl s _

/-- A cut in the middle of a list does not show after coalescing. -/
theorem Cut.alike_joined (h : Cut s c c₁ c₂) {xs ys : List Value}
    (hx : ∀ v ∈ xs, s.formed .content v = true) (hy : ∀ v ∈ ys, s.formed .content v = true) :
    List.Forall₂ (AlikeItems s) (joined s (xs ++ c :: ys)) (joined s (xs ++ c₁ :: c₂ :: ys)) := by
  obtain ⟨k, hk₁, hk₂, ha⟩ := h.merged
  have hjoin : joined s (xs ++ c₁ :: c₂ :: ys) = joined s (xs ++ mergedItem s k c₁ [c₂] :: ys) := by
    rw [joined_append, joined_append, joined_cons, joined_cons, joined_cons,
      join_mergedItem hk₁ hk₂]
  rw [hjoin]
  exact Reassembly.alike_joined
    (List.rel_append (forall₂_alikeItems_refl hx) (.cons ha (forall₂_alikeItems_refl hy)))

end

/-! ## The fold of a stream that is cut elsewhere -/

section
variable {s : Store} {c c₁ c₂ : Value}

theorem feed_split (s : Store) (r : Response) (u : Update) (xs ys : List Value) :
    (r.feed s { u with contents := xs }).feed s { Update.blank with contents := ys } =
      r.feed s { u with contents := xs ++ ys } := by
  have whole : r.feed s { u with contents := xs ++ ys } =
      { r.feed s { u with contents := xs } with
        messages := (r.feed s { u with contents := xs ++ ys }).messages
        usage := addItems s (r.feed s { u with contents := xs }).usage ys } := by
    simp only [Response.feed, addItems_append]
  have absorb : ∀ m : Message, m.absorb s { u with contents := xs ++ ys } =
      { m.absorb s { u with contents := xs } with
        contents := (m.absorb s { u with contents := xs }).contents ++
          ys.filter fun c => !s.isUsage c } := by
    intro m
    simp only [Message.absorb, List.filter_append, List.append_assoc]
  rcases Response.messages_feed s r { u with contents := xs } with
    ⟨ho, -, hnew⟩ | ⟨ms, m, hm, hd, hnew⟩
  · rw [Response.feed_bare s hnew, whole,
      Response.messages_feed_of_opens s (u := { u with contents := xs ++ ys }) ho, absorb]
    rfl
  · rw [Response.feed_bare s hnew, whole,
      Response.messages_feed_of_last s (u := { u with contents := xs ++ ys }) hm hd, absorb]
    rfl

theorem feedAll_split (s : Store) (r : Response) (before after : List Update) (u : Update)
    (xs ys : List Value) :
    Response.feedAll s r (before ++ { u with contents := xs } ::
        { Update.blank with contents := ys } :: after) =
      Response.feedAll s r (before ++ { u with contents := xs ++ ys } :: after) := by
  rw [Response.feedAll_append, Response.feedAll_append]
  simp only [Response.feedAll, List.foldl_cons, feed_split]

theorem feed_blank (s : Store) {r : Response} (h : r.messages ≠ []) : r.feed s .blank = r := by
  rcases List.eq_nil_or_concat r.messages with hn | ⟨ms, m, hm⟩
  · exact absurd hn h
  · rw [List.concat_eq_append] at hm
    have hb := Response.feed_bare s hm [] .null
    simp only [List.filter_nil, List.append_nil] at hb
    refine hb.trans ?_
    obtain ⟨messages, _⟩ := r
    simp only at hm
    rw [hm]
    rfl

/-- An update that carries nothing may open the first message; the next update then fills it. -/
theorem feed_blank_first (s : Store) (u : Update) :
    (Response.empty.feed s .blank).feed s u = Response.empty.feed s u := by
  have hb : (Response.empty.feed s .blank).messages = [] ++ [.opened .null] := rfl
  have hm := Response.messages_feed_of_last s hb (u := u)
    (by simp [Message.differs, Message.opened])
  have hnew := Response.messages_feed_of_opens s (r := .empty) (u := u) rfl
  have hrole : newer u.role (newer u.role .null) = newer u.role .null := by
    by_cases h : u.role = .null <;> simp [newer, h]
  have habsorb : (Message.opened (Response.empty.openingRole u)).absorb s u =
      (Message.opened .null).absorb s u := by
    simp only [Message.absorb, Message.opened, Response.openingRole, Response.empty,
      List.getLast?_nil, Option.map_none, Option.getD_none, hrole]
  rw [habsorb] at hnew
  have hmessages := hm.trans hnew.symm
  simp only [Response.feed] at hmessages ⊢
  rw [hmessages]
  rfl

theorem feedAll_keepAlive (s : Store) {before after : List Update} (h : before ++ after ≠ []) :
    Response.feedAll s .empty (before ++ .blank :: after) =
      Response.feedAll s .empty (before ++ after) := by
  rcases List.eq_nil_or_concat before with rfl | ⟨us, u, rfl⟩
  · obtain ⟨u, us, rfl⟩ := List.exists_cons_of_ne_nil h
    simp only [List.nil_append, Response.feedAll, List.foldl_cons, feed_blank_first]
  · rw [List.concat_eq_append, Response.feedAll_append,
      Response.feedAll_append _ _ (us ++ [u]) after, Response.feedAll_append_singleton]
    have hne := Response.messages_feed_ne_nil s (Response.feedAll s .empty us) u
    exact congrArg (Response.feedAll s · after) (feed_blank s hne)

/-- The second message has the two parts where the first one has the item. -/
def CutIn (c c₁ c₂ : Value) (m n : Message) : Prop :=
  m = n ∨ ∃ xs ys, m.contents = xs ++ c :: ys ∧ n = { m with contents := xs ++ c₁ :: c₂ :: ys }

theorem cutIn_stable (s : Store) (c c₁ c₂ : Value) : Stable s (CutIn c c₁ c₂) where
  id := by
    rintro m n (rfl | ⟨xs, ys, -, rfl⟩) <;> rfl
  role := by
    rintro m n (rfl | ⟨xs, ys, -, rfl⟩) <;> rfl
  absorb := by
    rintro m n u (rfl | ⟨xs, ys, hm, rfl⟩)
    · exact Or.inl rfl
    · refine Or.inr ⟨xs, ys ++ kept s u, ?_, ?_⟩
      · rw [Message.absorb_contents, hm, List.append_assoc, List.cons_append]
      · simp only [Message.absorb, kept, List.append_assoc, List.cons_append]

/-- **The step at the cut.** All messages but the last are the same, and that one is cut. -/
theorem parallel_feed_cut (h : Cut s c c₁ c₂) (r : Response) (u : Update) (xs ys : List Value) :
    ∃ count, Parallel (CutIn c c₁ c₂) count (r.feed s { u with contents := xs ++ c :: ys })
      (r.feed s { u with contents := xs ++ c₁ :: c₂ :: ys }) := by
  obtain ⟨hc, hc₁, hc₂⟩ := h.not_usage
  have usage : addItems s r.usage (xs ++ c₁ :: c₂ :: ys) = addItems s r.usage (xs ++ c :: ys) := by
    rw [addItems_append, addItems_append]
    simp only [addItems, List.foldl_cons, addItem_of_not_usage hc, addItem_of_not_usage hc₁,
      addItem_of_not_usage hc₂]
  have others : r.feed s { u with contents := xs ++ c₁ :: c₂ :: ys } =
      { r.feed s { u with contents := xs ++ c :: ys } with
        messages := (r.feed s { u with contents := xs ++ c₁ :: c₂ :: ys }).messages } := by
    simp only [Response.feed, usage]
  have last : ∀ m : Message, CutIn c c₁ c₂ (m.absorb s { u with contents := xs ++ c :: ys })
      (m.absorb s { u with contents := xs ++ c₁ :: c₂ :: ys }) := by
    intro m
    refine Or.inr ⟨m.contents ++ xs.filter fun c => !s.isUsage c,
      ys.filter fun c => !s.isUsage c, ?_, ?_⟩
    · simp [Message.absorb, hc]
    · simp [Message.absorb, hc₁, hc₂]
  have same : ∀ ms : List Message, List.Forall₂ (CutIn c c₁ c₂) ms ms := fun ms =>
    List.forall₂_same.2 fun m _ => Or.inl rfl
  rcases Response.messages_feed s r { u with contents := xs ++ c :: ys } with
    ⟨ho, -, hnew⟩ | ⟨ms, m, hm, hd, hnew⟩
  · have hcut := Response.messages_feed_of_opens s
      (u := { u with contents := xs ++ c₁ :: c₂ :: ys }) ho
    rw [hcut] at others
    have hpair := forall₂_concat_iff.2 ⟨same r.messages, last (.opened (r.openingRole u))⟩
    exact ⟨_, _, _, [], by rw [List.append_nil, hnew]; rfl, by rw [List.append_nil, others]; rfl,
      hpair, rfl⟩
  · have hcut := Response.messages_feed_of_last s
      (u := { u with contents := xs ++ c₁ :: c₂ :: ys }) hm hd
    rw [hcut] at others
    have hpair := forall₂_concat_iff.2 ⟨same ms, last m⟩
    exact ⟨_, _, _, [], by rw [List.append_nil, hnew], by rw [List.append_nil, others], hpair, rfl⟩

/-! ## Responses that are alike -/

theorem alike_message {m n : Message} (hn : n = { m with contents := n.contents })
    (h : List.Forall₂ s.Alike m.contents n.contents) : s.Alike m.toValue n.toValue := by
  rw [hn]
  exact alike_object rfl rfl (.cons (.refl s _) (.cons (alike_list h) (.cons (.refl s _)
    (.cons (.refl s _) (.cons (.refl s _) (.cons (.refl s _) (.cons (.refl s _) .nil)))))))

theorem alike_settled_of_cutIn (h : Cut s c c₁ c₂) {m n : Message} (hm : m.Formed s)
    (hmn : CutIn c c₁ c₂ m n) : s.Alike (m.settled s true).toValue (n.settled s true).toValue := by
  rcases hmn with rfl | ⟨xs, ys, hc, rfl⟩
  · exact .refl s _
  · have hall := hm.contents
    rw [hc, List.forall_mem_append, List.forall_mem_cons] at hall
    have hj := h.alike_joined hall.1 hall.2.2
    refine alike_message rfl ?_
    simp only [Message.settled, if_true, hc]
    exact hj.imp fun _ _ ha => ha.alike

theorem alike_settled_of_parallel (h : Cut s c c₁ c₂) {count : Nat} {r q : Response}
    (hr : r.Formed s) (hp : Parallel (CutIn c c₁ c₂) count r q) :
    s.Alike (r.settled s true).toValue (q.settled s true).toValue := by
  obtain ⟨as, bs, rest, hm, rfl, hab, -⟩ := hp
  have hall := hr.messages
  rw [hm, List.forall_mem_append] at hall
  have first : List.Forall₂ s.Alike (as.map fun m => (m.settled s true).toValue)
      (bs.map fun m => (m.settled s true).toValue) := by
    rw [List.forall₂_map_left_iff, List.forall₂_map_right_iff]
    rw [List.forall₂_iff_zip] at hab ⊢
    exact ⟨hab.1, fun {m n} hz =>
      alike_settled_of_cutIn h (hall.1 m (List.of_mem_zip hz).1) (hab.2 hz)⟩
  have messages : List.Forall₂ s.Alike
      (((as ++ rest).map (Message.settled s true)).map (·.toValue))
      (((bs ++ rest).map (Message.settled s true)).map (·.toValue)) := by
    simp only [List.map_map, List.map_append]
    exact List.rel_append first (List.forall₂_same.2 fun v _ => .refl s v)
  refine alike_object rfl rfl (.cons ?_ (List.forall₂_same.2 fun v _ => .refl s v))
  rw [← hm] at messages
  exact alike_list messages

/-! ## Streams that are cut elsewhere -/

theorem Update.formed_contents_iff (s : Store) (u : Update) (xs : List Value) :
    ({ u with contents := xs } : Update).Formed s ↔
      ({ u with contents := [] } : Update).Formed s ∧ ∀ c ∈ xs, s.formed .content c = true := by
  constructor
  · intro h
    exact ⟨{ h with contents := fun c hc => by cases hc }, h.contents⟩
  · intro h
    obtain ⟨h, hxs⟩ := h
    exact { h with contents := hxs }

theorem Update.Formed.blank : Update.blank.Formed s where
  role := rfl
  contents := fun c hc => by cases hc
  author := rfl
  responseId := rfl
  messageId := rfl
  conversationId := rfl
  created := rfl
  finish := rfl
  model := rfl
  properties := rfl

/-- A change to where a stream is cut leaves the updates valid, or makes them so. -/
theorem Rechunk.formed_iff {us vs : List Update} (h : Rechunk s us vs) :
    (∀ u ∈ us, u.Formed s) ↔ ∀ u ∈ vs, u.Formed s := by
  cases h with
  | @cut before after u xs ys c c₁ c₂ h =>
    have whole := Update.formed_contents_iff s u (xs ++ c :: ys)
    have parts := Update.formed_contents_iff s u (xs ++ c₁ :: c₂ :: ys)
    simp only [List.forall_mem_append, List.forall_mem_cons, h.formed, h.formed_left,
      h.formed_right, true_and] at whole parts ⊢
    rw [whole, parts]
  | split before after u xs ys =>
    have whole := Update.formed_contents_iff s u (xs ++ ys)
    have left := Update.formed_contents_iff s u xs
    have right : ({ Update.blank with contents := ys } : Update).Formed s ↔
        ∀ c ∈ ys, s.formed .content c = true :=
      (Update.formed_contents_iff s .blank ys).trans (and_iff_right Update.Formed.blank)
    simp only [List.forall_mem_append, List.forall_mem_cons] at whole ⊢
    rw [whole, left, right, and_assoc, and_assoc, and_assoc]
  | keepAlive before after h =>
    simp only [List.forall_mem_append, List.forall_mem_cons, Update.Formed.blank, true_and]

theorem Rechunk.alike {us vs : List Update} (h : Rechunk s us vs) (hu : ∀ u ∈ us, u.Formed s) :
    s.Alike ((Response.feedAll s .empty us).settled s true).toValue
      ((Response.feedAll s .empty vs).settled s true).toValue := by
  cases h with
  | cut before after u xs ys h =>
    have hformed := Response.Formed.empty.feedAll hu
    rw [Response.feedAll_append, Response.feedAll, List.foldl_cons] at hformed
    rw [Response.feedAll_append, Response.feedAll_append]
    simp only [Response.feedAll, List.foldl_cons] at hformed ⊢
    obtain ⟨count, hp⟩ := parallel_feed_cut h (before.foldl (Response.feed s) .empty) u xs ys
    exact alike_settled_of_parallel h hformed (hp.feedAll (cutIn_stable s _ _ _) after)
  | split before after u xs ys =>
    rw [feedAll_split]
    exact .refl s _
  | keepAlive before after h =>
    rw [feedAll_keepAlive s h]
    exact .refl s _

/-- Any number of changes to where a stream is cut, in either direction. -/
theorem alike_of_rechunks {us vs : List Update} (h : Relation.EqvGen (Rechunk s) us vs) :
    ((∀ u ∈ us, u.Formed s) ↔ ∀ u ∈ vs, u.Formed s) ∧ ((∀ u ∈ us, u.Formed s) →
      s.Alike ((Response.feedAll s .empty us).settled s true).toValue
        ((Response.feedAll s .empty vs).settled s true).toValue) := by
  induction h with
  | rel us vs h => exact ⟨h.formed_iff, h.alike⟩
  | refl us => exact ⟨Iff.rfl, fun _ => .refl s _⟩
  | symm us vs _ ih => exact ⟨ih.1.symm, fun hv => (ih.2 (ih.1.2 hv)).symm⟩
  | trans us vs ws _ _ ih₁ ih₂ =>
    exact ⟨ih₁.1.trans ih₂.1, fun hu => (ih₁.2 hu).trans (ih₂.2 (ih₁.1.1 hu))⟩

/-- **Chunk boundaries do not matter.** However the chunks of a valid stream are cut, coalescing
makes responses of them that are alike. -/
theorem ofUpdates_rechunk {us vs : List Update} (hu : ∀ u ∈ us, s.formed .update u.toValue = true)
    (h : Relation.EqvGen (Rechunk s) us vs) :
    ∃ r q, Response.ofUpdates s us true = .ok r ∧ Response.ofUpdates s vs true = .ok q ∧
      s.Alike r.toValue q.toValue := by
  have hu : ∀ u ∈ us, u.Formed s := fun u hm => formed_update_iff.1 (hu u hm)
  obtain ⟨hformed, halike⟩ := alike_of_rechunks h
  exact ⟨_, _, ofUpdates_of_formed hu true, ofUpdates_of_formed (hformed.1 hu) true, halike hu⟩

end

/-- A text in one item, and the same text cut inside, its second part in an update of its own,
with a keep-alive in between. -/
theorem ofUpdates_rechunk_hello :
    ∃ r q,
      Response.ofUpdates .empty [{ Update.blank with contents := [plainText "hello"] }] true =
        .ok r ∧
      Response.ofUpdates .empty
        [{ Update.blank with contents := [plainText "hel"] }, .blank,
          { Update.blank with contents := [plainText "lo"] }] true = .ok q ∧
      Store.empty.Alike r.toValue q.toValue := by
  have cut : Cut .empty (plainText "hello") (plainText "hel") (plainText "lo") :=
    ⟨by decide, by decide, by decide, .text, Or.inl rfl, .null, .null, .null, .null, .null, "hel",
      "lo", rfl, rfl, .refl _ _, rfl, Or.inl rfl⟩
  refine ofUpdates_rechunk (by decide) (.trans _ _ _ (.rel _ _ (.cut [] [] .blank [] [] cut))
    (.trans _ _ _ (.rel _ _ (.split [] [] .blank [plainText "hel"] [plainText "lo"]))
      (.rel _ _ (.keepAlive [{ Update.blank with contents := [plainText "hel"] }] _ (by simp)))))

end Reassembly
