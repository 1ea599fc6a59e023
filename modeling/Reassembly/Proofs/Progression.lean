import Reassembly.Proofs.Bench
import Reassembly.Proofs.Losses
import Reassembly.Proofs.Totals

/-!
# The response in progress only grows

Feeding adds to the response in progress. Messages come at the end, content items come at the end of
the last message, and keys at the end of their maps; what is known is replaced by something that is
known, and the id of a message is never replaced. So a message with another one after it is final
while the stream lasts, but for its contents being coalesced in the end.

* `Message.Advances`, `Usage.Advances`, `Response.Advances`: what may become of each of them.
* `Message.advances_absorb`, `Usage.Formed.advances_add`: one message and one sum.
* `Response.InProgress`: what is true of every response in progress; feeding keeps it and lets the
  response advance (`InProgress.feed`, `InProgress.advances_feed`).
* `Store.Streams`, `Store.AtWork`: a stream that goes into an accumulator, and the accumulators that
  there can be.
* `response_only_grows`: **one update**, and all that come after it.
-/
namespace Reassembly

open Store Response

/-- What is known does not become unknown. -/
def Lasts (old new : Value) : Prop := old ≠ .null → new ≠ .null

/-- A message keeps what it has: items come to its end, and its id is given once. -/
structure Message.Advances (m n : Message) : Prop where
  role : Lasts m.role n.role
  contents : m.contents <+: n.contents
  author : Lasts m.author n.author
  created : Lasts m.created n.created
  id : m.id ≠ .null → n.id = m.id
  raw : n.raw = m.raw
  properties : n.properties = m.properties

/-- Counters keep what they have: a counter that is known stays known, and names come to the end. -/
structure Usage.Advances (s : Store) (u w : Usage) : Prop where
  input : Lasts u.input w.input
  output : Lasts u.output w.output
  total : Lasts u.total w.total
  counts : Lasts u.counts w.counts
  names : keysOf s u.counts <+: keysOf s w.counts

/-- A response keeps what it has: messages come to its end, and of those that are there only the
last one changes. -/
structure Response.Advances (s : Store) (r q : Response) : Prop where
  messages : ∀ i m, r.messages[i]? = some m →
    ∃ n, q.messages[i]? = some n ∧ m.Advances n ∧ (i + 1 < r.messages.length → n = m)
  id : Lasts r.id q.id
  conversationId : Lasts r.conversationId q.conversationId
  model : Lasts r.model q.model
  created : Lasts r.created q.created
  finish : Lasts r.finish q.finish
  raw : q.raw = r.raw
  usage : Lasts r.usage q.usage
  counters : (s.usage r.usage).Advances s (s.usage q.usage)
  properties : Lasts r.properties q.properties
  keys : keysOf s r.properties <+: keysOf s q.properties

/-! ## One after the other -/

theorem Lasts.refl (v : Value) : Lasts v v := id

theorem Lasts.trans {u v w : Value} (h : Lasts u v) (k : Lasts v w) : Lasts u w :=
  fun hu => k (h hu)

theorem lasts_newer (new old : Value) : Lasts old (newer new old) :=
  fun h hn => h (newer_eq_null.1 hn).2

theorem Message.Advances.refl (m : Message) : m.Advances m :=
  ⟨.refl _, List.prefix_refl _, .refl _, .refl _, fun _ => rfl, rfl, rfl⟩

theorem Message.Advances.trans {l m n : Message} (h : l.Advances m) (k : m.Advances n) :
    l.Advances n where
  role := h.role.trans k.role
  contents := h.contents.trans k.contents
  author := h.author.trans k.author
  created := h.created.trans k.created
  id := by
    intro hl
    have hm := h.id hl
    rw [k.id (by rw [hm]; exact hl), hm]
  raw := k.raw.trans h.raw
  properties := k.properties.trans h.properties

section
variable {s t : Store} {r q p : Response} {u w y : Usage}

theorem Usage.Advances.refl (s : Store) (u : Usage) : u.Advances s u :=
  ⟨.refl _, .refl _, .refl _, .refl _, List.prefix_refl _⟩

theorem Usage.Advances.trans (h : u.Advances s w) (k : w.Advances s y) : u.Advances s y where
  input := h.input.trans k.input
  output := h.output.trans k.output
  total := h.total.trans k.total
  counts := h.counts.trans k.counts
  names := h.names.trans k.names

theorem Response.Advances.refl (s : Store) (r : Response) : r.Advances s r where
  messages := fun _ m hm => ⟨m, hm, .refl m, fun _ => rfl⟩
  id := .refl _
  conversationId := .refl _
  model := .refl _
  created := .refl _
  finish := .refl _
  raw := rfl
  usage := .refl _
  counters := .refl s _
  properties := .refl _
  keys := List.prefix_refl _

theorem Response.Advances.length_le (h : r.Advances s q) :
    r.messages.length ≤ q.messages.length := by
  by_contra hlt
  have hq : q.messages.length < r.messages.length := by omega
  obtain ⟨n, hn, -⟩ := h.messages _ _ (List.getElem?_eq_getElem hq)
  rw [List.getElem?_eq_none (Nat.le_refl _)] at hn
  cases hn

theorem Response.Advances.trans (h : r.Advances s q) (k : q.Advances s p) : r.Advances s p where
  messages := by
    intro i l hl
    obtain ⟨m, hm, hlm, hsame⟩ := h.messages i l hl
    obtain ⟨n, hn, hmn, hlast⟩ := k.messages i m hm
    have hle := h.length_le
    refine ⟨n, hn, hlm.trans hmn, fun hi => ?_⟩
    rw [hlast (by omega), hsame hi]
  id := h.id.trans k.id
  conversationId := h.conversationId.trans k.conversationId
  model := h.model.trans k.model
  created := h.created.trans k.created
  finish := h.finish.trans k.finish
  raw := k.raw.trans h.raw
  usage := h.usage.trans k.usage
  counters := h.counters.trans k.counters
  properties := h.properties.trans k.properties
  keys := h.keys.trans k.keys

/-! ## One message -/

/-- **A message that takes an update in.** It takes in none that names another id than its own. -/
theorem Message.advances_absorb {m : Message} {u : Update} (hu : u.Formed s)
    (hd : m.differs u = false) : m.Advances (m.absorb s u) where
  role := lasts_newer _ _
  contents := List.prefix_append _ _
  author := by
    rw [absorb_author_of_obeys hu.author]
    exact lasts_newer _ _
  created := lasts_newer _ _
  id := absorb_id_of_not_differs s hd
  raw := rfl
  properties := rfl

/-- **The messages.** An update changes the last one, or puts one after it. -/
theorem advances_messages {u : Update} (hu : u.Formed s) {i : Nat} {m : Message}
    (hm : r.messages[i]? = some m) :
    ∃ n, (r.feed s u).messages[i]? = some n ∧ m.Advances n ∧
      (i + 1 < r.messages.length → n = m) := by
  rcases messages_feed s r u with ⟨-, -, hnew⟩ | ⟨ms, last, hr, hd, hlast⟩
  · have hi := (List.getElem?_eq_some_iff.1 hm).1
    refine ⟨m, ?_, .refl m, fun _ => rfl⟩
    rw [hnew, List.getElem?_append_left hi, hm]
  · rw [hr] at hm ⊢
    rw [hlast]
    by_cases hi : i < ms.length
    · rw [List.getElem?_append_left hi] at hm ⊢
      exact ⟨m, hm, .refl m, fun _ => rfl⟩
    · -- the message is the last one, so nothing is promised for those before the last
      have hlt := (List.getElem?_eq_some_iff.1 hm).1
      rw [List.length_append, List.length_singleton] at hlt ⊢
      obtain rfl : i = ms.length := by omega
      rw [List.getElem?_concat_length, Option.some.injEq] at hm
      rw [List.getElem?_concat_length, ← hm]
      exact ⟨_, rfl, Message.advances_absorb hu hd, fun h => by omega⟩

theorem messages_feed_append (s : Store) (r : Response) (u : Update) :
    (r.feed s u).messages.length = r.messages.length ∨
      ∃ m, (r.feed s u).messages = r.messages ++ [m] := by
  rcases messages_feed s r u with ⟨-, -, hnew⟩ | ⟨ms, last, hr, -, hlast⟩
  · exact Or.inr ⟨_, hnew⟩
  · refine Or.inl ?_
    rw [hlast, hr]
    simp

theorem last_feed (s : Store) (r : Response) (u : Update) :
    ∃ ms m, (r.feed s u).messages = ms ++ [m] ∧ kept s u <:+ m.contents ∧
      (u.named ≠ .null → m.id = u.named) := by
  have htaken : ∃ ms, ∃ m : Message, (r.feed s u).messages = ms ++ [m.absorb s u] := by
    rcases messages_feed s r u with ⟨-, -, hnew⟩ | ⟨ms, last, -, -, hlast⟩
    · exact ⟨_, _, hnew⟩
    · exact ⟨ms, last, hlast⟩
  obtain ⟨ms, m, hm⟩ := htaken
  refine ⟨ms, _, hm, ?_, fun hu => ?_⟩
  · rw [Message.absorb_contents]
    exact List.suffix_append _ _
  · rw [Message.absorb_id, newer_of_ne _ hu]

/-! ## Usage -/

theorem lasts_knownSum {a b : Value} (ha : s.obeys (.optional .integer) a = true)
    (hb : s.obeys (.optional .integer) b = true) : Lasts a (s.knownSum a b) := by
  intro hn
  obtain ⟨m, rfl⟩ := (obeys_counter.1 ha).resolve_left hn
  rcases obeys_counter.1 hb with rfl | ⟨n, rfl⟩
  · rw [knownSum_int_null]
    exact hn
  · rw [knownSum_int]
    exact nofun

theorem keys_prefix_addCounts (s : Store) (es fs : Entries Value) :
    es.keys <+: (s.addCounts es fs).keys := by
  induction fs generalizing es with
  | nil => exact List.prefix_refl _
  | cons f fs ih => exact (Entries.keys_prefix_put f.1 _ es).trans (ih (s.addCount es f))

/-- Named counts that are written out, or missing, have the same names in every store. -/
theorem advances_addNamed (s t : Store) {a : Value} (ha : a = .null ∨ ∃ es, a = .map es)
    (b : Value) :
    Lasts a (s.addNamed a b) ∧ keysOf t a <+: keysOf t (s.addNamed a b) := by
  rcases ha with rfl | ⟨es, rfl⟩
  · exact ⟨fun h => absurd rfl h, List.nil_prefix⟩
  · have hn : Value.map es ≠ .null := nofun
    unfold addNamed
    rw [if_neg hn]
    split
    · exact ⟨.refl _, List.prefix_refl _⟩
    · split
      · next es' fs hes _ =>
        obtain rfl : es = es' := Option.some.inj hes
        exact ⟨fun _ => nofun, keys_prefix_addCounts s es fs⟩
      · exact ⟨.refl _, List.prefix_refl _⟩

theorem Usage.Formed.advances_add (hu : u.Formed s) (hw : w.Formed s)
    (hc : u.counts = .null ∨ ∃ es, u.counts = .map es) (t : Store) :
    u.Advances t (u.add s w) where
  input := lasts_knownSum hu.input hw.input
  output := lasts_knownSum hu.output hw.output
  total := lasts_knownSum hu.total hw.total
  counts := (advances_addNamed s t hc w.counts).1
  names := (advances_addNamed s t hc w.counts).2

theorem Tallied.usage {v : Value} (h : Tallied v) (s t : Store) : s.usage v = t.usage v := by
  rcases h with rfl | ⟨u, rfl, -⟩
  · rfl
  · rw [usage_toValue, usage_toValue]

theorem Tallied.counts {v : Value} (h : Tallied v) (s : Store) :
    (s.usage v).counts = .null ∨ ∃ es, (s.usage v).counts = .map es := by
  rcases h with rfl | ⟨u, rfl, hc⟩
  · exact Or.inl rfl
  · exact hc

theorem Tallied.obeys {v : Value} (h : Tallied v)
    (ho : s.obeys (.optional (.one .details)) v = true) (t : Store) :
    t.obeys (.optional (.one .details)) v = true := by
  rcases h with rfl | ⟨u, rfl, hc⟩
  · rfl
  · have hu : u.Formed s := usage_formed ho
    have hcounts : t.obeys (.optional .counts) u.counts = true := by
      rcases hc with hn | ⟨es, hes⟩
      · rw [hn]
        rfl
      · have hs := hu.counts
        rw [hes] at hs ⊢
        exact hs
    exact obeys_optional.2 (Or.inr (formed_usage_toValue
      ⟨obeys_counter.2 (obeys_counter.1 hu.input), obeys_counter.2 (obeys_counter.1 hu.output),
        obeys_counter.2 (obeys_counter.1 hu.total), hcounts⟩))

theorem advances_addItems {total : Value} {items : List Value} (ht : Tallied total)
    (ho : s.obeys (.optional (.one .details)) total = true)
    (hi : ∀ c ∈ items, s.formed .content c = true) (t : Store) :
    (t.usage total).Advances t (t.usage (addItems s total items)) := by
  induction items generalizing total with
  | nil => exact .refl t _
  | cons c cs ih =>
    obtain ⟨hc, hcs⟩ := List.forall_mem_cons.1 hi
    have hstep : (t.usage total).Advances t (t.usage (addItem s total c)) := by
      rcases addItem_cases s total c with hsame | ⟨details, hd, hsum⟩
      · rw [hsame]
        exact .refl t _
      · rw [hsum, usage_toValue, ht.usage t s]
        exact (usage_formed ho).advances_add (usage_formed (obeys_of_usageItem? hc hd))
          (ht.counts s) t
    exact hstep.trans (ih (tallied_addItem ht c) (obeys_addItem ho hc) hcs)

/-! ## The response in progress -/

/-- The usage of a response in progress is a sum, and its properties are a map of its own. -/
structure Response.InProgress (r : Response) : Prop where
  tallied : Tallied r.usage
  usage : ∀ s : Store, s.obeys (.optional (.one .details)) r.usage = true
  properties : r.properties = .null ∨ ∃ es, r.properties = .map es

theorem Response.InProgress.empty : Response.empty.InProgress :=
  ⟨Or.inl rfl, fun _ => rfl, Or.inl rfl⟩

theorem Response.InProgress.of_messages (h : r.InProgress) (ms : List Message) :
    ({ r with messages := ms } : Response).InProgress := ⟨h.tallied, h.usage, h.properties⟩

theorem Response.InProgress.feed (h : r.InProgress) {u : Update} (hu : u.Formed s) :
    (r.feed s u).InProgress where
  tallied := tallied_addItems h.tallied u.contents
  usage :=
    (tallied_addItems h.tallied u.contents).obeys (obeys_addItems (h.usage s) hu.contents)
  properties := by
    simp only [Response.feed, mergeProperties]
    split
    · exact h.properties
    · exact Or.inr ⟨_, rfl⟩

/-- **Feeding lets the response advance.** -/
theorem Response.InProgress.advances_feed (h : r.InProgress) {u : Update} (hu : u.Formed s)
    (t : Store) : r.Advances t (r.feed s u) where
  messages := fun _ _ => advances_messages hu
  id := lasts_newer _ _
  conversationId := lasts_newer _ _
  model := lasts_newer _ _
  created := lasts_newer _ _
  finish := lasts_newer _ _
  raw := rfl
  usage := fun hn hnull => hn (addItems_eq_null_iff.1 hnull).1
  counters := advances_addItems h.tallied (h.usage s) hu.contents t
  properties := fun hn hnull => hn (mergeProperties_eq_null_iff.1 hnull).1
  keys := by
    rcases h.properties with hp | ⟨es, hp⟩
    · rw [hp]
      exact List.nil_prefix
    · show keysOf t r.properties <+: keysOf t (mergeProperties s r.properties u.properties)
      rw [hp]
      unfold mergeProperties
      split
      · exact List.prefix_refl _
      · exact Entries.keys_prefix_merge es _

end

/-! ## Accumulators at work -/

/-- The response in progress of the accumulator in a cell. -/
def Store.progress (s : Store) (x : Nat) : Response := (s.accumulator (.shared x)).response

/-- A stream goes into the accumulator in a cell: it is fed with updates that obey their rules when
their turn comes. Meanwhile anything may happen that leaves its response in progress alone. -/
inductive Store.Streams (x : Nat) (s : Store) : Store → Prop where
  | start : Streams x s s
  | feed {t : Store} {u : Value} (h : Streams x s t) (hu : t.formed .update u = true) :
      Streams x s (t.feed (.shared x) u)
  | meanwhile {t later : Store} {a : Accumulator} (h : Streams x s t)
      (ha : later.cell x = a.toValue) (same : a.response = t.progress x) : Streams x s later

/-- There is an accumulator in the cell. It was new once; since then streams have gone into it, and
it has been finalized, or that has been tried. -/
inductive Store.AtWork (x : Nat) : Store → Prop where
  | new {s : Store} (coalesce : Value) (h : s.cell x = (Accumulator.new coalesce).toValue) :
      AtWork x s
  | streams {s t : Store} (h : AtWork x s) (ht : s.Streams x t) : AtWork x t
  | finalize {s : Store} (h : AtWork x s) : AtWork x (s.finalize (.shared x)).1

/-- The cell holds an accumulator whose response is one in progress. -/
def Store.Busy (s : Store) (x : Nat) : Prop :=
  ∃ a : Accumulator, s.cell x = a.toValue ∧ a.response.InProgress

section
variable {s t : Store} {x : Nat}

theorem lt_size_of_accumulator {a : Accumulator} (h : s.cell x = a.toValue) : x < s.size :=
  lt_size_of_cell h (by simp [Accumulator.toValue])

theorem progress_of_cell {a : Accumulator} (h : s.cell x = a.toValue) :
    s.progress x = a.response := by
  rw [progress, accumulator_of_cell h]

theorem Store.Busy.inProgress (h : s.Busy x) : (s.progress x).InProgress := by
  obtain ⟨a, ha, hr⟩ := h
  rw [progress_of_cell ha]
  exact hr

/-- **Feeding an accumulator** writes to its cell only, which then has taken the update in. -/
theorem Store.Busy.feed (h : s.Busy x) {u : Value} (hu : s.formed .update u = true) :
    (s.feed (.shared x) u).Busy x ∧
      (s.feed (.shared x) u).progress x = (s.progress x).feed s (s.update u) ∧
      ∀ y, y ≠ x → (s.feed (.shared x) u).cell y = s.cell y := by
  obtain ⟨a, ha, hr⟩ := h
  have hread : (s.update u).Formed s := (formed_update hu).1
  -- the counts are whole numbers, which do not grow in place
  have hfeed : s.feed (.shared x) u =
      s.write (.shared x) (a.feed s (s.update u)).toValue := by
    unfold Store.feed
    simp only [accumulator_of_cell ha, growItemLists_of_formed (hr.usage s) hread.contents]
  have hcell : (s.feed (.shared x) u).cell x = (a.feed s (s.update u)).toValue := by
    rw [hfeed]
    exact s.cell_write_self (lt_size_of_accumulator ha)
  refine ⟨⟨_, hcell, hr.feed hread⟩, ?_, fun y hy => ?_⟩
  · rw [progress_of_cell hcell, progress_of_cell ha]
    rfl
  · rw [hfeed]
    exact s.cell_write_of_ne fun he => hy (Value.shared.inj he).symm

theorem Response.InProgress.settle {a : Accumulator} (h : a.response.InProgress) (s : Store) :
    (s.settleResponse (a.finished s).result).2.InProgress := by
  have hresult : (a.finished s).result.InProgress := by
    unfold Accumulator.finished Response.coalesced
    split
    · exact h.of_messages _
    · exact h
  exact hresult.of_messages _

theorem Store.Busy.finalize (h : s.Busy x) : (s.finalize (.shared x)).1.Busy x := by
  obtain ⟨a, ha, hr⟩ := h
  have hsettled := s.extends_settleResponse (a.finished s).result
  have hinside : ∀ {later : Store}, s.Extends later → x < later.size :=
    fun h => Nat.lt_of_lt_of_le (lt_size_of_accumulator ha) (List.IsPrefix.length_le h)
  simp only [Store.finalize, accumulator_of_cell ha]
  split
  · exact ⟨a.renewed, cell_write_self _ (hinside (hsettled.trans (extends_intern _ _))), .empty⟩
  · exact ⟨_, cell_write_self _ (hinside hsettled), hr.settle s⟩

/-- **A stream** keeps the accumulator busy, and lets its response advance. -/
theorem Store.Busy.streams (h : s.Busy x) (ht : s.Streams x t) :
    t.Busy x ∧ ∀ w, (s.progress x).Advances w (t.progress x) := by
  induction ht with
  | start => exact ⟨h, fun w => .refl w _⟩
  | @feed t u _ hu ih =>
    obtain ⟨hbusy, hadvances⟩ := ih
    obtain ⟨hfed, hprogress, -⟩ := hbusy.feed hu
    refine ⟨hfed, fun w => (hadvances w).trans ?_⟩
    rw [hprogress]
    exact hbusy.inProgress.advances_feed (formed_update hu).1 w
  | @meanwhile t later a _ ha same ih =>
    obtain ⟨hbusy, hadvances⟩ := ih
    have hprogress : later.progress x = t.progress x := (progress_of_cell ha).trans same
    refine ⟨⟨a, ha, same ▸ hbusy.inProgress⟩, ?_⟩
    rw [hprogress]
    exact hadvances

/-- **Every accumulator** is busy with a response in progress. -/
theorem Store.AtWork.busy (h : s.AtWork x) : s.Busy x := by
  induction h with
  | new coalesce h => exact ⟨_, h, .empty⟩
  | streams _ ht ih => exact (ih.streams ht).1
  | finalize _ ih => exact ih.finalize

/-! ## What is handed over -/

/-- The message with its contents coalesced, if wanted. -/
def Message.coalesced (s : Store) (wanted : Bool) (m : Message) : Message :=
  if wanted then { m with contents := (coalesce s m.contents).result } else m

theorem coalesceMessages_done {ms out : List Message} (h : coalesceMessages s ms = .done out) :
    out = ms.map (Message.coalesced s true) := by
  induction ms generalizing out with
  | nil => exact (Attempt.mk.inj h).1.symm
  | cons m ms ih =>
    rw [coalesceMessages] at h
    split at h
    · obtain ⟨hout, hproblems⟩ := Attempt.mk.inj h
      have hrest : coalesceMessages s ms = .done (coalesceMessages s ms).result :=
        congrArg (Attempt.mk _) hproblems
      rw [← hout, ih hrest]
      rfl
    · next hnot =>
      refine absurd ?_ hnot
      rw [Attempt.isDone, (Attempt.mk.inj h).2]
      rfl

theorem messages_finished {a : Accumulator} {r : Response} (h : a.finished s = .done r) :
    r.messages = a.response.messages.map (Message.coalesced s (s.isTrue a.coalesce)) := by
  rw [Accumulator.finished, Response.coalesced] at h
  split at h
  · next hwanted =>
    obtain ⟨hr, hproblems⟩ := Attempt.mk.inj h
    rw [← hr, hwanted]
    exact coalesceMessages_done (congrArg (Attempt.mk _) hproblems)
  · next hnot =>
    rw [← (Attempt.mk.inj h).1, eq_false_of_ne_true hnot]
    exact (List.map_id'' (fun _ => rfl) _).symm

/-- **The response in progress only grows.** An accumulator at work that is fed with an update stays
at work, and no other object changes. The messages stay as many as they were, or one comes to their
end; the last one then has the items of the update at its end. And the response advances: of the old
messages only the last one changes, and only by items that come to its end, by an id if it had none,
and by what becomes known. So it goes on while the stream lasts. A message with another one after it
stays as it is, and when the response is finished it has this message, coalesced if that is
wanted. -/
theorem response_only_grows (hs : s.AtWork x) {u : Value} (hu : s.formed .update u = true) :
    let fed := s.feed (.shared x) u
    fed.AtWork x ∧ (∀ y, y ≠ x → fed.cell y = s.cell y) ∧
      ((fed.progress x).messages.length = (s.progress x).messages.length ∨
        ∃ m, (fed.progress x).messages = (s.progress x).messages ++ [m]) ∧
      (∃ ms m, (fed.progress x).messages = ms ++ [m] ∧ kept s (s.update u) <:+ m.contents ∧
        ((s.update u).named ≠ .null → m.id = (s.update u).named)) ∧
      (∀ w, (s.progress x).Advances w (fed.progress x)) ∧
      ∀ t a, fed.Streams x t → t.accumulator (.shared x) = a →
        (∀ w, (fed.progress x).Advances w a.response) ∧
        (t.formed .response a.response.toValue = true → ∃ r, a.finished t = .done r) ∧
        ∀ i m, (fed.progress x).messages[i]? = some m →
          i + 1 < (fed.progress x).messages.length →
          a.response.messages[i]? = some m ∧
          ∀ r, a.finished t = .done r →
            r.messages[i]? = some (m.coalesced t (t.isTrue a.coalesce)) := by
  intro fed
  obtain ⟨hbusy, hprogress, hothers⟩ := hs.busy.feed hu
  refine ⟨hs.streams (.feed .start hu), hothers, ?_, ?_, fun w => ?_, ?_⟩
  · rw [hprogress]
    exact messages_feed_append s _ _
  · rw [hprogress]
    exact last_feed s _ _
  · rw [hprogress]
    exact hs.busy.inProgress.advances_feed (formed_update hu).1 w
  · rintro t a ht rfl
    have hadvances := (hbusy.streams ht).2
    refine ⟨hadvances, fun hformed => ?_, fun i m hm hi => ?_⟩
    · have hread := (formed_response hformed).1
      rw [response_toValue] at hread
      exact ⟨_, coalesced_of_formed hread _⟩
    · obtain ⟨n, hn, -, hsame⟩ := (hadvances t).messages i m hm
      have hkept : (t.accumulator (.shared x)).response.messages[i]? = some m := by
        rw [hsame hi] at hn
        exact hn
      refine ⟨hkept, fun r hr => ?_⟩
      rw [messages_finished hr, List.getElem?_map, hkept]
      rfl

end

/-- An accumulator in cell 8, and four updates of two messages in cells 11, 14, 16 and 19. -/
def lecture : Store :=
  (Store.empty.internAll
    [(Accumulator.new (.bool true)).toValue,
      { Update.blank with messageId := .text "a", contents := [plainText "On"] }.toValue,
      { Update.blank with contents := [plainText "e."] }.toValue,
      { Update.blank with messageId := .text "b" }.toValue,
      { Update.blank with contents := [plainText "Two."] }.toValue]).1

/-- The first message does not notice what comes after the second one has begun. -/
theorem response_only_grows_lecture :
    let s := (lecture.feed (.shared 8) (.shared 11)).feed (.shared 8) (.shared 14)
    let t := (s.feed (.shared 8) (.shared 16)).feed (.shared 8) (.shared 19)
    (∀ w, (s.progress 8).Advances w (t.progress 8)) ∧
      ∃ r m, (t.accumulator (.shared 8)).finished t = .done r ∧ r.messages[0]? = some m ∧
        m.id = .text "a" ∧ m.contents = [plainText "One."] := by
  intro s t
  have hs : s.AtWork 8 :=
    .streams (.new (.bool true) (by decide)) (.feed (.feed .start (by decide)) (by decide))
  obtain ⟨-, -, -, -, hstep, hrest⟩ := response_only_grows hs (u := .shared 16) (by decide)
  obtain ⟨hmore, hfinish, hfinal⟩ := hrest t _ (.feed .start (by decide)) rfl
  obtain ⟨r, hr⟩ := hfinish (by decide)
  have hfirst := (hfinal 0 ⟨.null, [.shared 9, .shared 12], .null, .null, .text "a", .null, .null⟩
    (by decide) (by decide)).2 r hr
  exact ⟨fun w => (hstep w).trans (hmore w), r, _, hr, hfirst, by decide, by decide +kernel⟩

end Reassembly
