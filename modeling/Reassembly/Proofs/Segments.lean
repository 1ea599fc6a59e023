import Reassembly.Proofs.Feeding

/-!
# Segments of a stream

Which updates make one message can be read off the ids that the updates name, without a fold. An
update *begins* a message if it is the first, or if it names an id, an earlier update named one, and
the one named last is another. A segment reaches from one such update up to the next.

* `starts`, `segment`: the places of the updates that begin a message, and what lies between.
* `segments_append_of_begins`, `segments_append_of_not_begins`: a stream that grows by one update
  gets a new segment, or its last segment grows.
* `segmented_feedAll`: the messages of a fold are its segments, one for one. The invariant behind it
  is that the last message has the id named last.
* `messages_of_segments`: the same for the whole response, with what is in the messages.
-/
namespace Reassembly

/-- The ids that a list of updates names, in order. -/
def namedIds (us : List Update) : List Value := (us.map Update.named).filter (· ≠ .null)

/-- The id named last, null if none was named. -/
def lastNamed (us : List Update) : Value := (namedIds us).getLast?.getD .null

/-- The update begins a message when it comes after the updates `us`. -/
def begins (us : List Update) (u : Update) : Bool :=
  us.isEmpty || (u.named != .null && lastNamed us != .null && u.named != lastNamed us)

/-- The places of the updates that begin a message. -/
def starts (us : List Update) : List Nat :=
  (List.range us.length).filter fun j => us[j]?.any (begins (us.take j))

/-- The updates from the one that begins message number `i` up to the next that begins one. -/
def segment (us : List Update) (i : Nat) : List Update :=
  us.extract ((starts us)[i]?.getD us.length) ((starts us)[i + 1]?.getD us.length)

/-- All segments, in order. -/
def segments (us : List Update) : List (List Update) :=
  (List.range (starts us).length).map (segment us)

/-- The message is what a segment makes: it holds the items of these updates and no others, and has
the one id that they name. -/
structure MadeOf (s : Store) (m : Message) (seg : List Update) : Prop where
  contents : m.contents = seg.flatMap (kept s)
  sole_id : ∀ u ∈ seg, u.named = .null ∨ u.named = m.id
  id_named : m.id = .null ∨ ∃ u ∈ seg, u.named = m.id

/-! ## Growing streams -/

theorem namedIds_append (us vs : List Update) :
    namedIds (us ++ vs) = namedIds us ++ namedIds vs := by
  simp [namedIds]

theorem lastNamed_append_singleton (us : List Update) (u : Update) :
    lastNamed (us ++ [u]) = newer u.named (lastNamed us) := by
  by_cases h : u.named = .null
  · have hn : namedIds [u] = [] := by simp [namedIds, h]
    rw [lastNamed, namedIds_append, hn, List.append_nil, h, newer_null_left, lastNamed]
  · have hn : namedIds [u] = [u.named] := by simp [namedIds, h]
    rw [lastNamed, namedIds_append, hn, newer_of_ne _ h]
    simp

theorem lt_of_mem_starts {us : List Update} {j : Nat} (h : j ∈ starts us) : j < us.length :=
  List.mem_range.1 (List.mem_filter.1 h).1

theorem starts_append_singleton (us : List Update) (u : Update) :
    starts (us ++ [u]) = starts us ++ if begins us u then [us.length] else [] := by
  have old : (List.range us.length).filter
        (fun j => (us ++ [u])[j]?.any (begins ((us ++ [u]).take j))) = starts us := by
    apply List.filter_congr
    intro j hj
    have hj := List.mem_range.1 hj
    rw [List.getElem?_append_left hj, List.take_append_of_le_length (Nat.le_of_lt hj)]
  rw [starts, List.length_append, List.length_singleton, List.range_succ, List.filter_append, old]
  congr 1
  by_cases h : begins us u = true <;> simp [h]

theorem starts_ne_nil {us : List Update} (h : us ≠ []) : starts us ≠ [] := by
  obtain ⟨u, us, rfl⟩ := List.exists_cons_of_ne_nil h
  have h0 : 0 ∈ starts (u :: us) := by simp [starts, begins]
  exact List.ne_nil_of_mem h0

theorem extract_append_left {us : List Update} (u : Update) {i j : Nat} (hj : j ≤ us.length) :
    (us ++ [u]).extract i j = us.extract i j := by
  simp only [List.extract_eq_take_drop]
  by_cases hi : i ≤ us.length
  · rw [List.drop_append_of_le_length hi, List.take_append_of_le_length]
    rw [List.length_drop]; omega
  · have hz : j - i = 0 := by omega
    simp [hz]

theorem extract_append_last {us : List Update} (u : Update) {i : Nat} (hi : i ≤ us.length) :
    (us ++ [u]).extract i (us ++ [u]).length = us.extract i us.length ++ [u] := by
  simp only [List.extract_eq_take_drop, List.drop_append_of_le_length hi]
  rw [List.take_of_length_le (by simp; omega), List.take_of_length_le (by simp)]

theorem start_le (us : List Update) (i : Nat) : (starts us)[i]?.getD us.length ≤ us.length := by
  cases h : (starts us)[i]? with
  | none => exact Nat.le_refl _
  | some j => exact Nat.le_of_lt (lt_of_mem_starts (List.mem_of_getElem? h))

/-- Segments that are followed by another one do not grow. -/
theorem segment_append_of_lt {us : List Update} (u : Update) {i : Nat}
    (h : i + 1 < (starts us).length) : segment (us ++ [u]) i = segment us i := by
  have hi : (starts (us ++ [u]))[i]? = some (starts us)[i] := by
    rw [starts_append_singleton, List.getElem?_append_left (by omega), List.getElem?_eq_getElem]
  have hn : (starts (us ++ [u]))[i + 1]? = some (starts us)[i + 1] := by
    rw [starts_append_singleton, List.getElem?_append_left h, List.getElem?_eq_getElem]
  have hle : (starts us)[i + 1] ≤ us.length :=
    Nat.le_of_lt (lt_of_mem_starts (List.getElem_mem h))
  rw [segment, segment, hi, hn, Option.getD_some, Option.getD_some, extract_append_left u hle]
  rw [List.getElem?_eq_getElem (by omega), List.getElem?_eq_getElem h]
  rfl

theorem segments_append_of_begins {us : List Update} {u : Update} (h : begins us u = true) :
    segments (us ++ [u]) = segments us ++ [[u]] := by
  have hs : starts (us ++ [u]) = starts us ++ [us.length] := by
    rw [starts_append_singleton, if_pos h]
  have hold : ∀ i ∈ List.range (starts us).length, segment (us ++ [u]) i = segment us i := by
    intro i hi
    have hi := List.mem_range.1 hi
    have hb : (starts (us ++ [u]))[i]?.getD (us ++ [u]).length =
        (starts us)[i]?.getD us.length := by
      rw [hs, List.getElem?_append_left hi, List.getElem?_eq_getElem hi]
      rfl
    have he : (starts (us ++ [u]))[i + 1]?.getD (us ++ [u]).length =
        (starts us)[i + 1]?.getD us.length := by
      by_cases hn : i + 1 < (starts us).length
      · rw [hs, List.getElem?_append_left hn, List.getElem?_eq_getElem hn]
        rfl
      · have hl : i + 1 = (starts us).length := by omega
        simp [hs, hl]
    rw [segment, segment, hb, he, extract_append_left u (start_le us _)]
  have hnew : segment (us ++ [u]) (starts us).length = [u] := by
    simp [segment, hs, List.extract_eq_take_drop]
  rw [segments, hs, List.length_append, List.length_singleton, List.range_succ, List.map_append,
    List.map_congr_left hold, List.map_singleton, hnew, segments]

theorem segments_append_of_not_begins {us : List Update} {u : Update} (h : begins us u = false) :
    ∃ segs seg, segments us = segs ++ [seg] ∧ segments (us ++ [u]) = segs ++ [seg ++ [u]] := by
  have hne : us ≠ [] := by
    intro e
    simp [e, begins] at h
  have hs : starts (us ++ [u]) = starts us := by
    rw [starts_append_singleton, h]
    exact List.append_nil _
  obtain ⟨n, hn⟩ := Nat.exists_eq_succ_of_ne_zero
    (fun e => starts_ne_nil hne (List.eq_nil_of_length_eq_zero e))
  have hold : ∀ i ∈ List.range n, segment (us ++ [u]) i = segment us i := by
    intro i hi
    have hi := List.mem_range.1 hi
    exact segment_append_of_lt u (by omega)
  have hlast : segment (us ++ [u]) n = segment us n ++ [u] := by
    have hb : (starts us)[n]?.getD (us ++ [u]).length = (starts us)[n]?.getD us.length := by
      rw [List.getElem?_eq_getElem (by omega)]
      rfl
    have he : (starts us)[n + 1]? = none := List.getElem?_eq_none (by omega)
    rw [segment, segment, hs, hb, he]
    exact extract_append_last u (start_le us n)
  refine ⟨(List.range n).map (segment us), segment us n, ?_, ?_⟩
  · rw [segments, hn, List.range_succ, List.map_append, List.map_singleton]
  · rw [segments, hs, hn, List.range_succ, List.map_append, List.map_congr_left hold,
      List.map_singleton, hlast]

/-! ## Segments and messages -/

theorem MadeOf.opened (s : Store) (role : Value) (u : Update) :
    MadeOf s ((Message.opened role).absorb s u) [u] where
  contents := by simp [Message.absorb_contents, Message.opened]
  sole_id := by simp [Message.absorb_id, Message.opened, newer_null_right]
  id_named := by simp [Message.absorb_id, Message.opened, newer_null_right]

theorem MadeOf.absorb {s : Store} {m : Message} {seg : List Update} {u : Update}
    (h : MadeOf s m seg) (hd : m.differs u = false) : MadeOf s (m.absorb s u) (seg ++ [u]) where
  contents := by simp [Message.absorb_contents, h.contents]
  sole_id := by
    intro v hv
    rcases List.mem_append.1 hv with hv | hv
    · rcases h.sole_id v hv with hn | hn
      · exact Or.inl hn
      · by_cases hm : m.id = .null
        · exact Or.inl (hn.trans hm)
        · exact Or.inr (by rw [Message.absorb_id_of_not_differs s hd hm, hn])
    · rw [List.mem_singleton.1 hv, Message.absorb_id]
      by_cases hu : u.named = .null
      · exact Or.inl hu
      · exact Or.inr (newer_of_ne _ hu).symm
  id_named := by
    rw [Message.absorb_id]
    by_cases hu : u.named = .null
    · rw [hu, newer_null_left]
      exact h.id_named.imp id fun ⟨v, hv, e⟩ => ⟨v, List.mem_append_left _ hv, e⟩
    · exact Or.inr ⟨u, by simp, (newer_of_ne _ hu).symm⟩

/-- The messages that a fold of the updates `us` has come to. -/
structure Segmented (s : Store) (us : List Update) (ms : List Message) : Prop where
  made : List.Forall₂ (MadeOf s) ms (segments us)
  /-- the id that the next update is compared with is the one named last -/
  last : ∀ old m, ms = old ++ [m] → m.id = lastNamed us
  ids : ms.length = 1 ∨ ∀ m ∈ ms, m.id ≠ .null

theorem length_segments (us : List Update) : (segments us).length = (starts us).length := by
  simp [segments]

theorem flatten_segments (us : List Update) : (segments us).flatten = us := by
  induction us using List.reverseRecOn with
  | nil => rfl
  | append_singleton us u ih =>
    cases h : begins us u with
    | true => rw [segments_append_of_begins h, List.flatten_append, ih]; rfl
    | false =>
      obtain ⟨segs, seg, hs, hs'⟩ := segments_append_of_not_begins h
      rw [hs] at ih
      rw [hs', ← ih]
      simp

theorem Segmented.nil_iff {s : Store} {us : List Update} {ms : List Message}
    (h : Segmented s us ms) : ms = [] ↔ us = [] := by
  have hl := h.made.length_eq
  rw [length_segments] at hl
  constructor
  · intro e
    by_contra hne
    rw [e] at hl
    exact starts_ne_nil hne (List.eq_nil_of_length_eq_zero hl.symm)
  · intro e
    rw [e] at hl
    exact List.eq_nil_of_length_eq_zero hl

/-- The fold opens a message exactly where a segment begins. -/
theorem Segmented.opens_iff {s : Store} {us : List Update} {r : Response}
    (h : Segmented s us r.messages) (u : Update) : r.opens u = begins us u := by
  rcases List.eq_nil_or_concat r.messages with hn | ⟨ms, m, hm⟩
  · have hus := h.nil_iff.1 hn
    rw [Response.opens_of_nil hn, hus]
    rfl
  · rw [List.concat_eq_append] at hm
    have hus : us ≠ [] := fun e => by simpa [hm] using h.nil_iff.2 e
    have hid := h.last ms m hm
    rw [Response.opens_of_last hm, begins, List.isEmpty_eq_false_iff.2 hus, ← hid]
    rfl

/-- A message comes with the update that begins it. -/
theorem Segmented.opened {s : Store} {us : List Update} {ms : List Message}
    (h : Segmented s us ms) {u : Update} (hb : begins us u = true)
    (ho : ms = [] ∨ ∃ old m, ms = old ++ [m] ∧ m.differs u = true) (role : Value) :
    Segmented s (us ++ [u]) (ms ++ [(Message.opened role).absorb s u]) where
  made := by
    rw [segments_append_of_begins hb]
    exact List.rel_append h.made (.cons (MadeOf.opened s role u) .nil)
  last := by
    intro old n e
    obtain ⟨-, rfl⟩ := List.append_inj' e rfl |>.imp_right List.singleton_inj.1
    rw [Message.absorb_id, lastNamed_append_singleton]
    rcases ho with hn | ⟨ms, m, -, hd⟩
    · rw [h.nil_iff.1 hn]; rfl
    · have hu := ((Message.differs_iff m u).1 hd).1
      rw [newer_of_ne _ hu, newer_of_ne _ hu]
  ids := by
    rcases ho with rfl | ⟨old, m, rfl, hd⟩
    · exact Or.inl rfl
    · obtain ⟨hu, hm, -⟩ := (Message.differs_iff m u).1 hd
      refine Or.inr (List.forall_mem_append.2 ⟨?_, List.forall_mem_singleton.2 ?_⟩)
      · rcases h.ids with h1 | hall
        · -- the only message so far has an id, as the update differs from it
          have hold : old = [] := List.eq_nil_of_length_eq_zero (by simpa using h1)
          rw [hold]
          exact List.forall_mem_singleton.2 hm
        · exact hall
      · rw [Message.absorb_id, newer_of_ne _ hu]
        exact hu

/-- The last message takes in an update that begins none. -/
theorem Segmented.absorbed {s : Store} {us : List Update} {ms : List Message} {m : Message}
    (h : Segmented s us (ms ++ [m])) {u : Update} (hb : begins us u = false)
    (hd : m.differs u = false) : Segmented s (us ++ [u]) (ms ++ [m.absorb s u]) where
  made := by
    obtain ⟨segs, seg, hs, hs'⟩ := segments_append_of_not_begins hb
    have hmade := h.made
    rw [hs] at hmade
    obtain ⟨hold, hlast⟩ := forall₂_concat_iff.1 hmade
    rw [hs']
    exact forall₂_concat_iff.2 ⟨hold, hlast.absorb hd⟩
  last := by
    intro old n e
    obtain ⟨-, rfl⟩ := List.append_inj' e rfl |>.imp_right List.singleton_inj.1
    rw [Message.absorb_id, lastNamed_append_singleton, h.last ms m rfl]
  ids := by
    rcases h.ids with h1 | hall
    · exact Or.inl (by simpa using h1)
    · obtain ⟨hold, hm⟩ := List.forall_mem_append.1 hall
      refine Or.inr (List.forall_mem_append.2 ⟨hold, List.forall_mem_singleton.2 fun hn => ?_⟩)
      exact hm m (List.mem_singleton_self m) (newer_eq_null.1 hn).2

theorem Segmented.feed {s : Store} {us : List Update} {r : Response}
    (h : Segmented s us r.messages) (u : Update) :
    Segmented s (us ++ [u]) (r.feed s u).messages := by
  have hopen := h.opens_iff u
  rcases Response.messages_feed s r u with ⟨ho, hlast, hnew⟩ | ⟨ms, m, hm, hd, hnew⟩
  · rw [ho] at hopen
    rw [hnew]
    exact h.opened hopen.symm hlast _
  · rw [Response.opens_of_last hm, hd] at hopen
    rw [hm] at h
    rw [hnew]
    exact h.absorbed hopen.symm hd

theorem segmented_feedAll (s : Store) (us : List Update) :
    Segmented s us (Response.feedAll s .empty us).messages := by
  induction us using List.reverseRecOn with
  | nil =>
    have hnil : (Response.feedAll s .empty []).messages = [] := rfl
    rw [hnil]
    exact ⟨.nil, by simp, Or.inr (by simp)⟩
  | append_singleton us u ih =>
    rw [Response.feedAll_append_singleton]
    exact ih.feed u

theorem flatMap_contents_of_made {s : Store} {ms : List Message} {segs : List (List Update)}
    (h : List.Forall₂ (MadeOf s) ms segs) :
    ms.flatMap (·.contents) = segs.flatten.flatMap (kept s) := by
  induction h with
  | nil => rfl
  | cons hm _ ih => simp [hm.contents, ih]

/-- **Segmentation.** Without coalescing, the response to a stream has one message for each update
that begins one. Message number `i` holds the items of segment number `i`, the very same ones in
their order, and has the one id that is named there; it has none only if it is the only message. All
messages together hold the items of the stream but the usage items, and there is no message only if
there is no update. -/
theorem messages_of_segments (s : Store) (us : List Update) :
    ∃ r, Response.ofUpdates s us false = .ok r ∧
      r.messages.length = (starts us).length ∧
      (∀ i m, r.messages[i]? = some m →
        MadeOf s m (segment us i) ∧ (m.id = .null → r.messages.length = 1)) ∧
      r.messages.flatMap (·.contents) = us.flatMap (kept s) ∧
      (r.messages = [] ↔ us = []) := by
  have h := segmented_feedAll s us
  refine ⟨Response.feedAll s .empty us, rfl, ?_, ?_, ?_, h.nil_iff⟩
  · rw [h.made.length_eq, length_segments]
  · intro i m hi
    obtain ⟨hlt, rfl⟩ := List.getElem?_eq_some_iff.1 hi
    refine ⟨?_, fun hid => ?_⟩
    · have hmade := h.made.get hlt (by rw [← h.made.length_eq]; exact hlt)
      simpa [segments] using hmade
    · exact h.ids.resolve_right fun hall => hall _ (List.getElem_mem hlt) hid
  · rw [flatMap_contents_of_made h.made, flatten_segments]

/-- A first id that comes late belongs to the message before it; one that comes back begins a new
one. -/
example :
    starts [.blank, { Update.blank with messageId := .text "a" }, .blank,
      { Update.blank with messageId := .text "b" }, { Update.blank with messageId := .text "" },
      { Update.blank with messageId := .text "a" }] = [0, 3, 5] := by
  decide

end Reassembly
