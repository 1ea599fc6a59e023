import Reassembly.Proofs.Folded
import Reassembly.Proofs.Segments

/-!
# What messages say of themselves

Next to its contents a message has a role, an author and a time. All three come from the updates of
the stream, the newest value in each case, but from different stretches of it: author and time from
the segment of the message alone, the role from everything up to the end of that segment. A message
without a role of its own has that of the message before it, and a role that comes late in a segment
replaces it. An author that says nothing counts as none, but no update has one that keeps the rules.

* `lastKnown`: the last value of a list that is not null.
* `Described`, `DescribedAll`: what the messages of a fold say, told by its segments.
* `DescribedAll.feed`, `describedAll_feedAll`: one step, and a run.
* `message_metadata`: the messages of a response in closed form.
-/
namespace Reassembly

open Store Response

/-! ## The last value that is not null -/

/-- The last value that is not null, and null if there is none. -/
def lastKnown (vs : List Value) : Value := (vs.filter (· ≠ .null)).getLast?.getD .null

theorem lastKnown_append (vs ws : List Value) :
    lastKnown (vs ++ ws) = newer (lastKnown ws) (lastKnown vs) := by
  unfold lastKnown
  rw [List.filter_append, List.getLast?_append]
  cases h : (ws.filter (· ≠ .null)).getLast? with
  | none => simp [newer]
  | some w =>
    have hw : w ≠ .null := by simpa using (List.mem_filter.1 (List.mem_of_getLast? h)).2
    exact (newer_of_ne _ hw).symm

theorem lastKnown_singleton (v : Value) : lastKnown [v] = v := by
  by_cases h : v = .null <;> simp [lastKnown, h]

theorem lastKnown_append_singleton (vs : List Value) (v : Value) :
    lastKnown (vs ++ [v]) = newer v (lastKnown vs) := by
  rw [lastKnown_append, lastKnown_singleton]

theorem lastKnown_map_append_singleton (f : Update → Value) (us : List Update) (u : Update) :
    lastKnown ((us ++ [u]).map f) = newer (f u) (lastKnown (us.map f)) := by
  rw [List.map_append, List.map_singleton, lastKnown_append_singleton]

theorem lastKnown_of_forall {p : Value → Prop} (h0 : p .null) {vs : List Value}
    (h : ∀ v ∈ vs, p v) : p (lastKnown vs) := by
  unfold lastKnown
  cases hlast : (vs.filter (· ≠ .null)).getLast? with
  | none => exact h0
  | some v => exact h v (List.mem_filter.1 (List.mem_of_getLast? hlast)).1

theorem latest_eq_lastKnown (vs : List Value) : latest vs = lastKnown vs := by
  induction vs using List.reverseRecOn with
  | nil => rfl
  | append_singleton vs v ih => rw [latest_append_singleton, lastKnown_append_singleton, ih]

/-! ## Messages and their segments -/

/-- What a message says, given all updates up to the end of its segment, and those of the segment
alone. -/
structure Described (past own : List Update) (m : Message) : Prop where
  role : m.role = lastKnown (past.map (·.role))
  author : m.author = credited (lastKnown (own.map (·.author)))
  created : m.created = lastKnown (own.map (·.created))
  properties : m.properties = .null
  raw : m.raw = .null

theorem Described.opened {past : List Update} {role : Value}
    (h : role = lastKnown (past.map (·.role))) (s : Store) (u : Update) :
    Described (past ++ [u]) [u] ((Message.opened (newer u.role role)).absorb s u) where
  role := by
    have hrole : newer u.role (newer u.role role) = newer u.role role := by
      by_cases hu : u.role = .null <;> simp [newer, hu]
    rw [lastKnown_map_append_singleton, ← h]
    exact hrole
  author := (newerAuthor_null_right u.author).trans (by rw [← lastKnown_singleton u.author]; rfl)
  created := (newer_null_right u.created).trans (lastKnown_singleton u.created).symm
  properties := rfl
  raw := rfl

theorem Described.absorb {past own : List Update} {m : Message} (h : Described past own m)
    (s : Store) (u : Update) : Described (past ++ [u]) (own ++ [u]) (m.absorb s u) where
  role := by
    rw [lastKnown_map_append_singleton, ← h.role]
    rfl
  author := by
    rw [lastKnown_map_append_singleton, ← newerAuthor_credited, ← h.author]
    rfl
  created := by
    rw [lastKnown_map_append_singleton, ← h.created]
    rfl
  properties := h.properties
  raw := h.raw

/-- Every message is what its segment and the segments before it make of it. -/
inductive DescribedAll : List (List Update) → List Message → Prop
  | nil : DescribedAll [] []
  | snoc {segs seg ms m} : DescribedAll segs ms → Described (segs.flatten ++ seg) seg m →
      DescribedAll (segs ++ [seg]) (ms ++ [m])

theorem DescribedAll.concat {segs : List (List Update)} {seg : List Update} {ms : List Message}
    {m : Message} (h : DescribedAll (segs ++ [seg]) (ms ++ [m])) :
    DescribedAll segs ms ∧ Described (segs.flatten ++ seg) seg m := by
  generalize hs : segs ++ [seg] = all at h
  generalize hm : ms ++ [m] = ns at h
  cases h with
  | nil => simp at hs
  | snoc hrest hlast =>
    obtain ⟨rfl, rfl⟩ := List.append_inj' hs rfl |>.imp_right List.singleton_inj.1
    obtain ⟨rfl, rfl⟩ := List.append_inj' hm rfl |>.imp_right List.singleton_inj.1
    exact ⟨hrest, hlast⟩

theorem DescribedAll.length_eq {segs : List (List Update)} {ms : List Message}
    (h : DescribedAll segs ms) : ms.length = segs.length := by
  induction h with
  | nil => rfl
  | snoc _ _ ih => simp [ih]

theorem DescribedAll.get {segs : List (List Update)} {ms : List Message}
    (h : DescribedAll segs ms) {i : Nat} {m : Message} {seg : List Update}
    (hm : ms[i]? = some m) (hs : segs[i]? = some seg) :
    Described (segs.take (i + 1)).flatten seg m := by
  induction h with
  | nil => cases hm
  | @snoc segs last ms n hrest hlast ih =>
    have hlength := hrest.length_eq
    have hi : i < ms.length + 1 := by
      simpa using (List.getElem?_eq_some_iff.1 hm).1
    by_cases hold : i < ms.length
    · rw [List.getElem?_append_left hold] at hm
      rw [List.getElem?_append_left (hlength ▸ hold)] at hs
      rw [List.take_append_of_le_length (by omega)]
      exact ih hm hs
    · obtain rfl : i = ms.length := by omega
      rw [List.getElem?_concat_length, Option.some_inj] at hm
      rw [hlength, List.getElem?_concat_length, Option.some_inj] at hs
      rw [← hm, ← hs, hlength, List.take_of_length_le (by simp), List.flatten_append,
        List.flatten_singleton]
      exact hlast

/-- An update that opens a message finds the newest role so far in the message before it. -/
theorem DescribedAll.role_of_last {segs : List (List Update)} {ms : List Message}
    (h : DescribedAll segs ms) :
    (ms.getLast?.map (·.role)).getD .null = lastKnown (segs.flatten.map (·.role)) := by
  cases h with
  | nil => rfl
  | snoc _ hlast =>
    rw [List.getLast?_concat, Option.map_some, Option.getD_some, hlast.role, List.flatten_append,
      List.flatten_singleton]

/-- **One step.** The message that an update opens has the role of the one before it, unless the
update brings another; the message that takes it in has what it brings. -/
theorem DescribedAll.feed {s : Store} {us : List Update} {r : Response}
    (hs : Segmented s us r.messages) (h : DescribedAll (segments us) r.messages) (u : Update) :
    DescribedAll (segments (us ++ [u])) (r.feed s u).messages := by
  have hopen := hs.opens_iff u
  rcases messages_feed s r u with ⟨ho, -, hnew⟩ | ⟨ms, m, hm, hd, hnew⟩
  · rw [hnew, segments_append_of_begins (hopen ▸ ho)]
    refine h.snoc ?_
    rw [flatten_segments]
    have hrole := h.role_of_last
    rw [flatten_segments] at hrole
    exact .opened hrole s u
  · have hb : begins us u = false := by rw [← hopen, opens_of_last hm, hd]
    obtain ⟨segs, seg, hold, hgrown⟩ := segments_append_of_not_begins hb
    rw [hold, hm] at h
    obtain ⟨hrest, hlast⟩ := h.concat
    rw [hnew, hgrown]
    refine hrest.snoc ?_
    rw [← List.append_assoc]
    exact hlast.absorb s u

theorem describedAll_feedAll (s : Store) (us : List Update) :
    DescribedAll (segments us) (feedAll s .empty us).messages := by
  induction us using List.reverseRecOn with
  | nil => exact .nil
  | append_singleton us u ih =>
    rw [feedAll_append_singleton]
    exact ih.feed (segmented_feedAll s us) u

/-! ## Finished responses -/

/-- A fold can be finished if it is left as it is, or if the updates obey their rules. -/
theorem ofUpdates_eq_settled {s : Store} {us : List Update} {wanted : Bool}
    (h : wanted = true → ∀ u ∈ us, s.formed .update u.toValue = true) :
    ofUpdates s us wanted = .ok ((feedAll s .empty us).settled s wanted) := by
  cases wanted with
  | false =>
    rw [settled_false]
    rfl
  | true => exact ofUpdates_of_formed (fun u hu => formed_update_iff.1 (h rfl u hu)) true

theorem Described.settled {past own : List Update} {m : Message} (h : Described past own m)
    (s : Store) (wanted : Bool) : Described past own (m.settled s wanted) := by
  cases wanted with
  | false => exact h
  | true => exact { h with }

/-- **What messages say of themselves.** Message number `i` of the response to a stream has the last
role that any update up to the end of segment number `i` brings, and the last author and the last
time of that segment alone; where there is no such value it has none. Should the last author be
blank, against the rule for authors, it counts as none. The message has no properties, and nothing
raw. -/
theorem message_metadata {s : Store} {us : List Update} {wanted : Bool}
    (h : wanted = true → ∀ u ∈ us, s.formed .update u.toValue = true) :
    ∃ r, ofUpdates s us wanted = .ok r ∧ r.messages.length = (starts us).length ∧
      ∀ i m, r.messages[i]? = some m →
        m.role = lastKnown (((segments us).take (i + 1)).flatten.map (·.role)) ∧
        m.author = credited (lastKnown ((segment us i).map (·.author))) ∧
        ((∀ u ∈ segment us i, s.obeys .author u.author = true) →
          m.author = lastKnown ((segment us i).map (·.author))) ∧
        m.created = lastKnown ((segment us i).map (·.created)) ∧
        m.properties = .null ∧ m.raw = .null := by
  have hall := describedAll_feedAll s us
  refine ⟨_, ofUpdates_eq_settled h, ?_, fun i m hm => ?_⟩
  · rw [Response.settled, List.length_map, hall.length_eq, length_segments]
  · rw [Response.settled, List.getElem?_map, Option.map_eq_some_iff] at hm
    obtain ⟨n, hn, rfl⟩ := hm
    have hi : i < (segments us).length := by
      rw [← hall.length_eq]
      exact (List.getElem?_eq_some_iff.1 hn).1
    have hsegment : (segments us)[i]? = some (segment us i) := by
      rw [length_segments] at hi
      simp [segments, hi]
    have hd := (hall.get hn hsegment).settled s wanted
    refine ⟨hd.role, hd.author, fun hauthors => hd.author.trans ?_, hd.created, hd.properties,
      hd.raw⟩
    have hlast := lastKnown_of_forall (p := fun v => s.obeys .author v = true) rfl
      (List.forall_mem_map.2 hauthors)
    exact credited_of_obeys hlast

/-- Three messages. Only the first has an author, only the second a time, and the role of the first
comes late. -/
def relay : List Update :=
  [{ Update.blank with messageId := .text "a", author := .text "Ann" },
    { Update.blank with role := .shared 1 },
    { Update.blank with messageId := .text "b", created := .time ⟨20000, 0, 0, none⟩ },
    { Update.blank with messageId := .text "c", contents := [plainText "Yes."] }]

/-- The last message has the role of the first one, and nothing else of those before it. -/
theorem message_metadata_relay :
    ∃ r, ofUpdates .empty relay true = .ok r ∧ r.messages.length = 3 ∧
      ∀ m, r.messages[2]? = some m → m.role = .shared 1 ∧ m.author = .null ∧ m.created = .null := by
  have hformed : ∀ u ∈ relay, Store.empty.formed .update u.toValue = true := by decide
  obtain ⟨r, hr, hlength, hall⟩ := message_metadata fun _ : true = true => hformed
  refine ⟨r, hr, hlength.trans (by decide), fun m hm => ?_⟩
  obtain ⟨hrole, hauthor, -, hcreated, -⟩ := hall 2 m hm
  exact ⟨hrole.trans (by decide), hauthor.trans (by decide), hcreated.trans (by decide)⟩

end Reassembly
