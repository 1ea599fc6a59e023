import Reassembly.Proofs.Batches
import Reassembly.Proofs.Texts

/-!
# The text of a session

The text of a session is made of the texts of its messages, and each call that adds messages adds
what they say. What is in the transcript already says what it has said before: only the list itself
grows, and a message that takes this list for its contents says nothing, since no message is a text
item.

* `Store.IsMessage`, `Store.Relisted.text`, `text_of_alikeIn`: messages that say the same in two
  stores.
* `Store.Transcribed`: a session with its transcript in a cell. `Transcribed.grown`: it stays one as
  the transcript grows.
* `Store.addedText?`: the text of what a turn adds, if it adds anything.
* `Transcribed.turn`, `Transcribed.turns`: **the text after a turn**, and after any number of turns.
* `derived_text`: what the texts of streams, responses and sessions have to do with each other.
-/
namespace Reassembly

open Store Response

/-! ## Messages in two stores -/

/-- The value is a message, whatever its parts are. -/
def Store.IsMessage (s : Store) (m : Value) : Prop :=
  ∃ role contents author created id raw properties,
    s.head m = .object .message [role, contents, author, created, id, raw, properties]

section
variable {s t : Store} {ref : Nat} {old new : List Value} {m v w : Value}

theorem isMessage_of_formed (h : s.formed .message m = true) : s.IsMessage m := by
  obtain ⟨-, contents, -, hhead⟩ := formed_message h
  exact ⟨_, _, _, _, _, _, _, hhead⟩

theorem Store.IsMessage.textItem? (h : s.IsMessage m) : s.textItem? .text m = none := by
  obtain ⟨_, _, _, _, _, _, _, hhead⟩ := h
  simp [Store.textItem?, hhead]

theorem text_of_head {role contents author created id raw properties : Value}
    (h : s.head m = .object .message [role, contents, author, created, id, raw, properties]) :
    (s.message m).text s = concatText s (s.items contents) := by
  unfold Store.message
  rw [h]
  rfl

theorem concatText_messages (h : ∀ m ∈ old, s.IsMessage m) : concatText s old = "" := by
  rw [concatText_eq, textOfKind, List.map_congr_left (g := fun _ => "")]
  · induction old with
    | nil => rfl
    | cons m ms ih =>
      rw [List.map_cons, String.join_cons, ih fun n hn => h n (List.mem_cons_of_mem m hn)]
      rfl
  · exact fun m hm => itemText_of_none (h m hm).textItem?

theorem head_of_ne (hf : s.Frame [ref] t) (hv : s.Holds [] v) (hne : v ≠ .shared ref) :
    t.head v = s.head v := by
  cases v with
  | shared x =>
    refine hf.cell x (holds_shared.1 hv).1 fun hx => hne ?_
    rw [List.mem_singleton.1 hx]
  | _ => rfl

theorem Store.IsMessage.ne (h : s.IsMessage m) (hl : s.cell ref = .list old) :
    m ≠ .shared ref := by
  obtain ⟨_, _, _, _, _, _, _, hhead⟩ := h
  rintro rfl
  have hlist : s.head (.shared ref) = .list old := hl
  rw [hhead] at hlist
  cases hlist

theorem Store.IsMessage.later (h : s.IsMessage m) (hf : s.Frame [ref] t)
    (hl : s.cell ref = .list old) (hm : s.Holds [] m) : t.IsMessage m := by
  have hsame := head_of_ne hf hm (h.ne hl)
  obtain ⟨_, _, _, _, _, _, _, hhead⟩ := h
  exact ⟨_, _, _, _, _, _, _, hsame.trans hhead⟩

/-- A list of messages whose cell has changed, in two stores that are the same otherwise. -/
structure Store.Relisted (s t : Store) (ref : Nat) (old new : List Value) : Prop where
  sound : s.Sound []
  frame : s.Frame [ref] t
  list_left : s.cell ref = .list old
  list_right : t.cell ref = .list new
  messages_left : ∀ m ∈ old, s.IsMessage m
  messages_right : ∀ m ∈ new, t.IsMessage m

theorem Store.Relisted.itemText (h : s.Relisted t ref old new) (hv : s.Holds [] v) :
    itemText t .text v = itemText s .text v := by
  by_cases hne : v = .shared ref
  · subst hne
    have hs : s.head (.shared ref) = .list old := h.list_left
    have ht : t.head (.shared ref) = .list new := h.list_right
    have hnone : s.textItem? .text (.shared ref) = none := by simp only [Store.textItem?, hs]
    have hnone' : t.textItem? .text (.shared ref) = none := by simp only [Store.textItem?, ht]
    rw [itemText_of_none hnone, itemText_of_none hnone']
  · simp only [Reassembly.itemText, Store.textItem?, head_of_ne h.frame hv hne]

/-- Contents that are the list itself are messages only, before and after. -/
theorem Store.Relisted.concatText (h : s.Relisted t ref old new) (hv : s.Holds [] v) :
    concatText t (t.items v) = concatText s (s.items v) := by
  by_cases hne : v = .shared ref
  · subst hne
    have hs : s.items (.shared ref) = old := by
      simp only [Store.items, Store.head, h.list_left]
    have ht : t.items (.shared ref) = new := by
      simp only [Store.items, Store.head, h.list_right]
    rw [hs, ht, concatText_messages h.messages_left, concatText_messages h.messages_right]
  · have hsame : t.items v = s.items v := by
      simp only [Store.items, head_of_ne h.frame hv hne]
    rw [hsame, concatText_eq, concatText_eq, textOfKind, textOfKind]
    congr 1
    refine List.map_congr_left fun c hc => h.itemText ?_
    unfold Store.items at hc
    split at hc
    · next items hl => exact holds_list.1 (hl ▸ h.sound.head hv) c hc
    · cases hc

/-- **What a message says** does not change as a list of messages does. -/
theorem Store.Relisted.text (h : s.Relisted t ref old new) (hm : s.Holds [] m)
    (hmessage : s.IsMessage m) : (t.message m).text t = (s.message m).text s := by
  have hsame := head_of_ne h.frame hm (hmessage.ne h.list_left)
  obtain ⟨role, contents, author, created, id, raw, properties, hs⟩ := hmessage
  have hcontents : s.Holds [] contents := holds_object.1 (hs ▸ h.sound.head hm) contents (by simp)
  rw [text_of_head hs, text_of_head (hsame.trans hs), h.concatText hcontents]

theorem itemText_of_alikeIn (hs : s.Sound []) (ht : t.Sound []) (hv : s.Holds [] v)
    (hw : t.Holds [] w) (h : s.AlikeIn t v w) : itemText s .text v = itemText t .text w := by
  have reads : ∀ {s t : Store} {v w : Value}, t.Sound [] → t.Holds [] w → s.AlikeIn t v w →
      ∀ item, s.textItem? .text v = some item →
        ∃ other, t.textItem? .text w = some other ∧ other.text = item.text := by
    intro s t v w ht hw h item hitem
    obtain ⟨fields, hhead, hparts⟩ := h.object (head_of_textItem? hitem)
    simp only [List.forall₂_cons_left_iff, List.forall₂_nil_left_iff] at hparts
    obtain ⟨a, _, -, ⟨r, _, -, ⟨p, _, -, ⟨x, _, hx, rfl, rfl⟩, rfl⟩, rfl⟩, rfl⟩ := hparts
    -- the text stands in the item itself, since texts have no cells of their own
    have hheld := holds_object.1 (hhead ▸ ht.head hw) x (by simp)
    have hread : t.head x = .text item.text := hx.atom rfl
    obtain rfl := ht.head_plain hheld hread rfl
    refine ⟨⟨a, r, p, item.text⟩, ?_, rfl⟩
    simp only [Store.textItem?, hhead, if_true]
  rw [itemText, itemText]
  cases hitem : s.textItem? .text v with
  | some item =>
    obtain ⟨other, hother, htext⟩ := reads ht hw h item hitem
    rw [hother]
    exact htext.symm
  | none =>
    cases hother : t.textItem? .text w with
    | none => rfl
    | some other =>
      obtain ⟨item, hitem', -⟩ := reads hs hv h.symm other hother
      rw [hitem] at hitem'
      cases hitem'

theorem concatText_of_alikeIn (hs : s.Sound []) (ht : t.Sound []) {vs ws : List Value}
    (h : List.Forall₂ (s.AlikeIn t) vs ws) (hv : ∀ v ∈ vs, s.Holds [] v)
    (hw : ∀ w ∈ ws, t.Holds [] w) : concatText s vs = concatText t ws := by
  rw [concatText_eq, concatText_eq]
  induction h with
  | nil => rfl
  | cons hab _ ih =>
    obtain ⟨ha, hv⟩ := List.forall_mem_cons.1 hv
    obtain ⟨hb, hw⟩ := List.forall_mem_cons.1 hw
    rw [textOfKind_cons, textOfKind_cons, itemText_of_alikeIn hs ht ha hb hab, ih hv hw]

theorem text_of_alikeIn (hs : s.Sound []) (ht : t.Sound []) {m : Message}
    (hm : s.Holds [] m.toValue) (hw : t.Holds [] w) (h : s.AlikeIn t m.toValue w) :
    t.IsMessage w ∧ (t.message w).text t = m.text s := by
  obtain ⟨fields, hhead, hparts⟩ := h.object rfl
  simp only [List.forall₂_cons_left_iff, List.forall₂_nil_left_iff] at hparts
  obtain ⟨role, _, -, ⟨contents, _, hcontents, ⟨author, _, -, ⟨created, _, -, ⟨id, _, -, ⟨raw, _, -,
    ⟨properties, _, -, rfl, rfl⟩, rfl⟩, rfl⟩, rfl⟩, rfl⟩, rfl⟩, rfl⟩ := hparts
  obtain ⟨items, hitems, hlike⟩ := hcontents.list rfl
  refine ⟨⟨_, _, _, _, _, _, _, hhead⟩, ?_⟩
  have hread : t.items contents = items := by simp only [Store.items, hitems]
  have hheld := holds_list.1 (hitems ▸ ht.head (holds_object.1 (hhead ▸ ht.head hw) contents
    (by simp)))
  rw [text_of_head hhead, hread, Message.text,
    concatText_of_alikeIn hs ht hlike (holds_message.1 hm).contents hheld]

theorem texts_of_alikeIn (hs : s.Sound []) (ht : t.Sound []) {ms : List Message}
    {ws : List Value} (h : List.Forall₂ (s.AlikeIn t) (ms.map (·.toValue)) ws)
    (hm : ∀ m ∈ ms.map (·.toValue), s.Holds [] m) (hw : ∀ w ∈ ws, t.Holds [] w) :
    (∀ w ∈ ws, t.IsMessage w) ∧ ws.map (fun w => (t.message w).text t) = ms.map (·.text s) := by
  induction ms generalizing ws with
  | nil =>
    cases h
    exact ⟨fun w hw => absurd hw List.not_mem_nil, rfl⟩
  | cons m ms ih =>
    obtain ⟨w, ws, hmw, hrest, rfl⟩ := List.forall₂_cons_left_iff.1 h
    obtain ⟨hm, hms⟩ := List.forall_mem_cons.1 hm
    obtain ⟨hw, hws⟩ := List.forall_mem_cons.1 hw
    obtain ⟨hfirst, htext⟩ := text_of_alikeIn hs ht hm hw hmw
    obtain ⟨hothers, htexts⟩ := ih hrest hms hws
    refine ⟨List.forall_mem_cons.2 ⟨hfirst, hothers⟩, ?_⟩
    rw [List.map_cons, List.map_cons, htext, htexts]

end

/-! ## Sessions -/

/-- The value is a session with the list in a cell as its transcript, a list of these messages. -/
structure Store.Transcribed (s : Store) (v : Value) (ref : Nat) (items : List Value) : Prop where
  sound : s.Sound []
  held : s.Holds [] v
  session : ∃ id, s.head v = .object .session [id, .shared ref]
  list : s.cell ref = .list items
  messages : ∀ m ∈ items, s.IsMessage m

/-- What a turn adds says, if it adds anything. -/
def Store.addedText? (s : Store) : Turn → Option String
  | .add _ (.response r) => if r = .null then none else some ((s.response r).text s)
  | .add _ (.updates mode _ (some source)) =>
    match (reconstruct s false mode true (source.map s.update)).outcome with
    | .ok r => some (r.text s)
    | .error _ => none
  | _ => none

/-- What some turns add, in their order. -/
def Store.addedTexts (s : Store) : List Turn → List String
  | [] => []
  | t :: ts => (s.addedText? t).toList ++ (s.turn t).addedTexts ts

/-- The turn lets the session take in a response or a stream, or makes an object. -/
def Turn.ForSession (v : Value) : Turn → Prop
  | .add target (.response _) => target = .session v
  | .add target (.updates _ _ _) => target = .session v
  | .add _ (.update _ _) => False
  | .build _ => True

section
variable {s t : Store} {v : Value} {ref : Nat} {items batch : List Value}

theorem member_of_transcript {id transcript : Value}
    (h : s.head v = .object .session [id, transcript]) : s.member v "transcript" = transcript := by
  have hplace : Kind.session.place? "transcript" = some 1 := rfl
  rw [member_of_place s h hplace]
  rfl

theorem transcribed_of_formed (hs : s.Sound []) (hv : s.Holds [] v)
    (hf : s.formed .session v = true) (hplace : s.member v "transcript" = .shared ref) :
    ∃ items, s.Transcribed v ref items := by
  obtain ⟨l, fields, hhead, hl, hfields⟩ := formed_iff.1 hf
  obtain rfl : l = .session := by cases l <;> first | rfl | cases hl
  simp only [Kind.fields, List.forall₂_cons_left_iff, List.forall₂_nil_left_iff] at hfields
  obtain ⟨id, _, -, ⟨transcript, _, htranscript, rfl, rfl⟩, rfl⟩ := hfields
  obtain ⟨items, hitems, hall⟩ := isListOf_iff.1 htranscript
  have hmember := member_of_transcript hhead
  rw [hmember] at hplace
  subst hplace
  exact ⟨items, hs, hv, ⟨id, hhead⟩, hitems, fun m hm => isMessage_of_formed (hall m hm)⟩

namespace Store.Transcribed

theorem place (h : s.Transcribed v ref items) : Target.place s (.session v) = .shared ref := by
  obtain ⟨id, hhead⟩ := h.session
  exact member_of_transcript hhead

theorem text (h : s.Transcribed v ref items) :
    (s.session v).text s = joinLines (items.map fun m => (s.message m).text s) := by
  obtain ⟨id, hhead⟩ := h.session
  have hitems : s.items (.shared ref) = items := by simp only [Store.items, Store.head, h.list]
  simp only [Store.session, hhead, Session.text, messagesText, hitems, List.map_map]
  rfl

theorem holds_items (h : s.Transcribed v ref items) : ∀ m ∈ items, s.Holds [] m :=
  holds_list.1 (h.list ▸ h.sound.closed ref (lt_size_of_list h.list) List.not_mem_nil)

theorem ne (h : s.Transcribed v ref items) : v ≠ .shared ref := by
  rintro rfl
  obtain ⟨id, hhead⟩ := h.session
  have hlist : s.head (.shared ref) = .list items := h.list
  rw [hhead] at hlist
  cases hlist

/-- **As the transcript grows** by messages, what it holds goes on to say the same. -/
theorem grown (h : s.Transcribed v ref items) (hg : s.Grown ref batch t)
    (hb : ∀ m ∈ batch, t.IsMessage m) :
    t.Transcribed v ref (items ++ batch) ∧ s.Relisted t ref items (items ++ batch) := by
  obtain ⟨id, hhead⟩ := h.session
  have hlist := hg.list items h.list
  have hall : ∀ m ∈ items ++ batch, t.IsMessage m := List.forall_mem_append.2
    ⟨fun m hm => (h.messages m hm).later hg.frame h.list (h.holds_items m hm), hb⟩
  refine ⟨⟨hg.sound, ?_, ⟨id, (head_of_ne hg.frame h.held h.ne).trans hhead⟩, hlist, hall⟩,
    ⟨h.sound, hg.frame, h.list, hlist, h.messages, hall⟩⟩
  exact fun x hx => ⟨Nat.lt_of_lt_of_le (h.held x hx).1 hg.frame.size, List.not_mem_nil⟩

theorem text_grown (h : s.Transcribed v ref items) (hg : s.Grown ref batch t)
    (hb : ∀ m ∈ batch, t.IsMessage m) :
    (t.session v).text t =
      joinLines [(s.session v).text s, joinLines (batch.map fun m => (t.message m).text t)] := by
  obtain ⟨hlater, hlisted⟩ := h.grown hg hb
  have hsame : items.map (fun m => (t.message m).text t) =
      items.map fun m => (s.message m).text s :=
    List.map_congr_left fun m hm => hlisted.text (h.holds_items m hm) (h.messages m hm)
  rw [hlater.text, h.text, List.map_append, hsame]
  have houter := joinLines_append [] (items.map fun m => (s.message m).text s)
    [joinLines (batch.map fun m => (t.message m).text t)]
  have hinner := joinLines_concat (items.map fun m => (s.message m).text s)
    (batch.map fun m => (t.message m).text t)
  exact (houter.trans hinner).symm

theorem batch_of_response (h : s.Transcribed v ref items) {r : Value}
    (hf : s.formed .response r = true) (hr : s.Holds [] r)
    (hg : s.Grown ref (s.responseMessages r) t) :
    (∀ m ∈ s.responseMessages r, t.IsMessage m) ∧
      joinLines ((s.responseMessages r).map fun m => (t.message m).text t) =
        (s.response r).text s := by
  obtain ⟨-, messages, members, hmembers, hformed, hread, hhead⟩ := formed_response hf
  have hbatch := responseMessages_of_head hhead hmembers
  have hmessages := holds_object.1 (hhead ▸ h.sound.head hr) messages (by simp)
  have hheld : ∀ m ∈ members, s.Holds [] m :=
    holds_list.1 (hmembers ▸ h.sound.head hmessages)
  have hmessage : ∀ m ∈ members, s.IsMessage m := fun m hm => isMessage_of_formed (hformed m hm)
  have hlater : ∀ m ∈ members, t.IsMessage m :=
    fun m hm => (hmessage m hm).later hg.frame h.list (hheld m hm)
  rw [hbatch] at hg ⊢
  refine ⟨hlater, ?_⟩
  rw [Response.text, messagesText, hread, List.map_map]
  congr 1
  exact List.map_congr_left fun m hm =>
    ((h.grown hg hlater).2).text (hheld m hm) (hmessage m hm)

/-- The messages that updates make that have been added. They are told with the list as it was; of
the store with that list, only the list is different in the end. -/
theorem batch_of_updates (h : s.Transcribed v ref items) (hg : s.Grown ref batch t)
    {us : List Value} (hu : ∀ u ∈ us, s.IsUpdate [] u)
    (alike : List.Forall₂ (s.AlikeIn (t.write (.shared ref) (s.cell ref)))
      ((s.foldOf true us).messages.map (·.toValue)) batch) :
    (∀ m ∈ batch, t.IsMessage m) ∧
      joinLines (batch.map fun m => (t.message m).text t) = (s.foldOf true us).text s := by
  have hlist := hg.list items h.list
  have hlt : ref < t.size := lt_size_of_list hlist
  have hheld : ∀ m ∈ items ++ batch, t.Holds [] m :=
    holds_list.1 (hlist ▸ hg.sound.closed ref hlt List.not_mem_nil)
  obtain ⟨hitems, hbatch⟩ := List.forall_mem_append.1 hheld
  rw [h.list] at alike
  generalize hw : t.write (.shared ref) (.list items) = w at alike
  have hcell : w.cell ref = .list items := by rw [← hw, t.cell_write_self hlt]
  have hsize : w.size = t.size := by rw [← hw, t.size_write]
  have hwt : w.Frame [ref] t := by
    refine ⟨Nat.le_of_eq hsize, fun x _ hx => ?_⟩
    rw [← hw]
    refine (t.cell_write_of_ne fun he => hx ?_).symm
    rw [Value.shared.inj he]
    exact List.mem_singleton_self x
  have hsound : w.Sound [] := hw ▸ hg.sound.write_list hitems
  have hheldw : ∀ {m}, t.Holds [] m → w.Holds [] m := by
    intro m hm x hx
    rw [hsize]
    exact hm x hx
  have htw : t.Frame [ref] w := hw ▸ Frame.of_write (List.mem_singleton_self ref) _
  obtain ⟨hmade, htexts⟩ := texts_of_alikeIn h.sound hsound alike (holds_foldOf h.sound hu)
    fun m hm => hheldw (hbatch m hm)
  have hlater : ∀ m ∈ batch, t.IsMessage m :=
    fun m hm => (hmade m hm).later hwt hcell (hheldw (hbatch m hm))
  have hold : ∀ m ∈ items, t.IsMessage m :=
    fun m hm => (h.messages m hm).later hg.frame h.list (h.holds_items m hm)
  have hlisted : w.Relisted t ref items (items ++ batch) :=
    ⟨hsound, hwt, hcell, hlist, fun m hm => (hold m hm).later htw hlist (hitems m hm),
      List.forall_mem_append.2 ⟨hold, hlater⟩⟩
  refine ⟨hlater, ?_⟩
  have hsame : batch.map (fun m => (t.message m).text t) =
      batch.map fun m => (w.message m).text w :=
    List.map_congr_left fun m hm => hlisted.text (hheldw (hbatch m hm)) (hmade m hm)
  rw [hsame, htexts]
  rfl

theorem after_nothing (h : s.Transcribed v ref items) (hg : s.Grown ref [] t) :
    (∃ batch, t.Transcribed v ref (items ++ batch)) ∧
      (t.session v).text t = joinLines [(s.session v).text s] := by
  have hempty : ∀ m ∈ ([] : List Value), t.IsMessage m := fun m hm => absurd hm List.not_mem_nil
  refine ⟨⟨[], (h.grown hg hempty).1⟩, ?_⟩
  rw [h.text_grown hg hempty]
  exact joinLines_append [(s.session v).text s] [] []

theorem after_batch (h : s.Transcribed v ref items) (hg : s.Grown ref batch t) {text : String}
    (hb : (∀ m ∈ batch, t.IsMessage m) ∧
      joinLines (batch.map fun m => (t.message m).text t) = text) :
    (∃ batch, t.Transcribed v ref (items ++ batch)) ∧
      (t.session v).text t = joinLines [(s.session v).text s, text] := by
  refine ⟨⟨batch, (h.grown hg hb.1).1⟩, ?_⟩
  rw [h.text_grown hg hb.1, hb.2]

/-- **One turn.** The session says what it has said before, and below that what the turn has
added. -/
theorem turn (h : s.Transcribed v ref items) {turn : Turn} (ht : turn.ForSession v)
    (hp : turn.Proper s ref) :
    (∃ batch, (s.turn turn).Transcribed v ref (items ++ batch)) ∧
      ((s.turn turn).session v).text (s.turn turn) =
        joinLines ((s.session v).text s :: (s.addedText? turn).toList) := by
  cases turn with
  | build w =>
    have hcarry := carries_intern h.sound w hp
    exact h.after_nothing (.of_extends hcarry.sound hcarry.grows)
  | add target addition =>
    have htarget : target = .session v := by cases addition <;> first | exact ht | cases ht
    subst htarget
    rw [Store.turn, h.place]
    cases addition with
    | update w keep => cases ht
    | response r =>
      obtain ⟨batch, hadded, hg⟩ := takes_response h.sound h.list hp.2
      generalize s.add (.shared ref) (.response r) = effect at hadded hg ⊢
      obtain ⟨t, outcome⟩ := effect
      cases hadded with
      | noResponse => exact h.after_nothing hg
      | response hr =>
        obtain ⟨hf, hheld, -⟩ := hp.2.resolve_left hr
        rw [Store.addedText?, if_neg hr]
        exact h.after_batch hg (h.batch_of_response hf hheld hg)
    | updates mode sized source =>
      obtain ⟨batch, hadded, hg⟩ := takes_updates h.sound h.list hp.2
      generalize s.add (.shared ref) (.updates mode sized source) = effect at hadded hg ⊢
      obtain ⟨t, outcome⟩ := effect
      cases hadded with
      | noUpdates => exact h.after_nothing hg
      | brokenOff hf =>
        rw [Store.addedText?, hf]
        exact h.after_nothing hg
      | @updates _ _ source r _ hr alike =>
        have hu : ∀ u ∈ source.updates, s.IsUpdate [] u := hp.2.2
        have hfold := (reconstruct_ok s false true mode hr).2
        rw [Source.map, ofUpdates_foldOf fun u hm => (hu u hm).formed] at hfold
        cases hfold
        rw [Store.addedText?, hr]
        exact h.after_batch hg (h.batch_of_updates hg hu alike)

/-- **Any number of turns.** -/
theorem turns (h : s.Transcribed v ref items) {ts : List Turn} (ht : ∀ t ∈ ts, t.ForSession v)
    (hp : s.AllProper ref ts) :
    ((s.turns ts).session v).text (s.turns ts) =
      joinLines ((s.session v).text s :: s.addedTexts ts) := by
  induction ts generalizing s items with
  | nil =>
    show (s.session v).text s = joinLines [(s.session v).text s]
    rw [h.text]
    exact (joinLines_concat [] _).symm
  | cons t ts ih =>
    obtain ⟨ht, hts⟩ := List.forall_mem_cons.1 ht
    obtain ⟨⟨batch, hnext⟩, htext⟩ := h.turn ht hp.1
    have hrest := ih hnext hts hp.2
    rw [htext] at hrest
    have hlines := joinLines_append [] ((s.session v).text s :: (s.addedText? t).toList)
      ((s.turn t).addedTexts ts)
    exact hrest.trans hlines

end Store.Transcribed

end

/-! ## All texts -/

/-- **Derived text follows the stream.** The messages of a response say together what the updates of
its stream say, and hold together the reasoning of the updates, whether items are put together or
not. What each message says is the same in both cases, and the same for all streams that differ in
their reasoning only. A session that takes in responses and streams says what it has said before and
then, line by line, what the responses say that were added to it. -/
theorem derived_text (s : Store) :
    (∀ us, (∀ u ∈ us, s.formed .update u.toValue = true) →
      ∃ merged plain, ofUpdates s us true = .ok merged ∧ ofUpdates s us false = .ok plain ∧
        (∀ r, r = merged ∨ r = plain →
          String.join (r.messages.map (·.text s)) = String.join (us.map (·.text s)) ∧
          String.join (r.messages.map (·.reasoning s)) = String.join (us.map (·.reasoning s))) ∧
        merged.messages.map (·.text s) = plain.messages.map (·.text s) ∧
        merged.text s = plain.text s ∧
        ∀ t vs, List.Forall₂ (Update.SameButReasoning s t) us vs →
          (∀ v ∈ vs, t.formed .update v.toValue = true) →
          ∀ wanted, ∃ q, ofUpdates t vs wanted = .ok q ∧
            q.messages.map (·.text t) = plain.messages.map (·.text s) ∧
            q.text t = plain.text s) ∧
    ∀ v ref, s.Sound [] → s.Holds [] v → s.formed .session v = true →
      s.member v "transcript" = .shared ref →
      ∀ ts, (∀ t ∈ ts, t.ForSession v) → s.AllProper ref ts →
        ((s.turns ts).session v).text (s.turns ts) =
          joinLines ((s.session v).text s :: s.addedTexts ts) := by
  constructor
  · intro us hus
    refine ⟨_, _, ofUpdates_eq_settled fun _ => hus, ofUpdates_eq_settled fun _ => hus, ?joined,
      ?same, ?whole, fun t vs hvs hformed wanted => ?reasoning⟩
    case joined =>
      have both : ∀ wanted, _ ∧ _ := fun wanted =>
        And.intro (join_textOfKind_messages (s := s) (.inl rfl) us wanted)
          (join_textOfKind_messages (s := s) (.inr rfl) us wanted)
      rintro r (rfl | rfl)
      · rw [text_eq_textOfKind, update_text_eq_textOfKind]
        exact both true
      · rw [text_eq_textOfKind, update_text_eq_textOfKind]
        exact both false
    case same =>
      rw [text_eq_textOfKind, textOfKind_messages (.inl rfl), textOfKind_messages (.inl rfl)]
    case whole =>
      rw [Response.text, messagesText, Response.text, messagesText, text_eq_textOfKind,
        textOfKind_messages (.inl rfl), textOfKind_messages (.inl rfl)]
    case reasoning =>
      have htexts := texts_of_sameButReasoning hvs false wanted
      exact ⟨_, ofUpdates_eq_settled fun _ => hformed, htexts.symm,
        congrArg joinLines htexts.symm⟩
  · intro v ref hs hv hf hplace ts hts hp
    obtain ⟨items, htranscribed⟩ := transcribed_of_formed hs hv hf hplace
    exact htranscribed.turns hts hp

/-- Text with two pieces of reasoning in between. -/
def musing (first second : String) : List Update :=
  [{ Update.blank with
      contents := [plainText "No", plainText "w",
        .object .reasoning [.null, .null, .null, .text first]] },
    { Update.blank with
      contents := [.object .reasoning [.null, .null, .null, .text second], plainText "!"] }]

/-- The session of the minutes takes in the response, and then an update. -/
def ballot : List Turn :=
  [.add (.session (.shared 11)) (.response (.shared 19)),
    .add (.session (.shared 11)) (.updates .sync true (some { updates := [.shared 14] }))]

/-- What is said is the same after other reasoning; and the minutes have two more lines, since their
first message says nothing. -/
theorem derived_text_minutes :
    (∃ plain q, ofUpdates minutes (musing "Is it " "late?") false = .ok plain ∧
      String.join (plain.messages.map (·.text minutes)) = "Now!" ∧
      ofUpdates minutes (musing "" "Hm.") true = .ok q ∧ q.text minutes = plain.text minutes) ∧
      ((minutes.turns ballot).session (.shared 11)).text (minutes.turns ballot) = "Nay.\nAye." := by
  obtain ⟨hstreams, hsessions⟩ := derived_text minutes
  constructor
  · obtain ⟨merged, plain, -, hplain, htexts, -, -, hsame⟩ :=
      hstreams (musing "Is it " "late?") (by decide)
    have hother : List.Forall₂ (Update.SameButReasoning minutes minutes)
        (musing "Is it " "late?") (musing "" "Hm.") :=
      .cons ⟨rfl, .cons (.inr rfl) (.cons (.inr rfl) (.cons (.inl ⟨rfl, rfl⟩) .nil))⟩
        (.cons ⟨rfl, .cons (.inl ⟨rfl, rfl⟩) (.cons (.inr rfl) .nil)⟩ .nil)
    obtain ⟨q, hq, -, hqtext⟩ := hsame minutes _ hother (by decide) true
    exact ⟨plain, q, hplain, (htexts plain (.inr rfl)).1, hq, hqtext⟩
  · have hfor : ∀ t ∈ ballot, t.ForSession (.shared 11) := by
      intro t ht
      simp only [ballot, List.mem_cons, List.not_mem_nil, or_false] at ht
      rcases ht with rfl | rfl <;> exact rfl
    have htext := hsessions (.shared 11) 10 (by decide) (by decide) (by decide +kernel) rfl ballot
      hfor (by decide +kernel)
    rw [htext]
    rfl

end Reassembly
