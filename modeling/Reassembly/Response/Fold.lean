import Reassembly.Response.Basic
import Reassembly.Content.Coalesce
import Reassembly.Trace.Log
import Reassembly.Trace.Span

/-!
# Folding updates into a response

Updates come in one at a time. An update opens a new message if there is none yet, or if it names a
message id other than that of the last message; otherwise it continues the last message. What it
carries replaces what was known before, usage items are summed, and all other items go to the end
of the message.

* `Response.opens`: whether an update opens a message.
* `Response.feed`: the response with one more update folded in.
* `Response.feedAll`: with a list of updates.
* `Response.coalesced`: the finished response, its text merged as far as there are no problems.
* `feedAll_append`: folding may stop in between and go on later.
* `messages_length_feed`: an update adds one message if it opens one, and none otherwise.
-/
namespace Reassembly

/-- The text, or null if it says nothing. -/
def real (t : Value) : Value := if t = .text "" then .null else t

/-- The author of a message after an update that may bring one. An assignment takes a blank author
for none. -/
def newerAuthor (new old : Value) : Value := if new = .null then old else credited new

namespace Message

/-- The update names another message than this one, as `_target_message` asks. -/
def differs (m : Message) (u : Update) : Bool :=
  real u.messageId != .null && m.id != .null && real u.messageId != m.id

/-- The message with the part of an update that belongs to it; mirrors the assignments to the
message in `feed`. -/
def absorb (s : Store) (m : Message) (u : Update) : Message :=
  { m with
    role := newer u.role m.role
    contents := m.contents ++ u.contents.filter fun c => !s.isUsage c
    author := newerAuthor u.author m.author
    created := newer u.created m.created
    id := newer (real u.messageId) m.id }

end Message

/-- Lets the last message absorb the update. -/
def absorbLast (s : Store) (u : Update) : List Message → List Message
  | [] => []
  | [m] => [m.absorb s u]
  | m :: n :: ms => m :: absorbLast s u (n :: ms)

/-- The counters with those of one content item; only usage items have any. The loop of `feed` over
the contents, as far as it is about usage. -/
def addItem (s : Store) (total item : Value) : Value :=
  match s.usageItem? item with
  | none | some .null => total
  | some details => ((s.usage total).add s (s.usage details)).toValue

/-- The counters with those of the usage items of a list. -/
def addItems (s : Store) (total : Value) (items : List Value) : Value :=
  items.foldl (addItem s) total

/-- The map with the entries of another one written over its own; either may be missing. The last
assignment of `feed`. -/
def mergeProperties (s : Store) (old new : Value) : Value :=
  match s.entries? new with
  | none => old
  | some fs => .map (((s.entries? old).getD []).merge fs)

namespace Response

/-- The update begins a message of its own. -/
def opens (r : Response) (u : Update) : Bool :=
  match r.messages.getLast? with
  | none => true
  | some last => last.differs u

/-- The role in which an update opens a message: its own, or that of the last message. -/
def openingRole (r : Response) (u : Update) : Value :=
  newer u.role ((r.messages.getLast?.map (·.role)).getD .null)

/-- The messages with a new one at the end, if the update opens one; mirrors `_target_message`. -/
def target (r : Response) (u : Update) : List Message :=
  if r.opens u then r.messages ++ [.opened (r.openingRole u)] else r.messages

/-- Folds in one update; mirrors `ResponseAccumulator.feed`. -/
def feed (s : Store) (r : Response) (u : Update) : Response where
  messages := absorbLast s u (r.target u)
  id := newer (real u.responseId) r.id
  conversationId := newer u.conversationId r.conversationId
  model := newer u.model r.model
  created := newer u.created r.created
  finish := newer u.finish r.finish
  usage := addItems s r.usage u.contents
  raw := r.raw
  properties := mergeProperties s r.properties u.properties

/-- What `_target_message` reports when an update opens a message. -/
def feedLog (s : Store) (r : Response) (u : Update) : List LogLine :=
  if r.opens u then
    [.opened (r.messages.length + 1) u.messageId.text? (s.labelText? (r.openingRole u))]
  else []

def feedAll (s : Store) (r : Response) (us : List Update) : Response := us.foldl (feed s) r

end Response

/-- Coalesces the contents of messages, one message after the other. -/
def coalesceMessages (s : Store) : List Message → Attempt (List Message)
  | [] => .done []
  | m :: ms =>
    let contents := coalesce s m.contents
    let m := { m with contents := contents.result }
    if contents.isDone then (coalesceMessages s ms).map (m :: ·) else ⟨m :: ms, contents.problems⟩

namespace Response

/-- The response with the contents of its messages coalesced, if wanted; mirrors what `finalize`
does to the response. -/
def coalesced (s : Store) (r : Response) (wanted : Bool) : Attempt Response :=
  if wanted then (coalesceMessages s r.messages).map fun messages => { r with messages }
  else .done r

/-- The response that a list of updates makes; mirrors `to_response`. -/
def ofUpdates (s : Store) (us : List Update) (merge : Bool) : Checked Response :=
  ((feedAll s .empty us).coalesced s merge).checked

theorem feedAll_append (s : Store) (r : Response) (us vs : List Update) :
    feedAll s r (us ++ vs) = feedAll s (feedAll s r us) vs := by
  simp [feedAll]

end Response

theorem credited_credited (v : Value) : credited (credited v) = credited v := by
  unfold credited
  split <;> grind

theorem newerAuthor_null_right (v : Value) : newerAuthor v .null = credited v := by
  by_cases h : v = .null <;> simp [newerAuthor, h, credited]

/-- It does not matter whether a blank author is dropped at once or in the end. -/
theorem newerAuthor_credited (new old : Value) :
    newerAuthor new (credited old) = credited (newer new old) := by
  by_cases h : new = .null <;> simp [newerAuthor, newer, h]

theorem length_absorbLast (s : Store) (u : Update) (ms : List Message) :
    (absorbLast s u ms).length = ms.length := by
  fun_induction absorbLast s u ms with
  | case1 => rfl
  | case2 => rfl
  | case3 m n ms ih => simp [ih]

theorem absorbLast_append_singleton (s : Store) (u : Update) (ms : List Message) (m : Message) :
    absorbLast s u (ms ++ [m]) = ms ++ [m.absorb s u] := by
  induction ms with
  | nil => rfl
  | cons n ms ih =>
    cases ms with
    | nil => rfl
    | cons l ms => simpa [absorbLast] using ih

theorem Response.messages_length_feed (s : Store) (r : Response) (u : Update) :
    (r.feed s u).messages.length = r.messages.length + (if r.opens u then 1 else 0) := by
  simp only [feed, length_absorbLast, target]
  split <;> simp

/-! ## In a store -/

namespace Store

/-- Puts the contents of messages into the store, what has been merged as new objects. -/
def settleMessages (s : Store) : List Message → Store × List Message
  | [] => (s, [])
  | m :: ms =>
    let (s, contents) := s.settleAll m.contents
    let (s, ms) := s.settleMessages ms
    (s, { m with contents } :: ms)

def settleResponse (s : Store) (r : Response) : Store × Response :=
  let (s, messages) := s.settleMessages r.messages
  (s, { r with messages })

theorem extends_settleMessages (s : Store) (ms : List Message) :
    s.Extends (s.settleMessages ms).1 := by
  induction ms generalizing s with
  | nil => exact Extends.refl s
  | cons m ms ih => exact (s.extends_settleAll m.contents).trans (ih _)

theorem extends_settleResponse (s : Store) (r : Response) :
    s.Extends (s.settleResponse r).1 := s.extends_settleMessages r.messages

end Store

end Reassembly
