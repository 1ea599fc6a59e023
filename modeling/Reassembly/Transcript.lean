import Reassembly.Reconstruct
import Reassembly.Workspace.Path

/-!
# Growing a list of messages

Messages are added to a list in batches: those of a response, those that a source of updates makes,
or one update as a message of its own. Each function here gives the batch, or the failure; `grow`
puts a batch at the end of the list and leaves the list alone after a failure.

* `addResponse`, `addUpdates`, `addUpdate`: the three ways.
* `Addition`, `Store.add`: the same for lists and messages of a store.
* `grow_error`, `grow_ok`: a list grows by the whole batch or not at all.
* `addUpdates_absent`: a missing list is noticed before a missing source.
-/
namespace Reassembly

/-- The list after an attempt to add to it. -/
def grow (messages : List Value) : Except Failure (List Value) → List Value
  | .ok batch => messages ++ batch
  | .error _ => messages

/-- The messages of a response, as they are. Nobody checks what is assigned to them, so this goes
through whatever is there. -/
def Store.responseMessages (s : Store) (v : Value) : List Value :=
  s.elements (s.member v "messages")

/-- Fails unless there is a list to add to. -/
def needMessages (present : Bool) : Except Failure Unit :=
  if present then .ok () else .error (.absent .messages)

/-- Adds the messages of a response; mirrors `add_response_messages`. -/
def addResponse (s : Store) (present : Bool) (response : Value) : Except Failure (List Value) :=
  match needMessages present, response with
  | .error f, _ => .error f
  | .ok _, .null => .error (.absent .response)
  | .ok _, response => .ok (s.responseMessages response)

/-- Adds the messages that a source of updates makes; mirrors `add_update_messages` and
`add_update_messages_async`. A list of no updates, known to be empty before the start, adds nothing
and starts nothing. -/
def addUpdates (s : Store) (tracing : Bool) (present : Bool) (mode : Mode) (sized : Bool)
    (source : Option Source) : Run (List Message) :=
  match needMessages present, source with
  | .error f, _ => .refused f
  | .ok _, none => .refused (.absent .updates)
  | .ok _, some source =>
    if mode = .sync && sized && source.updates.isEmpty then { outcome := .ok [] }
    else (reconstruct s tracing mode true source).map (·.messages)

/-- A new message like `m`, with these contents and without a message id. -/
def newMessage (s : Store) (m : Message) (contents : List Value) : Checked Value :=
  construct s .message
    [(.text "role", m.role), (.text "contents", .list contents), (.text "author_name", m.author),
      (.text "created_at", m.created), (.text "raw_representation", m.raw),
      (.text "additional_properties", m.properties)]

/-- Tells which items to keep. It may fail. -/
abbrev ItemFilter := Value → Except Failure Bool

/-- Keeps the items of some kinds. -/
def ItemFilter.ofKinds (s : Store) (kinds : List Kind) : ItemFilter :=
  fun v => .ok ((s.kind? v).any kinds.contains)

/-- The items that a filter keeps, unless it fails on one of them. -/
def keptItems (keep : ItemFilter) : List Value → Except Failure (List Value)
  | [] => .ok []
  | v :: vs =>
    match keep v with
    | .error f => .error f
    | .ok kept => (keptItems keep vs).map fun vs => if kept then v :: vs else vs

/-- The items of a message that are kept, all of them if there is no filter. -/
def keptContents (keep : Option ItemFilter) (m : Message) : Except Failure (List Value) :=
  match keep with
  | none => .ok m.contents
  | some keep => keptItems keep m.contents

/-- Adds what an update says as a message of its own, unless nothing of its contents is kept;
mirrors `add_update_message`. A message may stand in for the update. -/
def addFiltered (s : Store) (present : Bool) (update : Value) (keep : Option ItemFilter) :
    Except Failure (List Value) :=
  match needMessages present, update with
  | .error f, _ => .error f
  | .ok _, .null => .error (.absent .update)
  | .ok _, update =>
    let m := s.message update
    if m.role = .null then .error (.absent .role)
    else
      match keptContents keep m with
      | .error f => .error f
      | .ok contents =>
        if contents.isEmpty then .ok []
        else ((newMessage s m contents).orFail).map fun m => [m]

/-- As `addFiltered`, with the kinds of the items to keep. -/
def addUpdate (s : Store) (present : Bool) (update : Value) (keep : Option (List Kind)) :
    Except Failure (List Value) :=
  addFiltered s present update (keep.map (ItemFilter.ofKinds s))

theorem grow_error (messages : List Value) (f : Failure) : grow messages (.error f) = messages :=
  rfl

theorem grow_ok (messages batch : List Value) : grow messages (.ok batch) = messages ++ batch := rfl

theorem addUpdates_absent (s : Store) (tracing : Bool) (mode : Mode) (sized : Bool)
    (source : Option Source) :
    (addUpdates s tracing false mode sized source).outcome = .error (.absent .messages) := rfl

/-! ## In a store -/

/-- What a call leaves, and what it gives. -/
abbrev Effect := Store × Except Failure Value

/-- What there is to add to a list of messages. -/
inductive Addition where
  | response (response : Value)
  /-- a source of updates that may be missing, and whether it knows their number -/
  | updates (mode : Mode) (sized : Bool) (source : Option (Source Value))
  | update (update : Value) (keep : Option ItemFilter)

namespace Store

/-- Adds messages to a list, or fails. -/
def growBy (s : Store) (list : Value) : Except Failure (List Value) → Effect
  | .error f => (s, .error f)
  | .ok batch => (s.extendList list batch, .ok .null)

/-- Adds the messages of a response to a list, unless the list is null. -/
def addResponseTo (s : Store) (list response : Value) : Effect :=
  s.growBy list (addResponse s (list != .null) response)

/-- Adds the messages that a source of updates makes to a list, unless the list is null. No updates,
known to be none before the start, add nothing, and then the list may be anything. -/
def addSourceTo (s : Store) (list : Value) (mode : Mode) (sized : Bool)
    (source : Option (Source Value)) : Effect :=
  match needMessages (list != .null), source with
  | .error f, _ => (s, .error f)
  | .ok _, none => (s, .error (.absent .updates))
  | .ok _, some source =>
    if mode = .sync && sized && source.updates.isEmpty then (s, .ok .null)
    else
      match s.toResponse mode (.bool true) source with
      | (s, .error f) => (s, .error f)
      | (s, .ok response) => s.addResponseTo list response

/-- Adds to a list of messages. -/
def add (s : Store) (list : Value) : Addition → Effect
  | .response response => s.addResponseTo list response
  | .updates mode sized source => s.addSourceTo list mode sized source
  | .update update keep => s.growBy list (addFiltered s (list != .null) update keep)

end Store

end Reassembly
