import Reassembly.Update
import Reassembly.Usage

/-!
# Responses

A response holds messages and what is known about the call as a whole.

* `Response.toValue`, `Store.response`: the response as a value and back.
* `response_toValue`: a value made from a response reads as that response.
* `Response.toUpdates`: the updates that a response comes apart into, one for each message and one
  more for usage and properties if there are any.
* `length_toUpdates`: how many there are.
-/
namespace Reassembly

/-- A response. The finish reason is an object, the time a timestamp, the usage an object with
counters, the properties are a map, and the other values are texts; each may be null. Nobody checks
what is assigned to them. -/
structure Response where
  messages : List Message
  id : Value
  conversationId : Value
  model : Value
  created : Value
  finish : Value
  usage : Value
  raw : Value
  properties : Value
deriving DecidableEq, Repr

/-- The new value if there is one, else the old. -/
def newer (new old : Value) : Value := if new = .null then old else new

theorem newer_null_left (v : Value) : newer .null v = v := rfl

theorem newer_null_right (v : Value) : newer v .null = v := by
  by_cases h : v = .null <;> simp [newer, h]

theorem newer_assoc (u v w : Value) : newer (newer u v) w = newer u (newer v w) := by
  by_cases h : u = .null <;> simp [newer, h]

namespace Response

/-- No messages, and nothing known. -/
def empty : Response := ⟨[], .null, .null, .null, .null, .null, .null, .null, .null⟩

def text (s : Store) (r : Response) : String := messagesText s r.messages

def toValue (r : Response) : Value :=
  .object .response
    [.list (r.messages.map (·.toValue)), r.id, r.conversationId, r.model, r.created, r.finish,
      r.usage, r.raw, r.properties]

end Response

namespace Store

def response (s : Store) (v : Value) : Response :=
  match s.head v with
  | .object .response
      [messages, id, conversationId, model, created, finish, usage, raw, properties] =>
    { messages := (s.elements messages).map s.message, id, conversationId, model, created, finish
      usage, raw, properties }
  | _ => .empty

theorem response_toValue (s : Store) (r : Response) : s.response r.toValue = r := by
  have h : s.message ∘ Message.toValue = id := funext s.message_toValue
  simp [response, Response.toValue, head, elements_list, h]

end Store

/-! ## Coming apart -/

/-- The item that carries counters inside of a stream. -/
def usageItem (details : Value) : Value := .object .usage [.null, .null, .null, details]

namespace Response

/-- The update for one message: the message's own values, and those of the response. -/
def messageUpdate (r : Response) (m : Message) : Update where
  role := m.role
  contents := m.contents
  author := m.author
  responseId := r.id
  messageId := m.id
  conversationId := r.conversationId
  created := newer m.created r.created
  finish := r.finish
  model := r.model
  raw := m.raw
  properties := m.properties

/-- There is something for a last update to carry. -/
def hasClosing (r : Response) : Bool := r.properties != .null || r.usage != .null

/-- The last update: the properties of the response, and its counters as a usage item. -/
def closingUpdate (r : Response) : Update :=
  { Update.blank with
    contents := if r.usage = .null then [] else [usageItem r.usage]
    properties := r.properties }

def toUpdates (r : Response) : List Update :=
  r.messages.map r.messageUpdate ++ (if r.hasClosing then [r.closingUpdate] else [])

theorem length_toUpdates (r : Response) :
    r.toUpdates.length = r.messages.length + (if r.hasClosing then 1 else 0) := by
  simp only [toUpdates, List.length_append, List.length_map]
  split <;> rfl

end Response

end Reassembly
