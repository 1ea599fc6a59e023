import Reassembly.Message

/-!
# Updates

An update is one fragment of a streamed response: content items, and values that refine the message
or the response in progress. What it does not carry is null.

* `Update.toValue`, `Store.update`: the update as a value and back.
* `update_toValue`: a value made from an update reads as that update.
-/
namespace Reassembly

/-- An update. Role and finish reason are objects, the time is a timestamp, the properties are a
map, and the other values are texts. -/
structure Update where
  role : Value
  contents : List Value
  author : Value
  responseId : Value
  messageId : Value
  conversationId : Value
  created : Value
  finish : Value
  model : Value
  raw : Value
  properties : Value
deriving DecidableEq, Repr

namespace Update

/-- An update that carries nothing. -/
def blank : Update :=
  ⟨.null, [], .null, .null, .null, .null, .null, .null, .null, .null, .null⟩

def text (s : Store) (u : Update) : String := concatText s u.contents

/-- The values of the fields in the order of their declaration. -/
def values (u : Update) : List Value :=
  [u.role, .list u.contents, u.author, u.responseId, u.messageId, u.conversationId, u.created,
    u.finish, u.model, u.raw, u.properties]

def toValue (u : Update) : Value := .object .update u.values

end Update

namespace Store

/-- The update that a value is. An accumulator reads as what has been noted on it. -/
def update (s : Store) (v : Value) : Update :=
  match s.head v with
  | .object .update
      [role, contents, author, responseId, messageId, conversationId, created, finish, model, raw,
        properties] =>
    { role, contents := s.items contents, author, responseId, messageId, conversationId, created
      finish, model, raw, properties }
  | .object .accumulator _ =>
    let m := s.message v
    { role := m.role
      contents := m.contents
      author := m.author
      responseId := s.member v "response_id"
      messageId := m.id
      conversationId := s.member v "conversation_id"
      created := m.created
      finish := s.member v "finish_reason"
      model := s.member v "model_id"
      raw := m.raw
      properties := m.properties }
  | _ => .blank

theorem update_toValue (s : Store) (u : Update) : s.update u.toValue = u := rfl

end Store

end Reassembly
