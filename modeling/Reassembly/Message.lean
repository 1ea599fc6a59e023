import Reassembly.Value.Member

/-!
# Messages

A message has a role, its content items in the order in which they are shown, and what is known
about its author, time and identity. What is not known is null.

* `Message.toValue`, `Store.message`: the message as a value and back.
* `message_toValue`: a value made from a message reads as that message.
* `Message.text`: the text of its text items.
-/
namespace Reassembly

/-- A message. The role is a role object, the time a timestamp, author and name are texts, and the
properties are a map. -/
structure Message where
  role : Value
  contents : List Value
  author : Value
  created : Value
  id : Value
  raw : Value
  properties : Value
deriving DecidableEq, Repr

namespace Message

/-- A message of the given role about which nothing else is known yet. -/
def opened (role : Value) : Message := ⟨role, [], .null, .null, .null, .null, .null⟩

def text (s : Store) (m : Message) : String := concatText s m.contents

def toValue (m : Message) : Value :=
  .object .message [m.role, .list m.contents, m.author, m.created, m.id, m.raw, m.properties]

end Message

namespace Store

/-- The message that a value is. An update reads as the message that it would be on its own, and an
accumulator as what has been noted on it. -/
def message (s : Store) (v : Value) : Message :=
  match s.head v with
  | .object .message [role, contents, author, created, id, raw, properties] =>
    { role, contents := s.items contents, author, created, id, raw, properties }
  | .object .update [role, contents, author, _, id, _, created, _, _, raw, properties] =>
    { role, contents := s.items contents, author, created, id, raw, properties }
  | .object .accumulator _ =>
    { role := s.member v "role"
      contents := s.items (s.member v "contents")
      author := s.member v "author_name"
      created := s.member v "created_at"
      id := s.member v "message_id"
      raw := s.member v "raw_representation"
      properties := s.member v "additional_properties" }
  | _ => .opened .null

theorem message_toValue (s : Store) (m : Message) : s.message m.toValue = m := rfl

end Store

/-- The text of a list of messages. -/
def messagesText (s : Store) (messages : List Message) : String :=
  joinLines (messages.map (·.text s))

end Reassembly
