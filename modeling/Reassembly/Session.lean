import Reassembly.Transcript

/-!
# Sessions

A session is a transcript of messages that takes in responses and streams of updates.

* `Session.text`: the text of the transcript.
* `session_toValue`: a value made from a session reads as that session.
* `Session.absorb_error`: a failed attempt changes nothing.
-/
namespace Reassembly

/-- A session. Its name is a text, unless somebody assigned something else. -/
structure Session where
  id : Value
  transcript : List Value
deriving DecidableEq, Repr

namespace Session

def text (s : Store) (session : Session) : String :=
  messagesText s (session.transcript.map s.message)

/-- The session after an attempt to add messages. -/
def absorb (session : Session) (added : Except Failure (List Value)) : Session :=
  { session with transcript := grow session.transcript added }

def toValue (session : Session) : Value :=
  .object .session [session.id, .list session.transcript]

end Session

def Store.session (s : Store) (v : Value) : Session :=
  match s.head v with
  | .object .session [id, transcript] => { id, transcript := s.items transcript }
  | _ => ⟨.null, []⟩

theorem Store.session_toValue (s : Store) (session : Session) :
    s.session session.toValue = session := rfl

/-- A failed attempt leaves the session as it was. -/
theorem Session.absorb_error (session : Session) (f : Failure) :
    session.absorb (.error f) = session := rfl

end Reassembly
