import Reassembly.Response.Basic
import Reassembly.Validation.Check

/-!
# The updates of a response in a store

The updates that a response comes apart into, as values of a store. They share the content items of
the response, and the closing update shares its counters; lists and maps are copies.

* `Store.updatesOf`: the updates, each checked by its constructor.
-/
namespace Reassembly

/-- Names the values of the fields of a kind. -/
def Kind.named (k : Kind) (values : List Value) : Entries Value :=
  (k.fields.zip values).map fun (f, v) => (.text f.name, v)

namespace Store

/-- An update as its constructor makes it. -/
def checkUpdate (s : Store) (u : Update) : Checked Value :=
  construct s .update (Kind.update.named u.values)

/-- The usage item for a value that may be null, as its constructor makes it. -/
def checkUsageItem (s : Store) (details : Value) : Checked (List Value) :=
  if details = .null then .ok []
  else (construct s .usage [(.text "details", details)]).map fun item => [item]

/-- The last update is made before its item. -/
def checkClosing (s : Store) (r : Response) : Checked (List Value) :=
  if r.hasClosing then do
    let _ ← s.checkUpdate { r.closingUpdate with contents := [] }
    let contents ← s.checkUsageItem r.usage
    let closing ← s.checkUpdate { r.closingUpdate with contents }
    return [closing]
  else .ok []

/-- The updates that a response comes apart into; mirrors `Response.to_updates`. -/
def updatesOf (s : Store) (v : Value) : Checked (List Value) := do
  let r := s.response v
  let updates ← (r.messages.map r.messageUpdate).mapM s.checkUpdate
  let closing ← s.checkClosing r
  return updates ++ closing

end Store

end Reassembly
