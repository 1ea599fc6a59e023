import Reassembly.Response.Basic
import Reassembly.Failure

/-!
# Spans

A tracer hears of spans: when one starts and ends, and what is recorded on the innermost one in
between. `inSpan` wraps events into a span of their own, so that spans are always nested.

* `responseEvents`: what is recorded for a finished response.
* `failureEvents`: what is recorded for a failure.
* `inReconstruction`: the span of one reconstruction.
* `completionEvents`: the span of one call of a provider.
-/
namespace Reassembly

/-- What a tracer hears of. The values of attributes are mostly texts and numbers, but nobody checks
those that come from outside. -/
inductive Event where
  /-- the provider of tracers was asked for one -/
  | tracer (name : Value)
  | start (span : String) (client : Bool) (attributes : List (String × Value))
  | set (name : String) (value : Value)
  | errorStatus (description : String)
  | exception (kind message : String)
  | finish (span : String)
deriving DecidableEq, Repr

/-- The text of a role or finish reason object. -/
def Store.labelText? (s : Store) (v : Value) : Option String :=
  match s.head v with
  | .object .role [.text t] => some t
  | .object .finish [.text t] => some t
  | _ => none

/-- The events inside of a span, with its start and its end. -/
def inSpan (span : String) (client : Bool) (attributes : List (String × Value))
    (events : List Event) : List Event :=
  .start span client attributes :: events ++ [.finish span]

def reconstructionSpan : String := "reconstruct_response"

/-- An attribute, unless its value is null. -/
def setKnown (name : String) (value : Value) : List Event :=
  if value = .null then [] else [.set name value]

/-- An attribute, unless its value says nothing. -/
def Store.setTrue (s : Store) (name : String) (value : Value) : List Event :=
  if s.isTrue value then [.set name value] else []

/-- The attributes of a finished response; the number of updates may be null. Mirrors
`record_response`. -/
def responseEvents (s : Store) (r : Response) (updates : Value) : List Event :=
  [.set "tessera.response.message_count" (.int r.messages.length)] ++
    setKnown "tessera.update.count" updates ++
    setKnown "gen_ai.usage.input_tokens" (s.usage r.usage).input ++
    setKnown "gen_ai.usage.output_tokens" (s.usage r.usage).output ++
    s.setTrue "gen_ai.response.model" r.model ++
    s.setTrue "gen_ai.response.id" r.id ++
    ((s.labelText? r.finish).map fun reason =>
      .set "gen_ai.response.finish_reasons" (.list [.text reason])).toList

/-- The marks of a failure: status, exception, and the class of the failure. Mirrors
`record_error`. -/
def failureEvents (f : Failure) : List Event :=
  [.errorStatus f.message, .exception f.kind f.message, .set "error.type" (.text f.kind)]

/-- How updates arrive. -/
inductive Mode where
  | sync | async
deriving DecidableEq, Repr

def Mode.name : Mode → String
  | .sync => "sync"
  | .async => "async"

/-- The span around one reconstruction; mirrors `reconstruct_span`. -/
def inReconstruction (mode : Mode) (events : List Event) : List Event :=
  inSpan reconstructionSpan false
    [("tessera.operation.name", .text reconstructionSpan),
      ("tessera.reconstruct.mode", .text mode.name)]
    events

/-- The span around one call of a provider; mirrors `completion_span`. -/
def completionEvents (provider model : Value) (events : List Event) : List Event :=
  inSpan ("chat " ++ model.written) true
    [("gen_ai.operation.name", .text "chat"), ("gen_ai.provider.name", provider),
      ("gen_ai.request.model", model)]
    events

end Reassembly
