import Reassembly.Reconstruct

/-!
# Model providers

A provider streams updates for a model. Completing a call folds that stream into one response,
inside a span of the provider's own. Nobody can cancel the stream of a call.

* `Provider.source`: the stream as the call sees it.
* `Provider.complete`: the call.
* `complete_outcome`: the result is that of reconstructing the stream.
-/
namespace Reassembly

structure Provider where
  /-- the name it goes by -/
  name : Value := .text "unknown"
  /-- the class that implements it -/
  className : String
  /-- the updates it streams, if it can stream at all -/
  stream : Option Source

namespace Provider

/-- What the consumer of the stream sees: a provider without a stream fails when asked for the first
update. -/
def source (p : Provider) : Source :=
  match p.stream with
  | some source => { source with cancelAt := none }
  | none => { updates := [], failure := some (0, .noStream p.className) }

/-- Streams and combines; mirrors `ModelProvider.complete`. -/
def complete (s : Store) (tracing : Bool) (p : Provider) (model : Value) : Run Response :=
  let run := reconstruct s tracing .async true p.source
  { run with
    log :=
      match run.outcome with
      | .ok r => run.log ++ [.completed p.name.written model.written r.messages.length]
      | .error _ => run.log
    events := if tracing then completionEvents p.name model run.events else [] }

theorem complete_outcome (s : Store) (tracing : Bool) (p : Provider) (model : Value) :
    (p.complete s tracing model).outcome = (reconstruct s tracing .async true p.source).outcome :=
  rfl

end Provider

end Reassembly
