import Reassembly.Trace.Log
import Reassembly.Trace.Span

/-!
# Switching tracing on and off

Tracing is off until it is switched on with a tracer. A tracer may be silent: then spans go nowhere.

* `Tracing.enable`: asks for a tracer; fails if there is nothing to trace with.
* `enable_none`: a failed attempt leaves tracing as it was.
-/
namespace Reassembly

inductive Tracer where
  | recording
  | silent
deriving DecidableEq, Repr

/-- The tracer in use, if tracing is on. -/
structure Tracing where
  tracer : Option Tracer
deriving DecidableEq, Repr

namespace Tracing

def off : Tracing := ⟨none⟩

def isEnabled (t : Tracing) : Bool := t.tracer.isSome

/-- Spans are heard of. -/
def isRecording (t : Tracing) : Bool := t.tracer == some .recording

def defaultName : Value := .text "tessera"

/-- What comes of asking for a tracer of the given name, where `available` is the one to be had;
mirrors `instrument`. -/
def enable (t : Tracing) (name : Value) (available : Option Tracer) :
    Tracing × Except Failure Unit × List Event × List LogLine :=
  match available with
  | none => (t, .error .noTracing, [], [])
  | some .recording => (⟨some .recording⟩, .ok (), [.tracer name], [.tracingEnabled])
  | some .silent => (⟨some .silent⟩, .ok (), [.tracer name], [.spansDiscarded])

theorem enable_none (t : Tracing) (name : Value) : (t.enable name none).1 = t := rfl

end Tracing

end Reassembly
