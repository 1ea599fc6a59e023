import Reassembly.Validation.Problem

/-!
# Failures

Why an operation has no result. `Failure.kind` names the class of a failure and `Failure.message`
words it; both are also what tracing records.
-/
namespace Reassembly

/-- An argument that must be given. -/
inductive Argument where
  | updates | messages | response | update | role | usage
deriving DecidableEq, Repr

def Argument.name : Argument → String
  | .updates => "updates"
  | .messages => "messages"
  | .response => "response"
  | .update => "update"
  | .role => "update.role"
  | .usage => "usage"

inductive Failure where
  /-- an argument is missing -/
  | absent (argument : Argument)
  /-- a value breaks the rules -/
  | invalid (problems : List Problem)
  /-- the stream was cancelled between two updates -/
  | cancelled
  /-- the source of the updates failed, for a reason of its own -/
  | raised (kind message : String)
  /-- the provider has no stream -/
  | noStream (provider : String)
  /-- there is nothing to trace with -/
  | noTracing
  /-- objects of the class have no such field to assign to -/
  | noField (className name : String)
deriving DecidableEq, Repr

def Failure.kind : Failure → String
  | .absent _ => "ValueError"
  | .invalid _ => "ValidationError"
  | .cancelled => "CancelledError"
  | .raised kind _ => kind
  | .noStream _ => "NotImplementedError"
  | .noTracing => "ImportError"
  | .noField _ _ => "ValueError"

def Failure.message : Failure → String
  | .absent a => a.name ++ " must not be None"
  | .invalid ps => Problem.listText ps
  | .cancelled => "response reconstruction cancelled"
  | .raised _ message => message
  | .noStream provider => provider ++ " has not implemented stream()"
  | .noTracing =>
    "opentelemetry-api is required for instrumentation. " ++
      "Install it with: pip install tessera[otel]"
  | .noField className name => "\"" ++ className ++ "\" object has no field \"" ++ name ++ "\""

/-- A check as an operation that fails with its problems. -/
def Checked.orFail {α : Type} : Checked α → Except Failure α
  | .ok a => .ok a
  | .error ps => .error (.invalid ps)

end Reassembly
