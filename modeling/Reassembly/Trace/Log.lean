import Reassembly.Text.Quoted

/-!
# Log lines

What the library reports while it runs, as data. `LogLine.text` is the line: level, logger, message.
-/
namespace Reassembly

open Reassembly.Text

inductive LogLine where
  /-- the `number`th message was begun, by an update with this message id, in this role -/
  | opened (number : Nat) (messageId role : Option String)
  | finalized (messages : Nat) (updates : Int)
  | completed (provider model : String) (messages : Nat)
  | tracingEnabled
  | spansDiscarded
deriving DecidableEq, Repr

def LogLine.text : LogLine → String
  | .opened number messageId role =>
    "DEBUG tessera.streaming Opened message " ++ toString number ++ " (message_id=" ++
      (messageId.map quoted).getD "None" ++ ", role=" ++ role.getD "None" ++ ")"
  | .finalized messages updates =>
    "DEBUG tessera.streaming Finalized response with " ++ toString messages ++
      " message(s) from " ++ toString updates ++ " update(s)"
  | .completed provider model messages =>
    "DEBUG tessera.provider " ++ provider ++ " completed " ++ model ++ " with " ++
      toString messages ++ " message(s)"
  | .tracingEnabled => "INFO tessera.instrumentation Tessera instrumentation enabled"
  | .spansDiscarded =>
    "INFO tessera.instrumentation No TracerProvider configured; spans will be discarded. " ++
      "Set up a TracerProvider to export traces."

end Reassembly
