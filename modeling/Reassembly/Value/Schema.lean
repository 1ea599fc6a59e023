import Reassembly.Value.Store

/-!
# The fields of each kind

Every kind declares its fields: a name, the rule that its values obey, and the value that stands in
when a constructor is not given one. The order of declaration is the order of checking and of
writing out.

* `Kind.fields`: the declarations.
* `Kind.position?`: where a field stands among them.
* `Kind.depth`: an object of a kind holds declared objects of smaller depth only, so checking ends.
-/
namespace Reassembly

/-- What a field accepts, and what it makes of it. -/
inductive Rule where
  /-- any value, kept as it is -/
  | anything
  /-- a text -/
  | text
  /-- a text; null reads as the empty one -/
  | textOrEmpty
  /-- a text that is not blank -/
  | label
  /-- a text or null; a blank text reads as null -/
  | author
  | integer
  | timestamp
  /-- a map with text keys -/
  | properties
  /-- a map from texts to integers -/
  | counts
  /-- an object of the kind, or what it can be constructed from -/
  | one (kind : Kind)
  /-- a list of them -/
  | many (kind : Kind)
  /-- a list of content items; null is the empty list and a text is one text item -/
  | contents
  /-- a list of messages; null is the empty list and a message is a list of itself -/
  | messages
  /-- null, or what the rule accepts -/
  | optional (rule : Rule)
deriving DecidableEq, Repr

/-- The declaration of a field. -/
structure Field where
  name : String
  rule : Rule
  /-- what a constructor puts when it is not given; required if there is none -/
  default : Option Value := some .null
  /-- what a constructor puts for null, if it does not take it -/
  whenNull : Option Value := none
deriving DecidableEq, Repr

/-- The field holds whatever an object was made from. It is kept as it is and never written out. -/
def Field.isRaw (f : Field) : Bool := f.name == "raw_representation"

def rawField : Field := { name := "raw_representation", rule := .anything }

def propertiesField : Field := { name := "additional_properties", rule := .optional .properties }

def textField (name : String) : Field := { name, rule := .optional .text }

def countField (name : String) : Field := { name, rule := .optional .integer }

def timeField : Field := { name := "created_at", rule := .optional .timestamp }

def authorField : Field := { name := "author_name", rule := .author }

def reasonField : Field := { name := "finish_reason", rule := .optional (.one .finish) }

def contentsField : Field := { name := "contents", rule := .contents, default := some (.list []) }

/-- The fields that all content items have. -/
def contentFields : List Field :=
  [{ name := "annotations", rule := .optional (.many .note) }, rawField, propertiesField]

/-- The fields that all annotations have. -/
def annotationFields : List Field :=
  [{ name := "annotated_regions", rule := .optional (.many .region) }, rawField, propertiesField]

/-- Counters of which none is known. -/
def noDetails : Value := .object .details [.null, .null, .null, .null]

/-- The fields that a kind declares, in order. -/
def Kind.fields : Kind → List Field
  | .content => contentFields
  | .text | .reasoning =>
    contentFields ++ [{ name := "text", rule := .textOrEmpty, default := some (.text "") }]
  | .usage =>
    contentFields ++
      [{ name := "details", rule := .optional (.one .details), default := some noDetails,
         whenNull := some noDetails }]
  | .note => annotationFields
  | .citation =>
    annotationFields ++ ["title", "url", "file_id", "tool_name", "snippet"].map textField
  | .region => []
  | .span => [countField "start_index", countField "end_index"]
  | .details =>
    [countField "input_token_count", countField "output_token_count",
      countField "total_token_count",
      { name := "additional_counts", rule := .optional .counts }]
  | .role => [{ name := "value", rule := .label, default := none }]
  | .finish =>
    [{ name := "value", rule := .label, default := some (.text "stop"),
       whenNull := some (.text "stop") }]
  | .message =>
    [{ name := "role", rule := .optional (.one .role), default := some Store.userRole }, contentsField,
      authorField, timeField, textField "message_id", rawField, propertiesField]
  | .update =>
    [{ name := "role", rule := .optional (.one .role) }, contentsField, authorField,
      textField "response_id", textField "message_id", textField "conversation_id", timeField,
      reasonField, textField "model_id", rawField, propertiesField]
  | .response =>
    [{ name := "messages", rule := .messages, default := some (.list []) },
      textField "response_id", textField "conversation_id", textField "model_id", timeField,
      reasonField, { name := "usage", rule := .optional (.one .details) }, rawField,
      propertiesField]
  | .session =>
    [{ name := "session_id", rule := .text, default := none },
      { name := "transcript", rule := .many .message, default := some (.list []) }]
  | .accumulator =>
    [{ name := "coalesce", rule := .anything, default := some (.bool true) },
      { name := "update_count", rule := .anything, default := some (.int 0) },
      { name := "response", rule := .anything }]

/-- The name of the class of objects of a kind. -/
def Kind.className : Kind → String
  | .content => "Content"
  | .text => "TextContent"
  | .reasoning => "TextReasoningContent"
  | .usage => "UsageContent"
  | .note => "Annotation"
  | .citation => "CitationAnnotation"
  | .region => "AnnotatedRegion"
  | .span => "TextSpanRegion"
  | .details => "UsageDetails"
  | .role => "Role"
  | .finish => "FinishReason"
  | .message => "Message"
  | .update => "ResponseUpdate"
  | .response => "Response"
  | .session => "Session"
  | .accumulator => "ResponseAccumulator"

/-- Assignments to the fields of these kinds are checked. -/
def Kind.checksAssignment : Kind → Bool
  | .content | .text | .reasoning | .usage | .message | .update => true
  | _ => false

/-- Objects of these kinds never change. -/
def Kind.isFrozen : Kind → Bool
  | .role | .finish => true
  | _ => false

/-- The place of the field of that name. -/
def Kind.position? (k : Kind) (name : String) : Option Nat :=
  k.fields.findIdx? (·.name == name)

/-- How deep declared objects nest inside one of the kind. -/
def Kind.depth : Kind → Nat
  | .region | .span | .details | .role | .finish | .accumulator => 0
  | .note | .citation => 1
  | .content | .text | .reasoning | .usage => 2
  | .message | .update => 3
  | .response | .session => 4

/-- The kind that objects of a field are constructed as. -/
def Rule.target? : Rule → Option Kind
  | .one k | .many k => some k
  | .contents => some .content
  | .messages => some .message
  | .optional r => r.target?
  | _ => none

/-- What a field constructs is of smaller depth. -/
theorem Kind.depth_target (k : Kind) :
    ∀ f ∈ k.fields, ∀ l, f.rule.target? = some l → l.depth < k.depth := by
  cases k <;> decide +revert

end Reassembly
