import Reassembly.Workspace.Form
import Reassembly.Response.Updates
import Reassembly.Transcript
import Reassembly.Value.Equality
import Reassembly.Display

/-!
# Workspaces

A workspace is a store whose values have names. Commands make values, change them, call what they
can do, and look at them; a command that fails changes no name.

* `Workspace.run`: the effect of one command and its reply.
* `run_look`: looking changes nothing.
-/
namespace Reassembly

/-- What an object of a workspace can be asked to do. -/
inductive Method where
  | clone | add | feed | finalize | toUpdates | addResponse | addUpdates
deriving DecidableEq, Repr

/-- What can be done with values of a workspace. -/
inductive Function where
  | toResponse | coalesceContents | addResponseMessages | addUpdateMessages | addUpdateMessage
deriving DecidableEq, Repr

inductive Command where
  | make (name : String) (form : Form)
  /-- assigns to the last step of a path -/
  | set (register : String) (steps : List Key) (last : Key) (form : Form)
  | append (register : String) (steps : List Key) (form : Form)
  | call (register : String) (steps : List Key) (method : Method) (arguments : List Form)
      (into : Option String)
  | apply (function : Function) (arguments : List Form) (into : Option String)
  | isSame (a b : Form)
  | agrees (a b : Form)
  | get (register : String) (steps : List Key)
  | display (register : String) (steps : List Key)

inductive Reply where
  | done
  | value (v : Value)
  | flag (b : Bool)
  | text (t : String)

structure Workspace where
  store : Store
  registers : List (String × Value)

/-- The number of the argument, or null. -/
def argument (arguments : List Value) (n : Nat) : Value := (arguments[n]?).getD .null

/-- A source of the updates that a value yields, unless it is null. -/
def Store.source? (s : Store) (updates : Value) : Option (Source Value) :=
  if updates = .null then none else some { updates := s.elements updates }

/-- Combines updates into a response, whatever they are that yields them. -/
def Store.combine (s : Store) (updates coalesce : Value) : Effect :=
  match s.source? updates with
  | none => (s, .error (.absent .updates))
  | some source => s.toResponse .sync coalesce source

/-- What it means to add the messages that updates make, whatever they are that yields them. -/
def Store.additionOf (s : Store) (updates : Value) : Addition :=
  .updates .sync (s.isSized updates) (s.source? updates)

/-- What a method does to the store, and what it gives. -/
def Store.call (s : Store) (receiver : Value) (arguments : List Value) : Method → Effect
  | .clone =>
    let (s, copy) := s.push (s.head receiver)
    (s, .ok copy)
  | .add =>
    match argument arguments 0 with
    | .null => (s, .error (.absent .usage))
    | other => (s.addUsage receiver other, .ok .null)
  | .feed => (s.feed receiver (argument arguments 0), .ok .null)
  | .finalize =>
    let (s, response) := s.finalize receiver
    (s, response.orFail)
  | .toUpdates =>
    match (s.updatesOf receiver).orFail with
    | .error f => (s, .error f)
    | .ok updates =>
      let (s, updates) := s.intern (.list updates)
      (s, .ok updates)
  | .addResponse => s.add (s.member receiver "transcript") (.response (argument arguments 0))
  | .addUpdates =>
    s.add (s.member receiver "transcript") (s.additionOf (argument arguments 0))

/-- What a function does to the store, and what it gives. -/
def Store.apply (s : Store) (arguments : List Value) : Function → Effect
  | .toResponse => s.combine (argument arguments 0) ((arguments[1]?).getD (.bool true))
  | .coalesceContents =>
    let attempt := s.coalesceList (argument arguments 0)
    (attempt.result, attempt.checked.orFail.map fun _ => .null)
  | .addResponseMessages => s.add (argument arguments 0) (.response (argument arguments 1))
  | .addUpdateMessages => s.add (argument arguments 0) (s.additionOf (argument arguments 1))
  | .addUpdateMessage => s.add (argument arguments 0) (.update (argument arguments 1) none)

namespace Workspace

def empty : Workspace := ⟨.empty, []⟩

def find (w : Workspace) (name : String) : Value := (w.registers.lookup name).getD .null

/-- Names a value. A name that is in use moves to the new value. -/
def put (name : String) (v : Value) : List (String × Value) → List (String × Value)
  | [] => [(name, v)]
  | (n, u) :: rs => if n = name then (n, v) :: rs else (n, u) :: put name v rs

def build (w : Workspace) (f : Form) : Except Failure Value := f.build w.store w.find

def follow (w : Workspace) (register : String) (steps : List Key) : Value :=
  w.store.followAll (w.find register) steps

/-- Builds arguments and puts them into the store. -/
def buildArguments (w : Workspace) (forms : List Form) : Except Failure (Store × List Value) :=
  (Form.buildAll w.store w.find forms).map w.store.internAll

/-- Keeps the result of a call under a name, or gives it as the reply. -/
def keep (w : Workspace) (into : Option String) (effect : Effect) :
    Workspace × Except Failure Reply :=
  match effect, into with
  | (s, .error f), _ => ({ w with store := s }, .error f)
  | (s, .ok v), some name => (⟨s, put name v w.registers⟩, .ok .done)
  | (s, .ok v), none => ({ w with store := s }, .ok (.value v))

/-- Builds arguments and calls something with them. -/
def withArguments (w : Workspace) (forms : List Form) (into : Option String)
    (call : Store → List Value → Effect) : Workspace × Except Failure Reply :=
  match w.buildArguments forms with
  | .error f => (w, .error f)
  | .ok (s, arguments) => w.keep into (call s arguments)

/-- Compares two values, each built as a value of its own. -/
def compare (w : Workspace) (a b : Form) (test : Store → Value → Value → Bool) :
    Except Failure Reply :=
  (w.buildArguments [a, b]).map fun (s, built) =>
    .flag (test s (argument built 0) (argument built 1))

/-- The workspace with another store, or as it was after a failure. -/
def withStore (w : Workspace) : Except Failure Store → Workspace × Except Failure Reply
  | .error f => (w, .error f)
  | .ok s => ({ w with store := s }, .ok .done)

def run (w : Workspace) : Command → Workspace × Except Failure Reply
  | .make name form =>
    w.withArguments [form] (some name) fun s built => (s, .ok (argument built 0))
  | .set register steps last form =>
    w.withStore ((w.build form).bind (w.store.assign (w.follow register steps) last))
  | .append register steps form =>
    w.withStore
      ((w.build form).map fun v => w.store.extendList (w.follow register steps) [v])
  | .call register steps method arguments into =>
    w.withArguments arguments into fun s arguments =>
      s.call (s.followAll (w.find register) steps) arguments method
  | .apply function arguments into =>
    w.withArguments arguments into fun s arguments => s.apply arguments function
  | .isSame a b => (w, w.compare a b fun _ v u => !a.isFresh && !b.isFresh && Store.isSame v u)
  | .agrees a b => (w, w.compare a b Store.agrees)
  | .get register steps => (w, .ok (.value (w.follow register steps)))
  | .display register steps => (w, .ok (.text (w.store.display (w.follow register steps))))

/-- The values of all names, in outline. -/
def shown (w : Workspace) : List (String × Value) :=
  w.registers.map fun (name, v) => (name, w.store.outline v)

theorem run_look (w : Workspace) (register : String) (steps : List Key) :
    (w.run (.get register steps)).1 = w ∧ (w.run (.display register steps)).1 = w := ⟨rfl, rfl⟩

end Workspace

end Reassembly
