/-!
# What can be wrong with a value

A problem is a cause and the path to the place where it was found. A check lists all problems of a
value in the order in which it meets them.

* `collect`: a list of checks succeeds if all do, and otherwise has the problems of all.
* `collect_ok_iff`: the condition for success, and the result.
* `Attempt`: a change that problems may stop half-way.
-/
namespace Reassembly

inductive Cause where
  | missing
  | notText
  | notInteger
  | unreadableInteger
  | tooManyDigits
  | fractionalNumber
  | notFinite
  | notTimestamp
  | unreadableTimestamp
  | timestampOutOfRange
  | notList
  | notMap
  | notObject
  | blankLabel
  | frozen
  | noSuchField
deriving DecidableEq, Repr

structure Problem where
  path : List String
  cause : Cause
deriving DecidableEq, Repr

/-- The name of a cause, with its explanation where one is given. -/
def Cause.text : Cause → String
  | .missing => "missing"
  | .notText => "string_type"
  | .notInteger => "int_type"
  | .unreadableInteger => "int_parsing"
  | .tooManyDigits => "int_parsing_size"
  | .fractionalNumber => "int_from_float"
  | .notFinite => "finite_number"
  | .notTimestamp => "datetime_type"
  | .unreadableTimestamp => "datetime_from_date_parsing"
  | .timestampOutOfRange => "datetime_parsing"
  | .notList => "list_type"
  | .notMap => "dict_type"
  | .notObject => "model_type"
  | .blankLabel => "value_error: Value error, value must not be empty or whitespace"
  | .frozen => "frozen_instance"
  | .noSuchField => "no_such_attribute"

/-- The path with points between its steps, and the cause. -/
def Problem.text (p : Problem) : String := ".".intercalate p.path ++ ": " ++ p.cause.text

def Problem.listText (ps : List Problem) : String := "; ".intercalate (ps.map Problem.text)

/-- The outcome of a check: the checked value, or what is wrong with it. -/
abbrev Checked (α : Type) := Except (List Problem) α

namespace Checked

variable {α β : Type}

/-- Something is wrong with the value itself. -/
def fail (cause : Cause) : Checked α := .error [⟨[], cause⟩]

/-- Locates the problems of a part under the step that leads to it. -/
def within (step : String) : Checked α → Checked α
  | .ok a => .ok a
  | .error ps => .error (ps.map fun p => ⟨step :: p.path, p.cause⟩)

/-- Both results, or the problems of both. -/
def both : Checked α → Checked (List α) → Checked (List α)
  | .ok a, .ok as => .ok (a :: as)
  | .ok _, .error ps => .error ps
  | .error ps, .ok _ => .error ps
  | .error ps, .error qs => .error (ps ++ qs)

/-- All results, or all problems. -/
def collect : List (Checked α) → Checked (List α)
  | [] => .ok []
  | c :: cs => both c (collect cs)

/-- Checks a list, the elements located by their indices from `start` on. -/
def collectFrom (check : α → Checked β) (start : Nat) : List α → Checked (List β)
  | [] => .ok []
  | a :: as => both (within (toString start) (check a)) (collectFrom check (start + 1) as)

theorem both_ok_iff (c : Checked α) (d : Checked (List α)) (as : List α) :
    both c d = .ok as ↔ ∃ b bs, as = b :: bs ∧ c = .ok b ∧ d = .ok bs := by
  cases c <;> cases d <;> simp [both, eq_comm]

theorem collect_ok_iff (cs : List (Checked α)) (as : List α) :
    collect cs = .ok as ↔ cs = as.map .ok := by
  induction cs generalizing as with
  | nil => cases as <;> simp [collect]
  | cons c cs ih =>
    rw [collect, both_ok_iff]
    cases as with
    | nil => simp
    | cons a as =>
      constructor
      · rintro ⟨b, bs, e, hc, hcs⟩
        cases e
        simp [hc, (ih as).1 hcs]
      · intro e
        simp only [List.map_cons, List.cons.injEq] at e
        exact ⟨a, as, rfl, e.1, (ih as).2 e.2⟩

theorem within_ok_iff (step : String) (c : Checked α) (a : α) :
    within step c = .ok a ↔ c = .ok a := by
  cases c <;> simp [within]

end Checked

/-- What a change has made of something, and the problems that stopped it before its end, if any. -/
structure Attempt (α : Type) where
  result : α
  problems : List Problem
deriving DecidableEq, Repr

namespace Attempt

variable {α β : Type}

def done (a : α) : Attempt α := ⟨a, []⟩

/-- Nothing stopped the change. -/
def isDone (a : Attempt α) : Bool := a.problems.isEmpty

def map (f : α → β) (a : Attempt α) : Attempt β := ⟨f a.result, a.problems⟩

/-- Goes on with the result, unless there were problems. -/
def andThen (a : Attempt α) (f : α → Attempt α) : Attempt α :=
  if a.isDone then f a.result else a

/-- The result of a change that came to its end. -/
def checked (a : Attempt α) : Checked α := if a.isDone then .ok a.result else .error a.problems

theorem andThen_done (a : α) (f : α → Attempt α) : (done a).andThen f = f a := rfl

theorem checked_done (a : α) : (done a).checked = .ok a := rfl

end Attempt

end Reassembly
