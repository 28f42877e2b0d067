import ParseOutcome.Cursor
import ParseOutcome.Observation.Expectation
import ParseOutcome.Observation.Severity
import ParseOutcome.Text.Blank

/-!
# Observations

An observation is one remark on an attempt to parse.  It has no position of its
own at first and is then read at the remainder of the outcome that carries it;
once it has one, it can be compared with others and shown alone.

Messages are never blank, and no expectation is listed twice.  Two observations
are the same, `a == b`, when they say the same at the same position and expect
the same labels, in whatever order.
-/

namespace ParseOutcome

/-- A remark on an attempt to parse. -/
structure Observation where
  severity : Severity
  message : String
  /-- What was expected, in the order of first mention. -/
  expectations : List String
  /-- The position of its own, if it has one. -/
  position : Option Nat
  message_not_blank : Blank.isBlankText message = false
  expectations_nodup : expectations.Nodup

namespace Observation

variable {α β : Type} [Label β]

/-- A remark of the given severity, without a position; refused if the message is
blank. -/
def ofSeverity (severity : Severity) (message : String) (labels : List β) :
    Except Misuse Observation :=
  if blank : Blank.isBlankText message then .error .emptyMessage
  else .ok {
    severity
    message
    expectations := Expectation.distinct labels
    position := none
    message_not_blank := by simpa using blank
    expectations_nodup := Expectation.nodup_distinct labels }

theorem ofSeverity_eq_ok_iff {severity : Severity} {message : String} {labels : List β}
    {observation : Observation} :
    ofSeverity severity message labels = .ok observation ↔
      observation.severity = severity ∧ observation.message = message ∧
        observation.expectations = Expectation.distinct labels ∧ observation.position = none := by
  unfold ofSeverity
  constructor
  · intro made
    split at made
    · exact absurd made (by simp)
    · obtain rfl := Except.ok.inj made
      exact ⟨rfl, rfl, rfl, rfl⟩
  · cases observation with
    | mk severity' message' expectations position message_not_blank expectations_nodup =>
        rintro ⟨rfl, rfl, rfl, rfl⟩
        simp [message_not_blank]

theorem ofSeverity_eq_error_iff (severity : Severity) (message : String) (labels : List β)
    {misuse : Misuse} :
    ofSeverity severity message labels = .error misuse ↔
      Blank.isBlankText message = true ∧ misuse = .emptyMessage := by
  unfold ofSeverity
  split
  next blank => simp [blank, eq_comm]
  next notBlank => simp [notBlank]

/-- What went wrong. -/
def error (message : String) (labels : List β) : Except Misuse Observation :=
  ofSeverity .error message labels

/-- What may be wrong. -/
def warning (message : String) (labels : List β) : Except Misuse Observation :=
  ofSeverity .warning message labels

/-- What is worth knowing. -/
def info (message : String) (labels : List β) : Except Misuse Observation :=
  ofSeverity .info message labels

/-- The same remark at another level. -/
def withSeverity (observation : Observation) (severity : Severity) : Observation :=
  { observation with severity }

/-- The same remark at a position of its own. -/
def pin (observation : Observation) (position : Nat) : Observation :=
  { observation with position := some position }

/-- Gives the remark the position of a remainder, unless it has one already. -/
def detach (observation : Observation) (remainder : Cursor α) : Observation :=
  match observation.position with
  | some _ => observation
  | none => observation.pin remainder.position

def isError (observation : Observation) : Bool :=
  decide (observation.severity = .error)

/-- Since no label is listed twice, one inclusion between lists of one length
makes them the same labels. -/
instance : BEq Observation where
  beq first second :=
    decide (first.severity = second.severity) && decide (first.message = second.message) &&
      decide (first.position = second.position) &&
      decide (first.expectations.length = second.expectations.length) &&
      first.expectations.all fun label => decide (label ∈ second.expectations)

/-! ## What the operations change -/

@[simp] theorem severity_withSeverity (observation : Observation) (severity : Severity) :
    (observation.withSeverity severity).severity = severity := rfl

@[simp] theorem message_withSeverity (observation : Observation) (severity : Severity) :
    (observation.withSeverity severity).message = observation.message := rfl

@[simp] theorem expectations_withSeverity (observation : Observation) (severity : Severity) :
    (observation.withSeverity severity).expectations = observation.expectations := rfl

@[simp] theorem position_withSeverity (observation : Observation) (severity : Severity) :
    (observation.withSeverity severity).position = observation.position := rfl

@[simp] theorem severity_pin (observation : Observation) (position : Nat) :
    (observation.pin position).severity = observation.severity := rfl

@[simp] theorem message_pin (observation : Observation) (position : Nat) :
    (observation.pin position).message = observation.message := rfl

@[simp] theorem expectations_pin (observation : Observation) (position : Nat) :
    (observation.pin position).expectations = observation.expectations := rfl

@[simp] theorem position_pin (observation : Observation) (position : Nat) :
    (observation.pin position).position = some position := rfl

@[simp] theorem severity_detach (observation : Observation) (remainder : Cursor α) :
    (observation.detach remainder).severity = observation.severity := by
  unfold detach
  split <;> rfl

@[simp] theorem message_detach (observation : Observation) (remainder : Cursor α) :
    (observation.detach remainder).message = observation.message := by
  unfold detach
  split <;> rfl

@[simp] theorem expectations_detach (observation : Observation) (remainder : Cursor α) :
    (observation.detach remainder).expectations = observation.expectations := by
  unfold detach
  split <;> rfl

@[simp] theorem position_detach (observation : Observation) (remainder : Cursor α) :
    (observation.detach remainder).position =
      some (observation.position.getD remainder.position) := by
  unfold detach
  split <;> simp_all

/-- Once an observation has a position, it is not moved. -/
theorem detach_detach (observation : Observation) (first second : Cursor α) :
    (observation.detach first).detach second = observation.detach first := by
  cases hposition : observation.position <;> simp [detach, hposition]

/-! ## Showing -/

/-- The short form: the message alone. -/
def display (observation : Observation) : String :=
  observation.message

/-- The long form: the message and what was expected. -/
def displayLong (observation : Observation) : String :=
  observation.message ++ Expectation.clause observation.expectations

end Observation

end ParseOutcome
