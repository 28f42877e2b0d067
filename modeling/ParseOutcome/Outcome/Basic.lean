import ParseOutcome.Observation.Basic

/-!
# Outcomes

What one step of a parse comes to: a value and the cursor past whatever was
consumed, or no value and the cursor at which the step gave up.  Either carries
observations: notices with a value, reasons without one.

To fail is not a misuse.  To ask for the value of an outcome that failed is; look
first (`hasValue`), or take what there is (`value?`).
-/

namespace ParseOutcome

/-- The result of one parsing step. -/
inductive Outcome (α T : Type) where
  /-- A value, and the cursor past what was consumed for it. -/
  | succeeded (value : T) (remainder : Cursor α) (observations : List Observation)
  /-- No value, and the cursor at which the step gave up. -/
  | failed (remainder : Cursor α) (observations : List Observation)

namespace Outcome

variable {α T : Type}

def hasValue : Outcome α T → Bool
  | succeeded .. => true
  | failed .. => false

/-- The value, if there is one. -/
def value? : Outcome α T → Option T
  | succeeded value _ _ => some value
  | failed .. => none

/-- The value, which it is a misuse to ask for after a failure. -/
def value : Outcome α T → Except Misuse T
  | succeeded value _ _ => .ok value
  | failed .. => .error .noValue

/-- The cursor past what was consumed, or the one at the point of failure. -/
def remainder : Outcome α T → Cursor α
  | succeeded _ remainder _ => remainder
  | failed remainder _ => remainder

def observations : Outcome α T → List Observation
  | succeeded _ _ observations => observations
  | failed _ observations => observations

/-- The observations that are errors. -/
def errors (outcome : Outcome α T) : List Observation :=
  outcome.observations.filter Observation.isError

/-- The observations, each with a position of its own: the one it had, or else
that of the remainder. -/
def detached (outcome : Outcome α T) : List Observation :=
  outcome.observations.map fun observation => observation.detach outcome.remainder

/-- The same outcome with one more observation, after the others. -/
def withObservation (outcome : Outcome α T) (observation : Observation) : Outcome α T :=
  match outcome with
  | succeeded value remainder observations =>
      succeeded value remainder (observations ++ [observation])
  | failed remainder observations => failed remainder (observations ++ [observation])

theorem eq_failed_of_hasValue {outcome : Outcome α T} (failed : outcome.hasValue = false) :
    outcome = .failed outcome.remainder outcome.observations := by
  cases outcome with
  | succeeded value remainder observations => exact absurd failed (by simp [hasValue])
  | failed remainder observations => rfl

/-! ## What one more observation changes -/

@[simp] theorem value?_withObservation (outcome : Outcome α T) (observation : Observation) :
    (outcome.withObservation observation).value? = outcome.value? := by
  cases outcome <;> rfl

@[simp] theorem remainder_withObservation (outcome : Outcome α T) (observation : Observation) :
    (outcome.withObservation observation).remainder = outcome.remainder := by
  cases outcome <;> rfl

@[simp] theorem observations_withObservation (outcome : Outcome α T)
    (observation : Observation) :
    (outcome.withObservation observation).observations =
      outcome.observations ++ [observation] := by
  cases outcome <;> rfl

/-! ## Sameness -/

/-- Outcomes are the same when both succeeded or both failed, with the same value,
at the same cursor, and with the same observations in the same order. -/
instance [DecidableEq α] [BEq T] : BEq (Outcome α T) where
  beq
    | succeeded value remainder observations, succeeded value' remainder' observations' =>
        value == value' && decide (remainder = remainder') && observations == observations'
    | failed remainder observations, failed remainder' observations' =>
        decide (remainder = remainder') && observations == observations'
    | succeeded .., failed .. => false
    | failed .., succeeded .. => false

end Outcome

end ParseOutcome
