/-!
# Misuse

The ways to call this library wrongly.  A parse that fails is not among them: it
is an `Outcome` like any other, and carries its own explanation.
-/

namespace ParseOutcome

/-- A call that asks for something that cannot be: an observation with nothing to
say, a cursor beyond the end of its source, or the value of an outcome that
failed. -/
inductive Misuse where
  | emptyMessage
  | positionOutOfBounds (position length : Nat)
  | noValue
deriving DecidableEq

/-- The text by which a misuse is reported. -/
def Misuse.message : Misuse → String
  | .emptyMessage => "you must provide a message"
  | .positionOutOfBounds position length =>
      "position " ++ toString position ++ " is out of bounds for a source of length " ++
        toString length
  | .noValue => "No value can be computed."

end ParseOutcome
