import ParseOutcome.Outcome.Basic
import ParseOutcome.Source.Context

/-!
# Showing an outcome

The short form tells the value, or what was read just before the point of
failure, and then the message of every observation.  The report adds where the
remainder stands and the lines around it.
-/

namespace ParseOutcome.Outcome

variable {α T : Type} [Symbol α]

/-- How many symbols before the remainder are shown at most. -/
def window : Nat := 10

/-- The last symbols before the remainder. -/
def recentlyConsumed (outcome : Outcome α T) : String :=
  Symbol.render
    (outcome.remainder.slice (outcome.remainder.position - window) outcome.remainder.position)

/-- What the outcome came to, in one sentence or two. -/
def headline [ToString T] (outcome : Outcome α T) : String :=
  match outcome.value? with
  | some value => "Successfully parsed value: " ++ toString value ++ "."
  | none => "Parsing failure. Recently consumed: '" ++ outcome.recentlyConsumed ++ "'."

/-- The short form: the headline, and each message on a line of its own. -/
def display [ToString T] (outcome : Outcome α T) : String :=
  outcome.headline ++
    String.join (outcome.observations.map fun observation => "\n" ++ observation.display)

variable [DecidableEq α]

/-- The location of the remainder. -/
def location (outcome : Outcome α T) : Location :=
  outcome.remainder.location

/-- The lines around the remainder. -/
def context (outcome : Outcome α T) : List String :=
  Context.rows outcome.remainder.source.symbols outcome.remainder.position

/-- The long form: the short form, the location of the remainder, and the lines
around it. -/
def report [ToString T] (outcome : Outcome α T) : String :=
  outcome.display ++ "\n\nat " ++ outcome.location.display ++ ":\n" ++
    "\n".intercalate outcome.context

end ParseOutcome.Outcome
