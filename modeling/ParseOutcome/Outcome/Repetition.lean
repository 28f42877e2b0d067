import ParseOutcome.Outcome.Basic

/-!
# Repeating a step

A step is run again and again, each time at the last remainder, until it fails or
a test on where it began and what it came to says to stop.  That last outcome is
dropped; the values before it are kept in order.

The usual test is whether the cursor has moved.  A step that never moves backward
and never leaves its source can move at most as often as there are symbols left,
so one run more than that is allowed for (`repeatFrom`).  Only a step that goes
back or changes the source can use them up, and then there is no result.
-/

namespace ParseOutcome

variable {α T : Type} {m : Type → Type}

/-- Repeats a step with at most `runs` runs, for as long as it succeeds and the
test `goesOn` holds of where it began and what it came to: the values, and the
cursor after the last of them; none if the runs do not suffice. -/
def repeatWhile [Monad m] (goesOn : Cursor α → Outcome α T → Bool)
    (step : Cursor α → m (Outcome α T)) : Nat → Cursor α → m (Option (List T × Cursor α))
  | 0, _ => pure none
  | runs + 1, start => do
      let outcome ← step start
      match outcome with
      | .failed .. => pure (some ([], start))
      | .succeeded value remainder _ =>
          if goesOn start outcome then do
            let result? ← repeatWhile goesOn step runs remainder
            pure (result?.map fun result => (value :: result.1, result.2))
          else pure (some ([], start))

/-- Whether a step that began at `start` has moved the cursor. -/
def Outcome.moved [DecidableEq α] (start : Cursor α) (outcome : Outcome α T) : Bool :=
  decide (outcome.remainder ≠ start)

/-- Repeats a step for as long as it moves on. -/
def repeatFrom [DecidableEq α] [Monad m] (step : Cursor α → m (Outcome α T))
    (start : Cursor α) : m (Option (List T × Cursor α)) :=
  repeatWhile Outcome.moved step (start.remaining + 1) start

end ParseOutcome
