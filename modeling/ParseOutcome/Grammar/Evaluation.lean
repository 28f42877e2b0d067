import ParseOutcome.Grammar.Step
import ParseOutcome.Observation.Furthest
import ParseOutcome.Outcome.Continuation
import ParseOutcome.Outcome.Repetition

/-!
# Running a grammar

A grammar gives names to steps, and a step may call any of them, itself included.
Running a step at a cursor gives an outcome and a log with one line for every step
that ended, inner ones before those they are part of.

`Step.run` is a recursion on the step; what a name stands for is a parameter.
`Grammar.call` ties the knot with a bound on how deep names may nest.  Nested calls
never begin before the calls around them, so there are only as many different ones
as names times positions that are left.  `Grammar.run` allows for that depth.  A
step that has a result at any depth has it there (`Grammar.result?_run_eq_some_iff`
in `Proofs/Grammar/Depth.lean`); one that has none would run without end.
-/

namespace ParseOutcome

/-- A computation that writes the log, latest line first, and may run without
end, in which case it has no result. -/
abbrev Run (β : Type) : Type := StateT (List Visit) Option β

variable {α : Type}

/-- What a computation comes to, and its log, in the order of time. -/
def Run.result? {β : Type} (run : Run β) : Option (β × List Visit) :=
  (StateT.run run []).map fun result => (result.1, result.2.reverse)

/-- Runs `body` for a step that begins at `start`, and logs what it came to. -/
def Run.logged (kind : StepKind) (start : Cursor α) (body : Run (Outcome α Value)) :
    Run (Outcome α Value) := do
  let outcome ← body
  modify fun visits =>
    { kind
      start := start.position
      hasValue := outcome.hasValue
      stop := outcome.remainder.position
      observationCount := outcome.observations.length } :: visits
  return outcome

namespace Outcome

/-- The text of the value, empty if there is none. -/
def text (outcome : Outcome α Value) : String :=
  (outcome.value?.map Value.display).getD ""

/-- The outcome of two steps in a row: the later, with the text of the earlier in
front and, if they are kept, the notices of the earlier at the end. -/
def joined (keep : Bool) (earlier later : Outcome α Value) : Outcome α Value :=
  let result := later.map fun value => .text (earlier.text ++ value.display)
  if keep then earlier.observations.foldl withObservation result else result

end Outcome

/-- What a failed choice reports, given the observations of all its
alternatives. -/
def Merge.conclude {T : Type} (merge : Merge) (attempts : List Observation)
    (failure : Outcome α T) : Outcome α T :=
  match merge with
  | .last => failure
  | .furthest =>
      .failed failure.remainder ((Observation.furthest? attempts).map Prod.fst).toList
  | .all => .failed failure.remainder attempts

variable [DecidableEq α] [Symbol α]

/-- Takes the symbol at the cursor if it is of the class. -/
def Terminal.take (terminal : Terminal α) (unaccepted atEnd : List Observation)
    (start : Cursor α) : Outcome α Value :=
  match start.value? with
  | none => .failed start atEnd
  | some symbol =>
      if terminal.accepts symbol then .succeeded (.text (Symbol.render [symbol])) start.next []
      else .failed start unaccepted

mutual

/-- Runs a step at a cursor; `call` runs what a name stands for. -/
def Step.run (call : String → Cursor α → Run (Outcome α Value)) :
    Step α → Cursor α → Run (Outcome α Value)
  | .succeed value count observations, start =>
      Run.logged .succeed start (pure (.succeeded value (start.advance count) observations))
  | .fail count observations, start =>
      Run.logged .fail start (pure (.failed (start.advance count) observations))
  | .symbol terminal unaccepted atEnd, start =>
      Run.logged .symbol start (pure (terminal.take unaccepted atEnd start))
  | .finish observations, start =>
      Run.logged .finish start
        (pure (if start.atEnd then .succeeded (.truth true) start observations
          else .failed start observations))
  | .sequence keep steps, start =>
      Run.logged .sequence start
        (Step.runSequence call keep steps (.succeeded (.text "") start []))
  | .choice merge steps, start =>
      Run.logged .choice start (Step.runChoice call merge steps start [] (.failed start []))
  | .many step, start =>
      Run.logged .many start do
        let (values, stop) ← liftM (← repeatFrom (Step.run call step) start)
        return .succeeded (.text (String.join (values.map Value.display))) stop []
  | .map step transform, start =>
      Run.logged .map start do
        return (← Step.run call step start).map transform.apply
  | .note step observation, start =>
      Run.logged .note start do
        return (← Step.run call step start).withObservation observation
  | .andThen first second, start =>
      Run.logged .andThen start do
        (← Step.run call first start).onSuccessM fun reached =>
          Step.run call second reached.remainder
  | .recover first second, start =>
      Run.logged .recover start do
        (← Step.run call first start).onFailureM fun reached =>
          Step.run call second reached.remainder
  | .rule name, start => Run.logged .rule start (call name start)

/-- Runs the steps of a sequence after what has been reached so far. -/
def Step.runSequence (call : String → Cursor α → Run (Outcome α Value)) (keep : Bool) :
    List (Step α) → Outcome α Value → Run (Outcome α Value)
  | [], reached => pure reached
  | step :: rest, reached => do
      let outcome ← reached.onSuccessM fun earlier => do
        return earlier.joined keep (← Step.run call step earlier.remainder)
      Step.runSequence call keep rest outcome

/-- Runs the alternatives of a choice after one that failed, where `attempts` is
what was observed so far. -/
def Step.runChoice (call : String → Cursor α → Run (Outcome α Value)) (merge : Merge) :
    List (Step α) → Cursor α → List Observation → Outcome α Value → Run (Outcome α Value)
  | [], _, attempts, reached => pure (reached.onFailure (merge.conclude attempts))
  | step :: rest, start, attempts, reached =>
      reached.onFailureM fun _ => do
        let outcome ← Step.run call step start
        Step.runChoice call merge rest start (attempts ++ outcome.detached) outcome

end

/-- Steps by name. -/
structure Grammar (α : Type) where
  rules : List (String × Step α)

namespace Grammar

/-- Runs what a name stands for, with calls nested at most `depth` deep.  A name
that stands for nothing fails where it is called. -/
def call (grammar : Grammar α) : Nat → String → Cursor α → Run (Outcome α Value)
  | 0, _, _ => failure
  | depth + 1, name, start =>
      match grammar.rules.lookup name with
      | none => pure (.failed start [])
      | some step => step.run (grammar.call depth) start

/-- How deep calls may nest at a cursor before they must repeat themselves. -/
def depth (grammar : Grammar α) (start : Cursor α) : Nat :=
  grammar.rules.length * (start.remaining + 1) + 1

/-- Runs a step at a cursor. -/
def run (grammar : Grammar α) (step : Step α) (start : Cursor α) : Run (Outcome α Value) :=
  step.run (grammar.call (grammar.depth start)) start

end Grammar

end ParseOutcome
