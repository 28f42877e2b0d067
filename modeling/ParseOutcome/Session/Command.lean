import ParseOutcome.Grammar.Evaluation

/-!
# Commands and answers

A session is a script of commands over named cursors, observations and outcomes.
This module says what a command may ask for and what may be answered.
-/

namespace ParseOutcome

/-- What a continuation does with the outcome it is handed: it gives it back as it
is, or runs a step at its remainder. -/
inductive Continuation (α : Type) where
  | same
  | step (step : Step α)

/-- A command.  Names stand for what earlier commands have kept; `keep` is the name
under which a command keeps what it makes.  Where an observation, a step or a
continuation has to be made first, the command holds what came of that.  Asking for
the `value` of an outcome that failed is a misuse; `valueIfAny` asks for it if there
is one. -/
inductive Command (α : Type) where
  | origin (source : Nat) (keep : String)
  | place (source position : Nat) (keep : String)
  | advance (cursor : String) (count : Nat) (keep : String)
  | next (cursor keep : String)
  | lookAt (cursor : String)
  | slice (cursor : String) (start stop : Nat)
  | equalCursors (first second : String)
  | observe (made : Except Misuse Observation) (keep : String)
  | withSeverity (observation : String) (severity : Severity) (keep : String)
  | pin (observation : String) (position : Nat) (keep : String)
  | detach (observation cursor keep : String)
  | equalObservations (first second : String)
  | furthest (observations : List String)
  | succeed (value : Value) (cursor : String) (observations : List String) (keep : String)
  | fail (cursor : String) (observations : List String) (keep : String)
  | onSuccess (outcome : String) (next : Except Misuse (Continuation α)) (keep : String)
  | onFailure (outcome : String) (next : Except Misuse (Continuation α)) (keep : String)
  | map (outcome : String) (transform : Value.Transform) (keep : String)
  | withObservation (outcome observation keep : String)
  | parse (cursor : String) (step : Except Misuse (Step α)) (keep : String)
  | value (outcome : String)
  | valueIfAny (outcome : String)
  | inspect (outcome : String)
  | remainder (outcome keep : String)
  | equalOutcomes (first second : String)

/-- What a command comes to. -/
inductive Answer (α : Type) where
  | cursor (cursor : Cursor α)
  | symbols (symbols : List α)
  | observation (observation : Observation)
  | furthest (found : Option (Observation × Nat))
  | equal (holds : Bool)
  | outcome (outcome : Outcome α Value)
  /-- The outcomes the continuation was handed, the log of what it ran, and the
  result. -/
  | continued (handed : List (Outcome α Value)) (visits : List Visit)
      (result : Outcome α Value)
  /-- How often the transformation was applied, and the result. -/
  | mapped (calls : Nat) (result : Outcome α Value)
  | parsed (visits : List Visit) (result : Outcome α Value)
  | value (value : Option Value)
  | inspected (outcome : Outcome α Value)

/-- Why a command has no answer. -/
inductive Fault where
  /-- A name under which nothing is kept. -/
  | unset
  /-- A source that the session does not have. -/
  | noSource
  /-- A step that would run without end. -/
  | endless
  | misuse (misuse : Misuse)
deriving DecidableEq

/-- The text by which a fault is reported. -/
def Fault.message : Fault → String
  | unset => "no such register"
  | noSource => "no such source"
  | endless => "the step does not end"
  | misuse cause => cause.message

end ParseOutcome
