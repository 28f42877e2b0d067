import ParseOutcome.Grammar.Value
import ParseOutcome.Outcome.Basic

/-!
# Steps

The steps that a grammar is written in: the elementary ones, which look at the
cursor and succeed or fail, and those that put others together.
-/

namespace ParseOutcome

/-- A class of symbols: those wanted, or all where nothing is said, except those
unwanted. -/
structure Terminal (α : Type) where
  wanted : Option (List α)
  unwanted : List α

def Terminal.accepts {α : Type} [DecidableEq α] (terminal : Terminal α) (symbol : α) : Bool :=
  (terminal.wanted.all fun wanted => decide (symbol ∈ wanted)) &&
    decide (symbol ∉ terminal.unwanted)

/-- What a choice between alternatives reports when all have failed: what the last
one reported, the one observation that came furthest, or all of them. -/
inductive Merge where
  | last
  | furthest
  | all
deriving DecidableEq

/-- A step of a parse over symbols of a kind.  `succeed` and `fail` end some symbols
further on, `symbol` takes one symbol of a class, and `finish` succeeds at the end
of the source only.  A sequence joins the texts of its values, and keeps the notices
of earlier steps if told so; a choice tries each of its steps at the same cursor;
`many` joins texts for as long as its step moves on.  `andThen` runs its second step
at the remainder of a success, `recover` at that of a failure. -/
inductive Step (α : Type) where
  | succeed (value : Value) (count : Nat) (observations : List Observation)
  | fail (count : Nat) (observations : List Observation)
  | symbol (terminal : Terminal α) (unaccepted atEnd : List Observation)
  | finish (observations : List Observation)
  | sequence (keep : Bool) (steps : List (Step α))
  | choice (merge : Merge) (steps : List (Step α))
  | many (step : Step α)
  | map (step : Step α) (transform : Value.Transform)
  | note (step : Step α) (observation : Observation)
  | andThen (first second : Step α)
  | recover (first second : Step α)
  | rule (name : String)

inductive StepKind where
  | succeed | fail | symbol | finish | sequence | choice | many | map | note | andThen | recover
  | rule
deriving DecidableEq

/-- One line of the log of a parse: the step that ended, the position where it
began, and what it came to. -/
structure Visit where
  kind : StepKind
  start : Nat
  hasValue : Bool
  stop : Nat
  observationCount : Nat
deriving DecidableEq

end ParseOutcome
