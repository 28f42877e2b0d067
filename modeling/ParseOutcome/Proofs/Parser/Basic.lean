import ParseOutcome.Grammar.Evaluation
import ParseOutcome.Proofs.Sample

/-!
# Parsers

A parser is put together from elementary steps, which are any functions from a
cursor to an outcome, by going on from outcomes, transforming values, adding
observations and repeating.  What a parser goes on with may hang on the whole
outcome it goes on from and on the cursor at which it began, so parsers are trees
that branch over outcomes.

Running a parser writes a log with one line for every elementary step that ran, in
the order of time.  A line is the standing of the step's outcome: all of it but the
value, whose type differs from step to step.

A computation that ends (`Ends`) has a result with a property, and so has what it
goes on with if that ends from there.
-/

namespace ParseOutcome

/-- What an outcome says besides its value. -/
structure Standing (α : Type) where
  hasValue : Bool
  remainder : Cursor α
  observations : List Observation

variable {α β γ σ T U : Type}

def Outcome.standing (outcome : Outcome α T) : Standing α :=
  ⟨outcome.hasValue, outcome.remainder, outcome.observations⟩

@[simp] theorem Outcome.standing_map (outcome : Outcome α T) (f : T → U) :
    (outcome.map f).standing = outcome.standing := by
  cases outcome <;> rfl

mutual

/-- A parser for values of a type.  After a success or a failure of `first`, `next`
is handed the cursor where `first` began and the whole outcome.  `many` runs its
parser at the last remainder, for as long as it succeeds and the test holds of where
it began and what it came to. -/
inductive Parser (α : Type) : Type → Type 1 where
  | step {T : Type} (elementary : Cursor α → Outcome α T) : Parser α T
  | onSuccess {T U : Type} (first : Parser α T)
      (next : Cursor α → Outcome α T → Sequel α T U) : Parser α U
  | onFailure {T : Type} (first : Parser α T)
      (next : Cursor α → Outcome α T → Sequel α T T) : Parser α T
  | map {T U : Type} (first : Parser α T) (f : T → U) : Parser α U
  | withObservation {T : Type} (first : Parser α T) (observation : Observation) : Parser α T
  | many {T : Type} (goesOn : Cursor α → Outcome α T → Bool) (parser : Parser α T) :
      Parser α (List T)

/-- What is done with an outcome that a parser goes on from: it is given back as it
is, or a parser runs at some cursor. -/
inductive Sequel (α : Type) : Type → Type → Type 1 where
  | same {T : Type} : Sequel α T T
  | parse {T U : Type} (parser : Parser α U) (place : Cursor α) : Sequel α T U

end

/-- A computation that writes the log, and may have no result. -/
abbrev Traced (α β : Type) : Type := StateT (List (Standing α)) Option β

mutual

/-- Runs a parser at a cursor, with at most `runs` runs of each parser that is
repeated; there is no result if they do not suffice. -/
def Parser.run {T : Type} (runs : Nat) : Parser α T → Cursor α → Traced α (Outcome α T)
  | .step elementary, start => do
      let outcome := elementary start
      modify fun earlier => earlier ++ [outcome.standing]
      return outcome
  | .onSuccess first next, start => do
      (← first.run runs start).onSuccessM fun reached => (next start reached).run runs reached
  | .onFailure first next, start => do
      (← first.run runs start).onFailureM fun reached => (next start reached).run runs reached
  | .map first f, start => do return (← first.run runs start).map f
  | .withObservation first observation, start => do
      return (← first.run runs start).withObservation observation
  | .many goesOn parser, start => do
      let (values, stop) ← liftM (← repeatWhile goesOn (parser.run runs) runs start)
      return .succeeded values stop []

def Sequel.run {T U : Type} (runs : Nat) : Sequel α T U → Outcome α T → Traced α (Outcome α U)
  | .same, reached => pure reached
  | .parse parser place, _ => parser.run runs place

end

/-- What a parser comes to at a cursor, and its log. -/
def Parser.result? (parser : Parser α T) (runs : Nat) (start : Cursor α) :
    Option (Outcome α T × List (Standing α)) :=
  StateT.run (parser.run runs start) []

/-! ## Computations that end -/

/-- From a state on, a computation has a result, and the property holds of it and of the state
after it. -/
def Ends (property : β → σ → Prop) (computation : StateT σ Option β) (state : σ) : Prop :=
  ∃ result after, computation.run state = some (result, after) ∧ property result after

theorem ends_pure {property : β → σ → Prop} {result : β} {state : σ}
    (holds : property result state) : Ends property (pure result) state :=
  ⟨result, state, rfl, holds⟩

theorem Ends.bind {property : β → σ → Prop} {property' : γ → σ → Prop}
    {computation : StateT σ Option β} {next : β → StateT σ Option γ} {state : σ}
    (hends : Ends property computation state)
    (hnext : ∀ result after, property result after → Ends property' (next result) after) :
    Ends property' (computation >>= next) state := by
  obtain ⟨reached, between, hrun, hreached⟩ := hends
  obtain ⟨result, after, hafter, hresult⟩ := hnext reached between hreached
  refine ⟨result, after, ?_, hresult⟩
  rw [StateT.run_bind, hrun]
  exact hafter

/-! ## A parser for examples -/

def takeDigit : Cursor UInt8 → Outcome UInt8 Value :=
  Terminal.take ⟨some [48, 49, 50, 51, 52, 53, 54, 55, 56, 57], []⟩ [Sample.no "digit"]
    [Sample.no "digit"]

def digit : Parser UInt8 Value :=
  .step takeDigit

/-- Takes a digit behind a minus, or else a digit where the minus was looked for. -/
def signedDigit : Parser UInt8 Value :=
  .onFailure
    (.map
      (.onSuccess (.step (Terminal.take ⟨some [45], []⟩ [] []))
        fun _ minus => .parse digit minus.remainder)
      fun value => .text ("-" ++ value.display))
    fun start _ => .parse digit start

end ParseOutcome
