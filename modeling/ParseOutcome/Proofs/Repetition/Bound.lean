import ParseOutcome.Proofs.Repetition.Guarded

/-!
# How often a step is repeated

A step that never goes back runs at most once more than there are symbols left, if it is repeated
until it fails or stays where it is: every run but the last leaves fewer symbols.  A step that
takes a symbol whenever it succeeds may be repeated until it fails, without a look at where it
is.  It is the symbol it takes that makes the repetition end, since at the end of the source to
advance is to stay.

A step notes the places where it runs, so the runs of a repetition may be counted whatever number
of them it is allowed (`ends_repeatWhile_noted`).  `repeatFrom` allows for the least number that
always suffices.  Successes in a row are bounded with no repetition around them at all
(`SucceedsInARow.le_remaining`).
-/

namespace ParseOutcome

variable {α T : Type}

/-- Runs a step, and notes where. -/
def noted (step : Cursor α → Outcome α T) (place : Cursor α) :
    StateT (List (Cursor α)) Option (Outcome α T) := do
  modify fun earlier => earlier ++ [place]
  return step place

/-- Whether a step succeeds so many times in a row, each time at the last remainder. -/
def SucceedsInARow (step : Cursor α → Outcome α T) : Nat → Cursor α → Prop
  | 0, _ => True
  | count + 1, start =>
      (step start).hasValue = true ∧ SucceedsInARow step count (step start).remainder

/-- Whether a step succeeds only where there is a symbol to see, and then ends some places on. -/
def TakesOnSuccess (step : Cursor α → Outcome α T) : Prop :=
  ∀ place, (step place).hasValue = true →
    place.value? ≠ none ∧ ∃ count, 1 ≤ count ∧ (step place).remainder = place.advance count

variable {step : Cursor α → Outcome α T} {start : Cursor α}

theorem TakesOnSuccess.before (htakes : TakesOnSuccess step)
    (hsucceeds : (step start).hasValue = true) : start.Before (step start).remainder := by
  obtain ⟨hvalue, count, hcount, hremainder⟩ := htakes start hsucceeds
  rw [hremainder]
  exact Cursor.before_advance hvalue hcount

/-- To take a symbol of a class is to take a symbol. -/
theorem Terminal.takesOnSuccess_take [DecidableEq α] [Symbol α] (terminal : Terminal α)
    (unaccepted atEnd : List Observation) :
    TakesOnSuccess (terminal.take unaccepted atEnd) := by
  intro place hsucceeds
  unfold Terminal.take at hsucceeds ⊢
  split at hsucceeds
  next hvalue => exact absurd hsucceeds (by simp [Outcome.hasValue])
  next symbol hvalue =>
    split at hsucceeds
    next haccepts =>
      refine ⟨by simp [hvalue], 1, Nat.le_refl 1, ?_⟩
      simp [haccepts, Outcome.remainder, Cursor.next]
    next => exact absurd hsucceeds (by simp [Outcome.hasValue])

/-! ## Counting -/

/-- **The runs of a repetition, counted.** -/
theorem ends_repeatWhile_noted {goesOn : Cursor α → Outcome α T → Bool}
    (hgetsOn : ∀ place, (step place).hasValue = true → goesOn place (step place) = true →
      place.Before (step place).remainder)
    {runs : Nat} (hruns : start.remaining < runs) :
    ∃ values stop places,
      (repeatWhile goesOn (noted step) runs start).run [] =
          some (some (values, stop), places) ∧
        values.length ≤ start.remaining ∧ places.length ≤ values.length + 1 := by
  have hstep : ∀ place, place.source = start.source → ∀ places : List (Cursor α),
      Ends (fun outcome after => after.length ≤ places.length + 1 ∧
        (outcome.hasValue = true → goesOn place outcome = true →
          place.Before outcome.remainder)) (noted step place) places := by
    intro place _ places
    exact ⟨step place, places ++ [place], rfl, by simp, hgetsOn place⟩
  obtain ⟨result?, places, hrun, values, stop, rfl, hvalues, hplaces⟩ :=
    ends_repeatWhile hstep rfl hruns []
  refine ⟨values, stop, places, hrun, hvalues, ?_⟩
  rwa [List.length_nil, Nat.zero_add] at hplaces

theorem SucceedsInARow.le_remaining (htakes : TakesOnSuccess step) {count : Nat}
    (hrow : SucceedsInARow step count start) : count ≤ start.remaining := by
  induction count generalizing start with
  | zero => exact Nat.zero_le _
  | succ count ih =>
      obtain ⟨hsucceeds, hrest⟩ := hrow
      have hless := (htakes.before hsucceeds).remaining_lt
      have hle := ih hrest
      omega

/-- **Repetition ends.**  A step that never leaves its source and never goes back is repeated at
most once more than there are symbols left, however many runs the repetition is allowed beyond
that number, and every forward parser with guarded repetitions is such a step.  A step that takes
a symbol whenever it succeeds can do so as often in a row as there are symbols left, so it may
be repeated until it fails; and this is not for want of a place to advance to, since the end of
the source is where an advance from it leads. -/
theorem repetition_ends [DecidableEq α] :
    (∀ step : Cursor α → Outcome α T, (∀ place : Cursor α, place.Precedes (step place).remainder) →
        ∀ (start : Cursor α) (runs : Nat), start.remaining < runs →
          ∃ values stop places,
            (repeatWhile Outcome.moved (noted step) runs start).run [] =
                some (some (values, stop), places) ∧
              places.length ≤ start.source.length - start.position + 1) ∧
      (∀ parser : Parser α T, parser.Forward → parser.Guarded →
        ∃ step : Cursor α → Outcome α T, ∀ place : Cursor α,
          (∃ log, parser.Finishes place (step place) log) ∧
            place.Precedes (step place).remainder) ∧
      (∀ step : Cursor α → Outcome α T, TakesOnSuccess step → ∀ start : Cursor α,
        (∀ count, SucceedsInARow step count start →
          count ≤ start.source.length - start.position) ∧
        ∀ runs : Nat, start.remaining < runs →
          ∃ values stop places,
            (repeatWhile (fun _ _ => true) (noted step) runs start).run [] =
                some (some (values, stop), places) ∧
              values.length ≤ start.source.length - start.position ∧
              places.length ≤ values.length + 1) ∧
      ∀ place : Cursor α, place.atEnd = true → ∀ count, place.advance count = place := by
  refine ⟨?_, ?_, ?_, ?_⟩
  · -- the test asks for movement, and the step does not go back
    intro step hahead start runs hruns
    have hgetsOn : ∀ place, (step place).hasValue = true →
        Outcome.moved place (step place) = true → place.Before (step place).remainder := by
      intro place _ hmoved
      exact (hahead place).before_of_ne (of_decide_eq_true hmoved)
    obtain ⟨values, stop, places, hrun, hvalues, hplaces⟩ := ends_repeatWhile_noted hgetsOn hruns
    exact ⟨values, stop, places, hrun, Nat.le_trans hplaces (Nat.succ_le_succ hvalues)⟩
  · intro parser forward guarded
    exact parser.exists_step forward guarded
  · -- there is no test, but a success has taken a symbol
    intro step htakes start
    refine ⟨fun count hrow => hrow.le_remaining htakes, ?_⟩
    intro runs hruns
    have hgetsOn : ∀ place, (step place).hasValue = true → true = true →
        place.Before (step place).remainder := by
      intro place hsucceeds _
      exact htakes.before hsucceeds
    exact ends_repeatWhile_noted hgetsOn hruns
  · intro place hend count
    exact Cursor.advance_of_atEnd hend count

/-- Takes a digit, and then digits until there is none. -/
def number : Parser UInt8 (List Value) :=
  .onSuccess digit fun _ first => .parse (.many (fun _ _ => true) digit) first.remainder

/-- The beginning of `12x`. -/
def atDigits : Cursor UInt8 :=
  Cursor.origin (Source.ofBuffer 0 [49, 50, 120])

/-- To take a digit may be repeated until it fails, and in `12x` it succeeds three times at most.
A number, which is such a repetition, is a step that may be repeated in its turn. -/
theorem repetition_of_digits_ends :
    TakesOnSuccess takeDigit ∧
      (∃ values stop places,
        (repeatWhile (fun _ _ => true) (noted takeDigit) 9 atDigits).run [] =
            some (some (values, stop), places) ∧
          values.length ≤ 3 ∧ places.length ≤ values.length + 1) ∧
      number.Forward ∧ number.Guarded ∧
      ∃ step : Cursor UInt8 → Outcome UInt8 (List Value),
        (∀ place : Cursor UInt8, place.Precedes (step place).remainder) ∧
        ∃ values stop places,
          (repeatWhile Outcome.moved (noted step) 9 atDigits).run [] =
              some (some (values, stop), places) ∧
            places.length ≤ 4 := by
  have htakes : TakesOnSuccess takeDigit := Terminal.takesOnSuccess_take _ _ _
  have forward : number.Forward := by
    simp [number, digit, takeDigit, Parser.Forward, Sequel.Forward, Terminal.reaches_take]
  have guarded : number.Guarded := by
    have hleaves := Parser.leaves_step (fun place hsucceeds => htakes.before hsucceeds)
      (fun _ _ => true)
    exact ⟨trivial, fun _ _ => ⟨hleaves, trivial⟩⟩
  obtain ⟨-, -, hunguarded, -⟩ := @repetition_ends UInt8 Value _
  obtain ⟨hguarded, hparsers, -, -⟩ := @repetition_ends UInt8 (List Value) _
  obtain ⟨step, hstep⟩ := hparsers number forward guarded
  have hahead : ∀ place : Cursor UInt8, place.Precedes (step place).remainder := by
    intro place
    exact (hstep place).2
  exact ⟨htakes, (hunguarded takeDigit htakes atDigits).2 9 (by decide), forward, guarded, step,
    hahead, hguarded step hahead atDigits 9 (by decide)⟩

end ParseOutcome
