import ParseOutcome.Proofs.Parser.Forward

/-!
# Repetitions that end

A step may be repeated only so often if every run that is followed by another takes the cursor
some way on in its source, since it then has less of the source before it.  This is so whatever
the step does on the side, and whatever the test is that lets it go on.

What remains of the source is the measure: less of it remains after a step on
(`Cursor.Before.remaining_lt`), so fewer runs have to be allowed for from there.
-/

namespace ParseOutcome

variable {α σ T : Type}

/-! ## Getting on -/

namespace Cursor

/-- Both cursors are over one source, and the second is after the first. -/
structure Before (start stop : Cursor α) : Prop where
  source_eq : stop.source = start.source
  position_lt : start.position < stop.position

variable {start stop : Cursor α}

/-- **Less remains after a step on.** -/
theorem Before.remaining_lt (hbefore : start.Before stop) : stop.remaining < start.remaining := by
  have hlt := hbefore.position_lt
  have hle := stop.position_le_length
  unfold remaining
  rw [hbefore.source_eq] at hle ⊢
  omega

theorem Precedes.before_of_ne (hahead : start.Precedes stop) (hne : stop ≠ start) :
    start.Before stop := by
  refine ⟨hahead.source_eq, Nat.lt_of_le_of_ne hahead.position_le ?_⟩
  intro hposition
  exact hne (eq_iff.mpr ⟨hahead.source_eq, hposition.symm⟩)

/-- To advance is to get on where there is a symbol to see, and only there. -/
theorem before_advance (hvalue : start.value? ≠ none) {count : Nat} (hcount : 1 ≤ count) :
    start.Before (start.advance count) := by
  refine ⟨rfl, ?_⟩
  have hwithin := start.position_le_length
  have hmore := mt value?_eq_none_iff.mpr hvalue
  rw [position_advance]
  omega

theorem advance_of_atEnd (hend : start.atEnd = true) (count : Nat) :
    start.advance count = start := by
  have hposition := atEnd_iff.mp hend
  refine eq_iff.mpr ⟨rfl, ?_⟩
  rw [position_advance]
  omega

end Cursor

/-! ## Repetition -/

/-- **A repetition ends** if every run that is followed by another gets on.  It then succeeds at
most as often as there are symbols left, and one run more decides that it is over.  What a run
costs may be anything that is counted along with the state, such as the lines of a log. -/
theorem ends_repeatWhile {goesOn : Cursor α → Outcome α T → Bool}
    {step : Cursor α → StateT σ Option (Outcome α T)} {cost : σ → Nat} {source : Source α}
    (hstep : ∀ place, place.source = source → ∀ state,
      Ends (fun outcome after => cost after ≤ cost state + 1 ∧
        (outcome.hasValue = true → goesOn place outcome = true →
          place.Before outcome.remainder)) (step place) state)
    {runs : Nat} {start : Cursor α} (hsource : start.source = source)
    (hruns : start.remaining < runs) (state : σ) :
    Ends (fun result? after => ∃ values stop, result? = some (values, stop) ∧
        values.length ≤ start.remaining ∧ cost after ≤ cost state + values.length + 1)
      (repeatWhile goesOn step runs start) state := by
  induction runs generalizing start state with
  | zero => exact absurd hruns (Nat.not_lt_zero _)
  | succ runs ih =>
      refine (hstep start hsource state).bind fun outcome between hrun => ?_
      obtain ⟨hcost, hgetsOn⟩ := hrun
      cases outcome with
      | failed remainder observations =>
          exact ends_pure ⟨[], start, rfl, Nat.zero_le _, hcost⟩
      | succeeded value remainder observations =>
          dsimp only
          split
          next hgoesOn =>
            -- one run fewer is allowed from here on, and at least one symbol fewer is left
            have hbefore : start.Before remainder := hgetsOn rfl hgoesOn
            have hless := hbefore.remaining_lt
            have hsource' : remainder.source = source := hbefore.source_eq.trans hsource
            refine (ih hsource' (by omega) between).bind fun result? after hrest => ?_
            obtain ⟨values, stop, rfl, hvalues, hcosts⟩ := hrest
            apply ends_pure
            refine ⟨value :: values, stop, rfl, ?_, ?_⟩
            · rw [List.length_cons]
              omega
            · rw [List.length_cons]
              omega
          next hstops =>
            exact ends_pure ⟨[], start, rfl, Nat.zero_le _, hcost⟩

end ParseOutcome
