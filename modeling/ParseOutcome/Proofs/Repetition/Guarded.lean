import Mathlib.Tactic.Choose
import ParseOutcome.Proofs.Repetition.Basic

/-!
# Parsers that always end

A repetition is guarded if it goes on only after its parser has left the place where it began,
be it that the test asks for that or that the parser never succeeds without.  A forward parser
whose repetitions are all guarded ends wherever it begins, however deep its repetitions nest.
So it is a step itself, a function from cursors to outcomes, which may be repeated in its turn.

No place of the source has more symbols before it than the source has in all.  So one number of
runs serves for every repetition of the parser (`Parser.ends_run`), and from there on the number
may be forgotten (`Parser.exists_step`).
-/

namespace ParseOutcome

variable {α T : Type}

/-- Whether a parser has left the place where it began whenever it succeeds and passes a test. -/
def Parser.Leaves (goesOn : Cursor α → Outcome α T → Bool) (parser : Parser α T) : Prop :=
  ∀ (runs : Nat) (place : Cursor α),
    Traced.Always (fun outcome => outcome.hasValue = true → goesOn place outcome = true →
      outcome.remainder ≠ place) (parser.run runs place)

mutual

/-- Whether every repetition goes on only from another place than that where it began. -/
def Parser.Guarded {T : Type} : Parser α T → Prop
  | .step _ => True
  | .onSuccess first next => first.Guarded ∧ ∀ start reached, (next start reached).Guarded
  | .onFailure first next => first.Guarded ∧ ∀ start reached, (next start reached).Guarded
  | .map first _ => first.Guarded
  | .withObservation first _ => first.Guarded
  | .many goesOn parser => parser.Leaves goesOn ∧ parser.Guarded

def Sequel.Guarded {T U : Type} : Sequel α T U → Prop
  | .same => True
  | .parse parser _ => parser.Guarded

end

/-! ## Two guards -/

/-- A test for movement is a guard, whatever the parser. -/
theorem Parser.leaves_moved [DecidableEq α] (parser : Parser α T) :
    parser.Leaves Outcome.moved := by
  intro runs place log outcome after _ _ hmoved
  exact of_decide_eq_true hmoved

/-- An elementary step that never succeeds where it stands is a guard, whatever the test. -/
theorem Parser.leaves_step {elementary : Cursor α → Outcome α T}
    (hleaves : ∀ place, (elementary place).hasValue = true →
      place.Before (elementary place).remainder)
    (goesOn : Cursor α → Outcome α T → Bool) : (Parser.step elementary).Leaves goesOn := by
  intro runs place log outcome after hrun hsucceeds _ hstays
  obtain ⟨rfl, -⟩ := Prod.mk.inj (Option.some.inj hrun)
  have hlt := (hleaves place hsucceeds).position_lt
  rw [hstays] at hlt
  exact Nat.lt_irrefl _ hlt

/-! ## Every run ends -/

variable {source : Source α} {runs : Nat}

mutual

/-- **A guarded forward parser ends** with as many runs as there are places in the source. -/
theorem Parser.ends_run {T : Type} (hruns : source.length < runs) :
    ∀ (parser : Parser α T), parser.Forward → parser.Guarded →
      ∀ (start : Cursor α), start.source = source → ∀ log : List (Standing α),
        Ends (fun _ _ => True) (parser.run runs start) log
  | .step elementary, _, _, start, _, log =>
      ⟨elementary start, log ++ [(elementary start).standing], rfl, trivial⟩
  | .onSuccess first next, hforward, hguarded, start, hsource, log => by
      have hahead := first.always_precedes runs hforward.1 start
      have hends := first.ends_run hruns hforward.1 hguarded.1 start hsource log
      refine (hahead.ends hends).bind fun reached after hahead => ?_
      cases reached with
      | succeeded value remainder observations =>
          apply (next start _).ends_run hruns (hforward.2 start _) (hguarded.2 start _) hsource
          exact hahead
      | failed remainder observations => exact ends_pure trivial
  | .onFailure first next, hforward, hguarded, start, hsource, log => by
      have hahead := first.always_precedes runs hforward.1 start
      have hends := first.ends_run hruns hforward.1 hguarded.1 start hsource log
      refine (hahead.ends hends).bind fun reached after hahead => ?_
      cases reached with
      | succeeded value remainder observations => exact ends_pure trivial
      | failed remainder observations =>
          apply (next start _).ends_run hruns (hforward.2 start _) (hguarded.2 start _) hsource
          exact hahead
  | .map first f, hforward, hguarded, start, hsource, log => by
      have hends := first.ends_run hruns hforward hguarded start hsource log
      exact hends.bind fun _ _ _ => ends_pure trivial
  | .withObservation first observation, hforward, hguarded, start, hsource, log => by
      have hends := first.ends_run hruns hforward hguarded start hsource log
      exact hends.bind fun _ _ _ => ends_pure trivial
  | .many goesOn parser, hforward, hguarded, start, hsource, log => by
      have hstep : ∀ place, place.source = source → ∀ log,
          Ends (fun outcome _ => (0 : Nat) ≤ 0 + 1 ∧ (outcome.hasValue = true →
            goesOn place outcome = true → place.Before outcome.remainder))
            (parser.run runs place) log := by
        intro place hplace log
        obtain ⟨outcome, after, hrun, -⟩ :=
          parser.ends_run hruns hforward hguarded.2 place hplace log
        have hahead := parser.always_precedes runs hforward place log outcome after hrun
        refine ⟨outcome, after, hrun, Nat.zero_le _, ?_⟩
        intro hsucceeds hgoesOn
        apply hahead.before_of_ne
        exact hguarded.1 runs place log outcome after hrun hsucceeds hgoesOn
      -- no place of the source has more before it than the whole source
      have hremaining : start.remaining < runs := by
        have hle : start.remaining ≤ start.source.length := Nat.sub_le _ _
        rw [hsource] at hle
        omega
      refine (ends_repeatWhile hstep hsource hremaining log).bind fun result? after hends => ?_
      obtain ⟨values, stop, rfl, -⟩ := hends
      exact ends_pure trivial

theorem Sequel.ends_run {T U : Type} (hruns : source.length < runs) :
    ∀ (sequel : Sequel α T U) {start : Cursor α} {reached : Outcome α T},
      sequel.Forward start reached → sequel.Guarded → start.source = source →
        start.Precedes reached.remainder → ∀ log : List (Standing α),
          Ends (fun _ _ => True) (sequel.run runs reached) log
  | .same, _, _, _, _, _, _, _ => ends_pure trivial
  | .parse parser place, start, reached, hforward, hguarded, hsource, hahead, log => by
      have hplace : place.source = source :=
        (hforward.precedes hahead).source_eq.trans hsource
      exact parser.ends_run hruns hforward.2 hguarded place hplace log

end

/-- **A guarded forward parser is a step** that never goes back. -/
theorem Parser.exists_step (parser : Parser α T) (forward : parser.Forward)
    (guarded : parser.Guarded) :
    ∃ step : Cursor α → Outcome α T, ∀ place,
      (∃ log, parser.Finishes place (step place) log) ∧ place.Precedes (step place).remainder := by
  have hends : ∀ place : Cursor α, ∃ outcome : Outcome α T,
      (∃ log, parser.Finishes place outcome log) ∧ place.Precedes outcome.remainder := by
    intro place
    -- one run more than there are symbols is enough, wherever the parser begins
    have hruns : place.source.length < place.source.length + 1 := Nat.lt_succ_self _
    obtain ⟨outcome, log, hrun, -⟩ := parser.ends_run hruns forward guarded place rfl []
    have hahead := parser.always_precedes _ forward place [] outcome log hrun
    exact ⟨outcome, ⟨log, _, hrun⟩, hahead⟩
  choose step hstep using hends
  exact ⟨step, hstep⟩

end ParseOutcome
