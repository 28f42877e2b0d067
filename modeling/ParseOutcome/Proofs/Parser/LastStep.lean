import ParseOutcome.Proofs.Parser.Basic

/-!
# The last step that ran decides

Nothing that puts parsers together, as long as it neither adds observations nor
repeats, makes up an outcome of its own.  So whichever branches are taken, and
however deep they nest, a parser comes to what the elementary step that ran last
came to: to a value or to none, at the same remainder, with the same observations.
Only the value may have been transformed on the way.

What is carried along is that the log ends on the standing of the outcome at hand
(`EndsOnResult`).  An elementary step establishes it; going on keeps it, whether
what comes next runs, which then writes the end of the log itself, or is left out.
-/

namespace ParseOutcome

variable {α T U : Type}

mutual

/-- Whether a parser neither adds observations nor repeats. -/
def Parser.IsPlain {T : Type} : Parser α T → Prop
  | .step _ => True
  | .onSuccess first next => first.IsPlain ∧ ∀ start reached, (next start reached).IsPlain
  | .onFailure first next => first.IsPlain ∧ ∀ start reached, (next start reached).IsPlain
  | .map first _ => first.IsPlain
  | .withObservation _ _ => False
  | .many _ _ => False

def Sequel.IsPlain {T U : Type} : Sequel α T U → Prop
  | .same => True
  | .parse parser _ => parser.IsPlain

end

/-! ## Logs that end on the result -/

/-- From `log` on, a computation comes to an outcome, and then the log ends on the
standing of that outcome. -/
def EndsOnResult (log : List (Standing α)) (computation : Traced α (Outcome α T)) : Prop :=
  ∃ outcome after, computation.run log = some (outcome, after) ∧
    after.getLast? = some outcome.standing

theorem endsOnResult_pure {log : List (Standing α)} {outcome : Outcome α T}
    (hlast : log.getLast? = some outcome.standing) :
    EndsOnResult log (pure outcome : Traced α (Outcome α T)) :=
  ends_pure hlast

theorem EndsOnResult.bind {log : List (Standing α)} {computation : Traced α (Outcome α T)}
    {next : Outcome α T → Traced α (Outcome α U)} (hends : EndsOnResult log computation)
    (hnext : ∀ outcome after, after.getLast? = some outcome.standing →
      EndsOnResult after (next outcome)) :
    EndsOnResult log (computation >>= next) :=
  Ends.bind hends hnext

theorem endsOnResult_onSuccessM {log : List (Standing α)} {reached : Outcome α T}
    {next : Outcome α T → Traced α (Outcome α U)}
    (hlast : log.getLast? = some reached.standing) (hnext : EndsOnResult log (next reached)) :
    EndsOnResult log (reached.onSuccessM next) := by
  cases reached with
  | succeeded value remainder observations => exact hnext
  | failed remainder observations =>
      -- a failure has the same standing at every type of values
      exact endsOnResult_pure hlast

theorem endsOnResult_onFailureM {log : List (Standing α)} {reached : Outcome α T}
    {next : Outcome α T → Traced α (Outcome α T)}
    (hlast : log.getLast? = some reached.standing) (hnext : EndsOnResult log (next reached)) :
    EndsOnResult log (reached.onFailureM next) := by
  cases reached with
  | succeeded value remainder observations => exact endsOnResult_pure hlast
  | failed remainder observations => exact hnext

/-! ## Every run -/

mutual

theorem Parser.run_endsOnResult {T : Type} (runs : Nat) :
    ∀ (parser : Parser α T), parser.IsPlain → ∀ (start : Cursor α) (log : List (Standing α)),
      EndsOnResult log (parser.run runs start)
  | .step elementary, _, start, log =>
      ⟨elementary start, log ++ [(elementary start).standing], rfl, List.getLast?_concat⟩
  | .onSuccess first next, hplain, start, log => by
      obtain ⟨hfirst, hnext⟩ := hplain
      have hends := first.run_endsOnResult runs hfirst start log
      refine hends.bind fun reached _ hlast => ?_
      apply endsOnResult_onSuccessM hlast
      exact (next start reached).run_endsOnResult runs (hnext start reached) hlast
  | .onFailure first next, hplain, start, log => by
      obtain ⟨hfirst, hnext⟩ := hplain
      have hends := first.run_endsOnResult runs hfirst start log
      refine hends.bind fun reached _ hlast => ?_
      apply endsOnResult_onFailureM hlast
      exact (next start reached).run_endsOnResult runs (hnext start reached) hlast
  | .map first f, hfirst, start, log => by
      have hends := first.run_endsOnResult runs hfirst start log
      refine hends.bind fun reached _ hlast => ?_
      apply endsOnResult_pure
      rw [Outcome.standing_map, hlast]

-- What is given back is what the log already ends on, and what runs writes the end of
-- the log itself.
theorem Sequel.run_endsOnResult {T U : Type} (runs : Nat) :
    ∀ (sequel : Sequel α T U), sequel.IsPlain →
      ∀ {reached : Outcome α T} {log : List (Standing α)},
        log.getLast? = some reached.standing → EndsOnResult log (sequel.run runs reached)
  | .same, _, _, _, hlast => endsOnResult_pure hlast
  | .parse parser place, hplain, _, log, _ => parser.run_endsOnResult runs hplain place log

end

/-- **The last step that ran decides.**  A plain parser has a result wherever it
begins, at least one elementary step runs, and the one that runs last comes to just
what the parser comes to, but for the value. -/
theorem Parser.run_agrees_with_last_step (parser : Parser α T) (plain : parser.IsPlain)
    (runs : Nat) (start : Cursor α) :
    ∃ outcome log last, parser.result? runs start = some (outcome, log) ∧
      log.getLast? = some last ∧ outcome.hasValue = last.hasValue ∧
      outcome.remainder = last.remainder ∧ outcome.observations = last.observations := by
  obtain ⟨outcome, log, hrun, hlast⟩ := parser.run_endsOnResult runs plain start []
  exact ⟨outcome, log, outcome.standing, hrun, hlast, rfl, rfl, rfl⟩

/-- In `-x` three steps run: the minus is taken, the digit behind it is missing, and
so is the digit where the minus stands, which is the failure that is reported. -/
theorem signedDigit_agrees_with_last_step :
    signedDigit.IsPlain ∧
      ∃ outcome log last,
        signedDigit.result? 0 (Cursor.origin (Source.ofBuffer 0 [45, 120])) =
          some (outcome, log) ∧
        log.getLast? = some last ∧ outcome.hasValue = last.hasValue ∧
        outcome.remainder = last.remainder ∧ outcome.observations = last.observations := by
  have plain : signedDigit.IsPlain := by simp [signedDigit, digit, Parser.IsPlain, Sequel.IsPlain]
  exact ⟨plain, signedDigit.run_agrees_with_last_step plain 0 _⟩

end ParseOutcome
