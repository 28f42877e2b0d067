import ParseOutcome.Proofs.Parser.Basic

/-!
# Runs that end

How many runs a repetition is allowed decides whether a parser has a result, and
never which: a result that is there with some runs is there with more, and so is
the log.  So a run that ends, which is one that has a result with enough runs, ends
in one way only.
-/

namespace ParseOutcome

variable {α β γ T : Type}

/-- Whatever result and log the first computation has, the second has as well. -/
def Traced.Extends (shorter longer : Traced α β) : Prop :=
  ∀ log result, shorter.run log = some result → longer.run log = some result

namespace Traced

theorem Extends.refl (computation : Traced α β) : computation.Extends computation :=
  fun _ _ hrun => hrun

theorem Extends.bind {shorter longer : Traced α β} {next next' : β → Traced α γ}
    (hfirst : shorter.Extends longer) (hnext : ∀ between, (next between).Extends (next' between)) :
    (shorter >>= next).Extends (longer >>= next') := by
  intro log result hrun
  rw [StateT.run_bind] at hrun ⊢
  obtain ⟨⟨between, log'⟩, hbetween, hafter⟩ := Option.bind_eq_some_iff.mp hrun
  rw [hfirst log _ hbetween]
  exact hnext between log' result hafter

end Traced

open Traced

theorem run_repeatWhile_mono {goesOn : Cursor α → Outcome α T → Bool}
    {step step' : Cursor α → Traced α (Outcome α T)}
    (hstep : ∀ place, (step place).Extends (step' place)) {runs more : Nat} (hle : runs ≤ more)
    {start : Cursor α} {log after : List (Standing α)} {result : List T × Cursor α}
    (hrun : (repeatWhile goesOn step runs start).run log = some (some result, after)) :
    (repeatWhile goesOn step' more start).run log = some (some result, after) := by
  induction runs generalizing more start log result with
  | zero => exact absurd hrun (by simp [repeatWhile])
  | succ runs ih =>
      obtain ⟨more, rfl⟩ := Nat.exists_eq_add_of_lt hle
      rw [repeatWhile, StateT.run_bind] at hrun ⊢
      obtain ⟨⟨outcome, log'⟩, hfirst, hrest⟩ := Option.bind_eq_some_iff.mp hrun
      rw [hstep start log _ hfirst, Option.bind_eq_bind, Option.bind_some]
      cases outcome with
      | failed remainder observations => exact hrest
      | succeeded value remainder observations =>
          dsimp only at hrest ⊢
          by_cases htest : goesOn start (.succeeded value remainder observations) = true
          · rw [if_pos htest, StateT.run_bind] at hrest ⊢
            obtain ⟨⟨result?, log''⟩, hlater, hresult⟩ := Option.bind_eq_some_iff.mp hrest
            obtain ⟨hmap, rfl⟩ := Prod.mk.inj (Option.some.inj hresult)
            -- the runs after the first are done, since all of them are
            obtain ⟨last, rfl, rfl⟩ := Option.map_eq_some_iff.mp hmap
            have hmore := ih (Nat.le_add_right runs more) hlater
            rw [hmore]
            rfl
          · rw [if_neg htest] at hrest ⊢
            exact hrest

mutual

theorem Parser.run_extends {T : Type} {runs more : Nat} (hle : runs ≤ more) :
    ∀ (parser : Parser α T) (start : Cursor α),
      (parser.run runs start).Extends (parser.run more start)
  | .step elementary, start => Extends.refl _
  | .onSuccess first next, start => by
      refine (first.run_extends hle start).bind fun reached => ?_
      cases reached with
      | succeeded value remainder observations => exact (next start _).run_extends hle _
      | failed remainder observations => exact Extends.refl _
  | .onFailure first next, start => by
      refine (first.run_extends hle start).bind fun reached => ?_
      cases reached with
      | succeeded value remainder observations => exact Extends.refl _
      | failed remainder observations => exact (next start _).run_extends hle _
  | .map first f, start => (first.run_extends hle start).bind fun _ => Extends.refl _
  | .withObservation first observation, start =>
      (first.run_extends hle start).bind fun _ => Extends.refl _
  | .many goesOn parser, start => by
      intro log result hrun
      rw [Parser.run, StateT.run_bind] at hrun ⊢
      obtain ⟨⟨result?, log'⟩, hrepeat, hrest⟩ := Option.bind_eq_some_iff.mp hrun
      cases result? with
      | none => exact absurd hrest (by simp)
      | some reached =>
          have hmore := run_repeatWhile_mono (parser.run_extends hle) hle hrepeat
          rw [hmore]
          exact hrest

theorem Sequel.run_extends {T U : Type} {runs more : Nat} (hle : runs ≤ more) :
    ∀ (sequel : Sequel α T U) (reached : Outcome α T),
      (sequel.run runs reached).Extends (sequel.run more reached)
  | .same, _ => Extends.refl _
  | .parse parser place, _ => parser.run_extends hle place

end

/-- From `start`, the parser ends with this outcome and this log. -/
def Parser.Finishes (parser : Parser α T) (start : Cursor α) (outcome : Outcome α T)
    (log : List (Standing α)) : Prop :=
  ∃ runs, parser.result? runs start = some (outcome, log)

/-- **A parser ends in at most one way.** -/
theorem Parser.Finishes.unique {parser : Parser α T} {start : Cursor α}
    {outcome outcome' : Outcome α T} {log log' : List (Standing α)}
    (hfirst : parser.Finishes start outcome log) (hsecond : parser.Finishes start outcome' log') :
    outcome = outcome' ∧ log = log' := by
  obtain ⟨runs, hruns⟩ := hfirst
  obtain ⟨runs', hruns'⟩ := hsecond
  -- both results are there with the greater number of runs
  have hmore := parser.run_extends (Nat.le_max_left runs runs') start [] _ hruns
  have hmore' := parser.run_extends (Nat.le_max_right runs runs') start [] _ hruns'
  exact Prod.mk.inj (Option.some.inj (hmore.symm.trans hmore'))

end ParseOutcome
