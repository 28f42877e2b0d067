import ParseOutcome.Proofs.Parser.Runs

/-!
# No parser goes back

A parser is forward when its elementary steps stop at cursors that they reach by
advancing, and when whatever it goes on with begins at the remainder it was handed
or where the parser before it began.  Then every run that ends, with a value or
without, ends over the source on which it began, at or after the cursor where it
began, and not past the end.

Advancing is all that an elementary step may do to reach the cursor where it stops
(`Cursor.Reaches`).  From there on only the order `Cursor.Precedes` counts, which is
carried through every way to put parsers together; a repetition is an induction on
the runs it may still take.
-/

namespace ParseOutcome

variable {α β γ T U : Type}

/-! ## The order of the cursors of a source -/

namespace Cursor

/-- Both cursors are over one source, and the second is not before the first. -/
structure Precedes (start stop : Cursor α) : Prop where
  source_eq : stop.source = start.source
  position_le : start.position ≤ stop.position

theorem Precedes.refl (start : Cursor α) : start.Precedes start :=
  ⟨rfl, Nat.le_refl _⟩

theorem Precedes.trans {start middle stop : Cursor α} (hfirst : start.Precedes middle)
    (hsecond : middle.Precedes stop) : start.Precedes stop :=
  ⟨hsecond.source_eq.trans hfirst.source_eq,
    Nat.le_trans hfirst.position_le hsecond.position_le⟩

theorem precedes_advance (start : Cursor α) (count : Nat) :
    start.Precedes (start.advance count) := by
  refine ⟨rfl, ?_⟩
  rw [position_advance]
  exact Nat.le_min.mpr ⟨Nat.le_add_right _ _, start.position_le_length⟩

/-- The places from a cursor on are those it advances to. -/
theorem Precedes.exists_advance {start place : Cursor α} (hahead : start.Precedes place) :
    ∃ count < start.remaining + 1, start.advance count = place := by
  have hwithin := place.position_le_length
  have hposition := hahead.position_le
  rw [hahead.source_eq] at hwithin
  unfold remaining
  refine ⟨place.position - start.position, by omega, eq_iff.mpr ⟨hahead.source_eq.symm, ?_⟩⟩
  rw [position_advance]
  omega

theorem Precedes.remaining_le {start place : Cursor α} (hahead : start.Precedes place) :
    place.remaining ≤ start.remaining := by
  have hposition := hahead.position_le
  unfold remaining
  rw [hahead.source_eq]
  omega

/-- A cursor that is obtained from another by advancing, any number of times. -/
inductive Reaches (start : Cursor α) : Cursor α → Prop where
  | here : Reaches start start
  | advance {place : Cursor α} (count : Nat) :
      Reaches start place → Reaches start (place.advance count)
  | next {place : Cursor α} : Reaches start place → Reaches start place.next

theorem Reaches.precedes {start stop : Cursor α} (hreaches : start.Reaches stop) :
    start.Precedes stop := by
  induction hreaches with
  | here => exact Precedes.refl start
  | advance count _ ih => exact ih.trans (precedes_advance _ count)
  | next _ ih => exact ih.trans (precedes_advance _ 1)

end Cursor

/-! ## What holds of every result -/

/-- Whatever result a computation has, from whatever log, the property holds of
it. -/
def Traced.Always (property : β → Prop) (computation : Traced α β) : Prop :=
  ∀ log result after, computation.run log = some (result, after) → property result

namespace Traced

theorem always_pure {property : β → Prop} {result : β} (holds : property result) :
    Always property (pure result : Traced α β) := by
  intro log result' after hrun
  obtain ⟨rfl, rfl⟩ := Prod.mk.inj (Option.some.inj hrun)
  exact holds

theorem Always.bind {property : β → Prop} {property' : γ → Prop} {computation : Traced α β}
    {next : β → Traced α γ} (hfirst : Always property computation)
    (hnext : ∀ result, property result → Always property' (next result)) :
    Always property' (computation >>= next) := by
  intro log result after hrun
  rw [StateT.run_bind] at hrun
  obtain ⟨⟨between, log'⟩, hbetween, hafter⟩ := Option.bind_eq_some_iff.mp hrun
  exact hnext between (hfirst _ _ _ hbetween) _ _ _ hafter

theorem always_liftM (result? : Option β) :
    Always (· ∈ result?) (liftM result? : Traced α β) := by
  intro log result after hrun
  cases result? with
  | none => exact absurd hrun (by simp)
  | some result' =>
      obtain ⟨rfl, rfl⟩ := Prod.mk.inj (Option.some.inj hrun)
      rfl

/-- What always holds of a result holds of the one that there is. -/
theorem Always.ends {property : β → Prop} {property' : β → List (Standing α) → Prop}
    {computation : Traced α β} {log : List (Standing α)} (halways : Always property computation)
    (hends : Ends property' computation log) :
    Ends (fun result _ => property result) computation log := by
  obtain ⟨result, after, hrun, -⟩ := hends
  exact ⟨result, after, hrun, halways log result after hrun⟩

end Traced

open Traced

/-! ## Repetition -/

/-- **One run to all runs.**  If no run of a step goes back, neither does its
repetition, whatever the test. -/
theorem always_repeatWhile {goesOn : Cursor α → Outcome α T → Bool}
    {step : Cursor α → Traced α (Outcome α T)}
    (hstep : ∀ place, Always (fun outcome => place.Precedes outcome.remainder) (step place))
    (runs : Nat) (start : Cursor α) :
    Always (fun result? => ∀ result ∈ result?, start.Precedes result.2)
      (repeatWhile goesOn step runs start) := by
  -- on the runs that are left, as each begins where the one before it ended
  induction runs generalizing start with
  | zero => exact always_pure (by simp)
  | succ runs ih =>
      refine (hstep start).bind fun outcome hahead => ?_
      cases outcome with
      | failed remainder observations =>
          exact always_pure (by simpa using Cursor.Precedes.refl start)
      | succeeded value remainder observations =>
          dsimp only
          split
          · refine (ih remainder).bind fun result? hrest => always_pure ?_
            intro result hresult
            obtain ⟨last, hlast, rfl⟩ := Option.map_eq_some_iff.mp hresult
            exact hahead.trans (hrest last hlast)
          · exact always_pure (by simpa using Cursor.Precedes.refl start)

/-! ## Forward parsers -/

mutual

/-- Whether elementary steps only advance, and what is gone on with begins at the
remainder at hand or where the parser before it began. -/
def Parser.Forward {T : Type} : Parser α T → Prop
  | .step elementary => ∀ start : Cursor α, start.Reaches (elementary start).remainder
  | .onSuccess first next =>
      first.Forward ∧ ∀ start reached, (next start reached).Forward start reached
  | .onFailure first next =>
      first.Forward ∧ ∀ start reached, (next start reached).Forward start reached
  | .map first _ => first.Forward
  | .withObservation first _ => first.Forward
  | .many _ parser => parser.Forward

def Sequel.Forward {T U : Type} : Sequel α T U → Cursor α → Outcome α T → Prop
  | .same, _, _ => True
  | .parse parser place, start, reached =>
      (place = reached.remainder ∨ place = start) ∧ parser.Forward

end

/-- The parser of a sequel does not begin before the parser that it goes on from. -/
theorem Sequel.Forward.precedes {parser : Parser α U} {start place : Cursor α}
    {reached : Outcome α T} (hforward : (Sequel.parse parser place).Forward start reached)
    (hahead : start.Precedes reached.remainder) : start.Precedes place := by
  rcases hforward.1 with rfl | rfl
  · exact hahead
  · exact Cursor.Precedes.refl _

mutual

theorem Parser.always_precedes {T : Type} (runs : Nat) :
    ∀ (parser : Parser α T), parser.Forward → ∀ start : Cursor α,
      Always (fun outcome => start.Precedes outcome.remainder) (parser.run runs start)
  | .step elementary, hreaches, start => by
      have hlogged : Always (fun _ => True)
          (modify fun earlier => earlier ++ [(elementary start).standing] : Traced α PUnit) :=
        fun _ _ _ _ => trivial
      exact hlogged.bind fun _ _ => always_pure (hreaches start).precedes
  | .onSuccess first next, hforward, start => by
      obtain ⟨hfirst, hnext⟩ := hforward
      have hstop := first.always_precedes runs hfirst start
      refine hstop.bind fun reached hahead => ?_
      cases reached with
      | succeeded value remainder observations =>
          exact (next start _).always_precedes runs (hnext start _) hahead
      | failed remainder observations => exact always_pure hahead
  | .onFailure first next, hforward, start => by
      obtain ⟨hfirst, hnext⟩ := hforward
      have hstop := first.always_precedes runs hfirst start
      refine hstop.bind fun reached hahead => ?_
      cases reached with
      | succeeded value remainder observations => exact always_pure hahead
      | failed remainder observations =>
          exact (next start _).always_precedes runs (hnext start _) hahead
  | .map first f, hfirst, start => by
      have hstop := first.always_precedes runs hfirst start
      refine hstop.bind fun reached hahead => ?_
      exact always_pure (by rwa [Outcome.remainder_map])
  | .withObservation first observation, hfirst, start => by
      have hstop := first.always_precedes runs hfirst start
      refine hstop.bind fun reached hahead => ?_
      exact always_pure (by rwa [Outcome.remainder_withObservation])
  | .many goesOn parser, hparser, start => by
      have hrun := parser.always_precedes runs hparser
      refine (always_repeatWhile hrun runs start).bind fun result? hahead => ?_
      refine (always_liftM result?).bind fun result hresult => ?_
      exact always_pure (hahead result hresult)

theorem Sequel.always_precedes {T U : Type} (runs : Nat) :
    ∀ (sequel : Sequel α T U) {start : Cursor α} {reached : Outcome α T},
      sequel.Forward start reached → start.Precedes reached.remainder →
        Always (fun outcome => start.Precedes outcome.remainder) (sequel.run runs reached)
  | .same, _, _, _, hahead => always_pure hahead
  | .parse parser place, start, reached, hforward, hahead => by
      -- the parser begins where `start` cannot be passed again
      have hstart := hforward.precedes hahead
      intro log outcome after hrun
      have hstop := parser.always_precedes runs hforward.2 place log outcome after hrun
      exact hstart.trans hstop

end

/-- **No parser goes back.**  Wherever a forward parser begins, a run that ends,
with a value or without, ends over the same source, no earlier than it began, and
not past the end. -/
theorem Parser.remainder_within (parser : Parser α T) (forward : parser.Forward)
    {start : Cursor α} {outcome : Outcome α T} {log : List (Standing α)}
    (finished : parser.Finishes start outcome log) :
    outcome.remainder.source = start.source ∧
      start.position ≤ outcome.remainder.position ∧
      outcome.remainder.position ≤ start.source.length := by
  obtain ⟨runs, hrun⟩ := finished
  have hahead := parser.always_precedes runs forward start [] outcome log hrun
  refine ⟨hahead.source_eq, hahead.position_le, ?_⟩
  rw [← hahead.source_eq]
  exact outcome.remainder.position_le_length

/-! ## The steps of a grammar are forward -/

theorem Terminal.reaches_take [DecidableEq α] [Symbol α] (terminal : Terminal α)
    (unaccepted atEnd : List Observation) (start : Cursor α) :
    start.Reaches (terminal.take unaccepted atEnd start).remainder := by
  unfold Terminal.take
  split
  · exact .here
  · split
    · exact .next .here
    · exact .here

def signedDigits : Parser UInt8 (List Value) :=
  .withObservation (.many Outcome.moved signedDigit) (Sample.no "digit")

/-- In `1-2x` two runs take a signed digit, and the third finds none. -/
theorem signedDigits_remainder_within :
    signedDigits.Forward ∧
      ∃ outcome log,
        signedDigits.Finishes (Cursor.origin (Source.ofBuffer 0 [49, 45, 50, 120])) outcome log ∧
        outcome.remainder.source = Source.ofBuffer 0 [49, 45, 50, 120] ∧
        0 ≤ outcome.remainder.position ∧ outcome.remainder.position ≤ 4 := by
  have forward : signedDigits.Forward := by
    simp [signedDigits, signedDigit, digit, takeDigit, Parser.Forward, Sequel.Forward,
      Terminal.reaches_take]
  have finished : ∃ outcome log,
      signedDigits.Finishes (Cursor.origin (Source.ofBuffer 0 [49, 45, 50, 120])) outcome log :=
    ⟨_, _, 3, rfl⟩
  obtain ⟨outcome, log, hfinished⟩ := finished
  exact ⟨forward, outcome, log, hfinished, signedDigits.remainder_within forward hfinished⟩

end ParseOutcome
