import Mathlib.Algebra.Order.BigOperators.Group.List
import Mathlib.Algebra.Order.Group.Nat
import ParseOutcome.Proofs.Grammar.Depth
import ParseOutcome.Proofs.Repetition.Guarded

/-!
# The steps of a grammar are parsers

A step is a parser, if the names that it calls are: every way of putting steps together is a way of
putting parsers together.  The names of a grammar are parsers to any depth, where a call that is
nested too deep is a parser that never ends.  So whatever holds of all parsers holds of grammars.

Step and parser are run side by side, and neither has a result where the other has none
(`SameResult`).  Their logs differ, as a step logs all its parts and a parser only the elementary
ones.  So do the numbers of runs that they allow to a repetition: a step allows for what is left of
the source when the repetition begins, and a parser for one number throughout.

The parsers of a grammar are forward, and its repetitions are guarded.  What is left that may not
end are calls.  If every rule calls only names that are ranked below its own (`Grammar.Ranked`),
no call goes round in circles, and the grammar has a result for every step at every place.
-/

namespace ParseOutcome

variable {α β γ σ τ T U : Type}

/-! ## Two computations with one result -/

/-- Whatever the states are in which two computations begin, both have the same result, which has
the property, or neither has one. -/
structure SameResult (property : β → Prop) (first : StateT σ Option β)
    (second : StateT τ Option β) : Prop where
  there : Simulated (fun _ _ => True) property first second
  back : Simulated (fun _ _ => True) property second first

section Rules

variable {property : β → Prop} {property' : γ → Prop} {first : StateT σ Option β}
  {second : StateT τ Option β}

theorem sameResult_pure {result : β} (holds : property result) :
    SameResult property (pure result : StateT σ Option β) (pure result : StateT τ Option β) :=
  ⟨simulated_pure holds, simulated_pure holds⟩

theorem SameResult.bind {next : β → StateT σ Option γ} {next' : β → StateT τ Option γ}
    (hfirst : SameResult property first second)
    (hnext : ∀ result, property result → SameResult property' (next result) (next' result)) :
    SameResult property' (first >>= next) (second >>= next') :=
  ⟨hfirst.there.bind fun result holds => (hnext result holds).there,
    hfirst.back.bind fun result holds => (hnext result holds).back⟩

theorem SameResult.mono {stronger : β → Prop} (hfirst : SameResult stronger first second)
    (himplies : ∀ result, stronger result → property result) : SameResult property first second :=
  ⟨hfirst.there.mono himplies, hfirst.back.mono himplies⟩

/-- An elementary parser writes to its log, and then has the result of its function. -/
theorem sameResult_step {property : Outcome α T → Prop} {elementary : Cursor α → Outcome α T}
    {start : Cursor α} {outcome : Outcome α T} (helementary : elementary start = outcome)
    (holds : property outcome) (runs : Nat) :
    SameResult property (pure outcome : StateT σ Option (Outcome α T))
      ((Parser.step elementary).run runs start) := by
  subst helementary
  constructor
  · intro state state' _ result after hrun
    obtain ⟨rfl, rfl⟩ := Prod.mk.inj (Option.some.inj hrun)
    exact ⟨holds, _, rfl, trivial⟩
  · intro state state' _ result after hrun
    obtain ⟨rfl, rfl⟩ := Prod.mk.inj (Option.some.inj hrun)
    exact ⟨holds, _, rfl, trivial⟩

/-- To log a step is not to change its result. -/
theorem SameResult.logged {property : Outcome α Value → Prop} {body : Run (Outcome α Value)}
    {second : StateT τ Option (Outcome α Value)} (hbody : SameResult property body second)
    (kind : StepKind) (start : Cursor α) :
    SameResult property (Run.logged kind start body) second := by
  constructor
  · intro log state' _ outcome after hrun
    rw [Run.logged, StateT.run_bind] at hrun
    obtain ⟨⟨outcome', log'⟩, hrun', hlog⟩ := Option.bind_eq_some_iff.mp hrun
    obtain ⟨rfl, -⟩ := Prod.mk.inj (Option.some.inj hlog)
    exact hbody.there log state' trivial outcome' log' hrun'
  · intro state' log _ outcome after hrun
    obtain ⟨holds, log', hrun', -⟩ := hbody.back state' log trivial outcome after hrun
    have hlogged : ∃ after', (Run.logged kind start body).run log = some (outcome, after') := by
      rw [Run.logged, StateT.run_bind, hrun']
      exact ⟨_, rfl⟩
    obtain ⟨after', hafter'⟩ := hlogged
    exact ⟨holds, after', hafter', trivial⟩

end Rules

/-- The outcomes that do not go back. -/
abbrev Ahead (start : Cursor α) (outcome : Outcome α T) : Prop :=
  start.Precedes outcome.remainder

theorem SameResult.later {start place : Cursor α} {first : StateT σ Option (Outcome α T)}
    {second : StateT τ Option (Outcome α T)} (hsame : SameResult (Ahead place) first second)
    (hplace : start.Precedes place) : SameResult (Ahead start) first second :=
  hsame.mono fun _ hahead => hplace.trans hahead

/-! ## Steps as parsers -/

/-- A parser that never ends. -/
def Parser.endless : Parser α Value :=
  .map (.many (fun _ _ => true) (.step fun place => .succeeded () place [])) fun _ => .truth true

/-- A parser that runs after an earlier outcome, and whose values are joined to the earlier one. -/
def Parser.joined (keep : Bool) (earlier : Outcome α Value) (later : Parser α Value) :
    Parser α Value :=
  let result := Parser.map later fun value => Value.text (earlier.text ++ value.display)
  if keep then earlier.observations.foldl Parser.withObservation result else result

/-- To join a parser to an earlier outcome is to join what it comes to. -/
theorem Parser.run_joined (keep : Bool) (earlier : Outcome α Value) (later : Parser α Value)
    (runs : Nat) (start : Cursor α) :
    (Parser.joined keep earlier later).run runs start =
      later.run runs start >>= fun outcome => pure (earlier.joined keep outcome) := by
  have hnotices : ∀ (observations : List Observation) (parser : Parser α Value),
      (observations.foldl Parser.withObservation parser).run runs start =
        parser.run runs start >>= fun outcome =>
          pure (observations.foldl Outcome.withObservation outcome) := by
    intro observations parser
    induction observations generalizing parser with
    | nil => exact (bind_pure _).symm
    | cons observation observations ih =>
        rw [List.foldl_cons, ih, Parser.run, bind_assoc]
        simp only [pure_bind, List.foldl_cons]
  unfold Parser.joined Outcome.joined
  cases keep with
  | false => rfl
  | true =>
      dsimp only
      rw [if_pos rfl, hnotices, Parser.run, bind_assoc]
      simp only [pure_bind, if_true]

/-- What is asked of the parsers that stand for the calls from a place on: that they have the
results of the calls, and are allowed enough runs. -/
structure CallsParsed (call : String → Cursor α → Run (Outcome α Value))
    (parsers : String → Parser α Value) (runs : Nat) (start : Cursor α) : Prop where
  enough : start.remaining < runs
  same : ∀ place, start.Precedes place → ∀ name,
    SameResult (Ahead place) (call name place) ((parsers name).run runs place)

theorem CallsParsed.later {call : String → Cursor α → Run (Outcome α Value)}
    {parsers : String → Parser α Value} {runs : Nat} {start place : Cursor α}
    (hcalls : CallsParsed call parsers runs start)
    (hplace : start.Precedes place) : CallsParsed call parsers runs place :=
  ⟨Nat.lt_of_le_of_lt hplace.remaining_le hcalls.enough,
    fun other hother => hcalls.same other (hplace.trans hother)⟩

variable [DecidableEq α] [Symbol α]

mutual

/-- A step as a parser, where `call` says which parser a name stands for. -/
def Step.parser (call : String → Parser α Value) : Step α → Parser α Value
  | .succeed value count observations =>
      .step fun start => .succeeded value (start.advance count) observations
  | .fail count observations => .step fun start => .failed (start.advance count) observations
  | .symbol terminal unaccepted atEnd => .step (terminal.take unaccepted atEnd)
  | .finish observations =>
      .step fun start =>
        if start.atEnd then .succeeded (.truth true) start observations
        else .failed start observations
  | .sequence keep steps =>
      Step.parserSequence call keep steps (.step fun start => .succeeded (.text "") start [])
  | .choice merge steps =>
      .onFailure (.step fun start => .failed start []) (Step.alternatives call merge steps [])
  | .many step =>
      .map (.many Outcome.moved (step.parser call)) fun values =>
        .text (String.join (values.map Value.display))
  | .map step transform => .map (step.parser call) transform.apply
  | .note step observation => .withObservation (step.parser call) observation
  | .andThen first second =>
      .onSuccess (first.parser call) fun _ reached =>
        .parse (second.parser call) reached.remainder
  | .recover first second =>
      .onFailure (first.parser call) fun _ reached =>
        .parse (second.parser call) reached.remainder
  | .rule name => call name

/-- The steps of a sequence after what is parsed before. -/
def Step.parserSequence (call : String → Parser α Value) (keep : Bool) :
    List (Step α) → Parser α Value → Parser α Value
  | [], before => before
  | step :: rest, before =>
      Step.parserSequence call keep rest
        (.onSuccess before fun _ earlier =>
          .parse (.joined keep earlier (step.parser call)) earlier.remainder)

/-- What is tried where a choice has failed so far.  When nothing is left, a parser that looks at
nothing reports the failure. -/
def Step.alternatives (call : String → Parser α Value) (merge : Merge) :
    List (Step α) → List Observation → Cursor α → Outcome α Value → Sequel α Value Value
  | [], attempts, _, reached =>
      .parse (.step fun place => merge.conclude attempts (.failed place reached.observations))
        reached.remainder
  | step :: rest, attempts, start, _ =>
      .parse (.onFailure (step.parser call) fun place reached =>
        Step.alternatives call merge rest (attempts ++ reached.detached) place reached) start

end

/-- What a name stands for, as a parser, with calls nested at most `depth` deep. -/
def Grammar.parser (grammar : Grammar α) : Nat → String → Parser α Value
  | 0, _ => .endless
  | depth + 1, name =>
      match grammar.rules.lookup name with
      | none => .step fun start => .failed start []
      | some step => step.parser (grammar.parser depth)

/-! ## Side by side -/

section Steps

variable {call : String → Cursor α → Run (Outcome α Value)} {parsers : String → Parser α Value}
  {runs : Nat}

mutual

theorem Step.sameResult_run : ∀ (step : Step α) {start : Cursor α},
    CallsParsed call parsers runs start →
      SameResult (Ahead start) (step.run call start) ((step.parser parsers).run runs start)
  | .succeed value count observations, start, _ => by
      rw [Step.run, Step.parser]
      exact SameResult.logged (sameResult_step (by rfl) (start.precedes_advance count) runs) _ _
  | .fail count observations, start, _ => by
      rw [Step.run, Step.parser]
      exact SameResult.logged (sameResult_step (by rfl) (start.precedes_advance count) runs) _ _
  | .symbol terminal unaccepted atEnd, start, _ => by
      rw [Step.run, Step.parser]
      have hahead : Ahead start (terminal.take unaccepted atEnd start) :=
        (terminal.reaches_take _ _ start).precedes
      exact SameResult.logged (sameResult_step (by rfl) hahead runs) _ _
  | .finish observations, start, _ => by
      rw [Step.run, Step.parser]
      refine SameResult.logged (sameResult_step (by rfl) ?_ runs) _ _
      split
      · exact Cursor.Precedes.refl start
      · exact Cursor.Precedes.refl start
  | .sequence keep steps, start, hcalls => by
      have hfirst : SameResult (Ahead start)
          (pure (.succeeded (.text "") start []) : Run (Outcome α Value))
          ((Parser.step fun place => .succeeded (.text "") place []).run runs start) :=
        sameResult_step (by rfl) (Cursor.Precedes.refl start) runs
      have hrest := Step.sameResult_runSequence keep steps hcalls hfirst
      rw [pure_bind] at hrest
      rw [Step.run, Step.parser]
      exact hrest.logged _ _
  | .choice merge steps, start, hcalls => by
      have hfirst : SameResult (Ahead start)
          (pure (.failed start []) : Run (Outcome α Value))
          ((Parser.step fun place => .failed place []).run runs start) :=
        sameResult_step (by rfl) (Cursor.Precedes.refl start) runs
      have hrest := hfirst.bind fun reached hahead =>
        Step.sameResult_runChoice merge steps [] hcalls hahead
      rw [pure_bind] at hrest
      rw [Step.run, Step.parser, Parser.run]
      exact hrest.logged _ _
  | .many step, start, hcalls => by
      have hstep : ∀ place, start.Precedes place →
          SameResult (Ahead place) (step.run call place) ((step.parser parsers).run runs place) :=
        fun place hplace => step.sameResult_run (hcalls.later hplace)
      -- the step allows for what is left, and the parser for the number that it was given
      have hrepeated : SameResult (fun result? => ∃ values stop, result? = some (values, stop) ∧
          start.Precedes stop) (repeatFrom (step.run call) start)
          (repeatWhile Outcome.moved ((step.parser parsers).run runs) runs start) :=
        ⟨simulated_repeatWhile (fun place hplace => (hstep place hplace).there)
            (Nat.lt_succ_self _) hcalls.enough,
          simulated_repeatWhile (fun place hplace => (hstep place hplace).back)
            hcalls.enough (Nat.lt_succ_self _)⟩
      rw [Step.run, Step.parser, Parser.run, Parser.run, bind_assoc]
      refine (hrepeated.bind fun result? hresult => ?_).logged _ _
      obtain ⟨values, stop, rfl, hstop⟩ := hresult
      exact sameResult_pure hstop
  | .map step transform, start, hcalls => by
      rw [Step.run, Step.parser, Parser.run]
      refine ((step.sameResult_run hcalls).bind fun outcome hahead => ?_).logged _ _
      exact sameResult_pure (by rwa [Ahead, Outcome.remainder_map])
  | .note step observation, start, hcalls => by
      rw [Step.run, Step.parser, Parser.run]
      refine ((step.sameResult_run hcalls).bind fun outcome hahead => ?_).logged _ _
      exact sameResult_pure (by rwa [Ahead, Outcome.remainder_withObservation])
  | .andThen first second, start, hcalls => by
      rw [Step.run, Step.parser, Parser.run]
      refine ((first.sameResult_run hcalls).bind fun reached hahead => ?_).logged _ _
      cases reached with
      | failed remainder observations => exact sameResult_pure hahead
      | succeeded value remainder observations =>
          exact (second.sameResult_run (hcalls.later hahead)).later hahead
  | .recover first second, start, hcalls => by
      rw [Step.run, Step.parser, Parser.run]
      refine ((first.sameResult_run hcalls).bind fun reached hahead => ?_).logged _ _
      cases reached with
      | succeeded value remainder observations => exact sameResult_pure hahead
      | failed remainder observations =>
          exact (second.sameResult_run (hcalls.later hahead)).later hahead
  | .rule name, start, hcalls => by
      rw [Step.run, Step.parser]
      exact (hcalls.same start (.refl start) name).logged _ _

-- The steps of a sequence are nested to the left in the parser, so what has been parsed before
-- them is a computation of its own.
theorem Step.sameResult_runSequence (keep : Bool) : ∀ (steps : List (Step α)) {start : Cursor α}
    {first : Run (Outcome α Value)} {before : Parser α Value},
    CallsParsed call parsers runs start → SameResult (Ahead start) first (before.run runs start) →
      SameResult (Ahead start) (first >>= Step.runSequence call keep steps)
        ((Step.parserSequence parsers keep steps before).run runs start)
  | [], start, first, before, _, hbefore => by
      have hnothing : Step.runSequence call keep [] = (pure : _ → Run (Outcome α Value)) := by
        funext reached
        rw [Step.runSequence]
      rw [hnothing, bind_pure, Step.parserSequence]
      exact hbefore
  | step :: rest, start, first, before, hcalls, hbefore => by
      have hnext : SameResult (Ahead start)
          (first >>= fun reached => reached.onSuccessM fun earlier => do
            return earlier.joined keep (← Step.run call step earlier.remainder))
          ((Parser.onSuccess before fun _ earlier =>
            .parse (.joined keep earlier (step.parser parsers)) earlier.remainder).run runs
              start) := by
        rw [Parser.run]
        refine hbefore.bind fun reached hahead => ?_
        cases reached with
        | failed remainder observations => exact sameResult_pure hahead
        | succeeded value remainder observations =>
            have hrun := (step.sameResult_run (hcalls.later hahead)).later hahead
            show SameResult (Ahead start) _
              ((Parser.joined keep _ (step.parser parsers)).run runs _)
            rw [Parser.run_joined]
            refine hrun.bind fun later hlater => sameResult_pure ?_
            rwa [Ahead, Outcome.remainder_joined]
      have hrest := Step.sameResult_runSequence keep rest hcalls hnext
      rw [bind_assoc] at hrest
      rw [Step.parserSequence]
      have hunfolded : Step.runSequence call keep (step :: rest) = fun reached =>
          (reached.onSuccessM fun earlier => do
            return earlier.joined keep (← Step.run call step earlier.remainder)) >>=
          Step.runSequence call keep rest := by
        funext reached
        rw [Step.runSequence]
      rw [hunfolded]
      exact hrest

theorem Step.sameResult_runChoice (merge : Merge) : ∀ (steps : List (Step α))
    (attempts : List Observation) {start : Cursor α} {reached : Outcome α Value},
    CallsParsed call parsers runs start → Ahead start reached →
      SameResult (Ahead start) (Step.runChoice call merge steps start attempts reached)
        (reached.onFailureM fun failure =>
          (Step.alternatives parsers merge steps attempts start failure).run runs failure)
  | [], attempts, start, reached, _, hahead => by
      rw [Step.runChoice]
      cases reached with
      | succeeded value remainder observations => exact sameResult_pure hahead
      | failed remainder observations =>
          have hstays : Ahead remainder
              (merge.conclude attempts (.failed (T := Value) remainder observations)) := by
            rw [Ahead, Merge.remainder_conclude]
            exact Cursor.Precedes.refl remainder
          exact SameResult.later (sameResult_step (by rfl) hstays runs) hahead
  | step :: rest, attempts, start, reached, hcalls, hahead => by
      rw [Step.runChoice]
      cases reached with
      | succeeded value remainder observations => exact sameResult_pure hahead
      | failed remainder observations =>
          show SameResult (Ahead start) _
            ((Parser.onFailure (step.parser parsers) _).run runs start)
          rw [Parser.run]
          refine (step.sameResult_run hcalls).bind fun outcome hahead => ?_
          have hrest := Step.sameResult_runChoice merge rest (attempts ++ outcome.detached)
            hcalls hahead
          cases outcome with
          | succeeded value remainder observations => exact hrest
          | failed remainder observations => exact hrest

end

end Steps

/-! ## Whole grammars -/

omit [DecidableEq α] [Symbol α] in
theorem Parser.run_endless (runs : Nat) (start : Cursor α) (log : List (Standing α)) :
    (Parser.endless.run runs start).run log = none := by
  -- however many runs are allowed, the last one would have to go on
  let step : Parser α Unit := .step fun place => .succeeded () place []
  have hrepeated : ∀ allowed log, ∃ after,
      (repeatWhile (fun _ _ => true) (step.run runs) allowed start).run log =
        some (none, after) := by
    intro allowed
    induction allowed with
    | zero => exact fun log => ⟨log, rfl⟩
    | succ allowed ih =>
        intro log
        obtain ⟨after, hafter⟩ := ih (log ++ [(Outcome.succeeded () start []).standing])
        refine ⟨after, ?_⟩
        show ((repeatWhile (fun _ _ => true) (step.run runs) allowed start).run _).bind _ = _
        rw [hafter]
        rfl
  obtain ⟨after, hafter⟩ := hrepeated runs log
  show (((repeatWhile (fun _ _ => true) (step.run runs) runs start).run log).bind _).bind _ = _
  rw [hafter]
  rfl

theorem Grammar.callsParsed (grammar : Grammar α) (depth : Nat) {runs : Nat} {start : Cursor α}
    (hruns : start.remaining < runs) :
    CallsParsed (grammar.call depth) (grammar.parser depth) runs start := by
  refine ⟨hruns, ?_⟩
  induction depth generalizing start with
  | zero =>
      intro place _ name
      refine ⟨simulated_failure _, ?_⟩
      intro state state' _ result after hrun
      rw [Grammar.parser, Parser.run_endless] at hrun
      exact absurd hrun (by simp)
  | succ depth ih =>
      intro place hplace name
      have hruns' : place.remaining < runs := Nat.lt_of_le_of_lt hplace.remaining_le hruns
      unfold Grammar.call Grammar.parser
      cases grammar.rules.lookup name with
      | none => exact sameResult_step (by rfl) (Cursor.Precedes.refl place) runs
      | some step => exact step.sameResult_run ⟨hruns', ih hruns'⟩

/-- However many runs a parser needs to finish, its step comes to the same. -/
theorem Grammar.exists_result?_of_finishes {grammar : Grammar α} {depth : Nat} {step : Step α}
    {start : Cursor α} {outcome : Outcome α Value} {log : List (Standing α)}
    (finishes : (step.parser (grammar.parser depth)).Finishes start outcome log) :
    ∃ visits, Run.result? (step.run (grammar.call depth) start) = some (outcome, visits) := by
  obtain ⟨runs, hrun⟩ := finishes
  -- with at least as many runs as there are symbols left, the parser finishes as it did
  have hmore := (step.parser (grammar.parser depth)).run_extends
    (Nat.le_max_left runs (start.remaining + 1)) start [] _ hrun
  have hsame := step.sameResult_run
    (grammar.callsParsed depth (Nat.le_max_right runs (start.remaining + 1)))
  obtain ⟨-, visits, hvisits, -⟩ := hsame.back [] [] trivial _ _ hmore
  exact ⟨visits.reverse, Option.map_eq_some_iff.mpr ⟨_, hvisits, rfl⟩⟩

/-- **What a grammar comes to is what a parser finishes with**, and one of them ends just where the
other does. -/
theorem Grammar.result?_run_iff_finishes (grammar : Grammar α) (step : Step α) (start : Cursor α)
    (outcome : Outcome α Value) :
    (∃ visits, Run.result? (grammar.run step start) = some (outcome, visits)) ↔
      ∃ log, (step.parser (grammar.parser (grammar.depth start))).Finishes start outcome log := by
  constructor
  · rintro ⟨visits, hresult⟩
    obtain ⟨⟨outcome', log⟩, hrun, hpair⟩ := Option.map_eq_some_iff.mp hresult
    obtain ⟨rfl, -⟩ := Prod.mk.inj hpair
    have hsame := step.sameResult_run
      (grammar.callsParsed (grammar.depth start) (Nat.lt_succ_self start.remaining))
    obtain ⟨-, log', hlog', -⟩ := hsame.there [] [] trivial _ _ hrun
    exact ⟨log', _, hlog'⟩
  · rintro ⟨log, finishes⟩
    exact Grammar.exists_result?_of_finishes finishes

/-! ## Grammars that always end -/

section Ends

variable {call : String → Parser α Value}

omit [DecidableEq α] [Symbol α] in
/-- What maps and observations keep is kept where a parser is joined to an earlier outcome. -/
theorem Parser.joined_of_kept {property : Parser α Value → Prop} {later : Parser α Value}
    (hmap : ∀ f : Value → Value, property (.map later f))
    (hnote : ∀ parser observation, property parser → property (.withObservation parser observation))
    (keep : Bool) (earlier : Outcome α Value) : property (Parser.joined keep earlier later) := by
  have hnotices : ∀ (observations : List Observation) (parser : Parser α Value),
      property parser → property (observations.foldl Parser.withObservation parser) := by
    intro observations
    induction observations with
    | nil => exact fun _ hparser => hparser
    | cons observation observations ih =>
        exact fun parser hparser => ih _ (hnote parser observation hparser)
  unfold Parser.joined
  cases keep with
  | false => exact hmap _
  | true => exact hnotices _ _ (hmap _)

omit [DecidableEq α] [Symbol α] in
theorem Parser.forward_joined {later : Parser α Value} (hlater : later.Forward) (keep : Bool)
    (earlier : Outcome α Value) : (Parser.joined keep earlier later).Forward :=
  Parser.joined_of_kept (fun _ => hlater) (fun _ _ hparser => hparser) keep earlier

omit [DecidableEq α] [Symbol α] in
theorem Parser.guarded_joined {later : Parser α Value} (hlater : later.Guarded) (keep : Bool)
    (earlier : Outcome α Value) : (Parser.joined keep earlier later).Guarded :=
  Parser.joined_of_kept (fun _ => hlater) (fun _ _ hparser => hparser) keep earlier

mutual

theorem Step.forward_parser (hcall : ∀ name, (call name).Forward) :
    ∀ step : Step α, (step.parser call).Forward
  | .succeed value count observations => fun start => .advance count .here
  | .fail count observations => fun start => .advance count .here
  | .symbol terminal unaccepted atEnd => terminal.reaches_take unaccepted atEnd
  | .finish observations => by
      intro start
      dsimp only
      split
      · exact .here
      · exact .here
  | .sequence keep steps =>
      Step.forward_parserSequence hcall keep steps fun _ => .here
  | .choice merge steps =>
      ⟨fun _ => .here, fun start reached => Step.forward_alternatives hcall merge steps⟩
  | .many step => step.forward_parser hcall
  | .map step _ => step.forward_parser hcall
  | .note step _ => step.forward_parser hcall
  | .andThen first second =>
      ⟨first.forward_parser hcall, fun _ _ => ⟨.inl rfl, second.forward_parser hcall⟩⟩
  | .recover first second =>
      ⟨first.forward_parser hcall, fun _ _ => ⟨.inl rfl, second.forward_parser hcall⟩⟩
  | .rule name => hcall name

theorem Step.forward_parserSequence (hcall : ∀ name, (call name).Forward) (keep : Bool) :
    ∀ (steps : List (Step α)) {before : Parser α Value}, before.Forward →
      (Step.parserSequence call keep steps before).Forward
  | [], _, hbefore => hbefore
  | step :: rest, _, hbefore =>
      Step.forward_parserSequence hcall keep rest
        ⟨hbefore, fun _ earlier =>
          ⟨.inl rfl, Parser.forward_joined (step.forward_parser hcall) keep earlier⟩⟩

theorem Step.forward_alternatives (hcall : ∀ name, (call name).Forward) (merge : Merge) :
    ∀ (steps : List (Step α)) {attempts : List Observation} {start : Cursor α}
      {reached : Outcome α Value},
      (Step.alternatives call merge steps attempts start reached).Forward start reached
  | [], attempts, _, reached => by
      refine ⟨.inl rfl, fun place => ?_⟩
      rw [Merge.remainder_conclude]
      exact .here
  | step :: rest, _, _, _ =>
      ⟨.inr rfl, step.forward_parser hcall, fun _ _ => Step.forward_alternatives hcall merge rest⟩

end

mutual

/-- The names that a step calls. -/
def Step.called : Step α → List String
  | .succeed .. => []
  | .fail .. => []
  | .symbol .. => []
  | .finish _ => []
  | .sequence _ steps => Step.allCalled steps
  | .choice _ steps => Step.allCalled steps
  | .many step => step.called
  | .map step _ => step.called
  | .note step _ => step.called
  | .andThen first second => first.called ++ second.called
  | .recover first second => first.called ++ second.called
  | .rule name => [name]

def Step.allCalled : List (Step α) → List String
  | [] => []
  | step :: rest => step.called ++ Step.allCalled rest

end

mutual

theorem Step.guarded_parser :
    ∀ step : Step α, (∀ name ∈ step.called, (call name).Guarded) → (step.parser call).Guarded
  | .succeed .., _ => trivial
  | .fail .., _ => trivial
  | .symbol .., _ => trivial
  | .finish .., _ => trivial
  | .sequence keep steps, hcalled =>
      Step.guarded_parserSequence keep steps hcalled (.step _) trivial
  | .choice merge steps, hcalled =>
      ⟨trivial, fun _ _ => Step.guarded_alternatives merge steps hcalled⟩
  | .many step, hcalled => ⟨Parser.leaves_moved _, step.guarded_parser hcalled⟩
  | .map step _, hcalled => step.guarded_parser hcalled
  | .note step _, hcalled => step.guarded_parser hcalled
  | .andThen first second, hcalled => by
      obtain ⟨hfirst, hsecond⟩ := List.forall_mem_append.mp hcalled
      exact ⟨first.guarded_parser hfirst, fun _ _ => second.guarded_parser hsecond⟩
  | .recover first second, hcalled => by
      obtain ⟨hfirst, hsecond⟩ := List.forall_mem_append.mp hcalled
      exact ⟨first.guarded_parser hfirst, fun _ _ => second.guarded_parser hsecond⟩
  | .rule name, hcalled => hcalled name List.mem_cons_self

theorem Step.guarded_parserSequence (keep : Bool) :
    ∀ steps : List (Step α), (∀ name ∈ Step.allCalled steps, (call name).Guarded) →
      ∀ before : Parser α Value, before.Guarded →
        (Step.parserSequence call keep steps before).Guarded
  | [], _, _, hbefore => hbefore
  | step :: rest, hcalled, _, hbefore => by
      obtain ⟨hstep, hrest⟩ := List.forall_mem_append.mp hcalled
      apply Step.guarded_parserSequence keep rest hrest
      exact ⟨hbefore, fun _ earlier =>
        Parser.guarded_joined (step.guarded_parser hstep) keep earlier⟩

theorem Step.guarded_alternatives (merge : Merge) :
    ∀ steps : List (Step α), (∀ name ∈ Step.allCalled steps, (call name).Guarded) →
      ∀ {attempts : List Observation} {start : Cursor α} {reached : Outcome α Value},
        (Step.alternatives call merge steps attempts start reached).Guarded
  | [], _, _, _, _ => trivial
  | step :: rest, hcalled, _, _, _ => by
      obtain ⟨hstep, hrest⟩ := List.forall_mem_append.mp hcalled
      exact ⟨step.guarded_parser hstep, fun _ _ => Step.guarded_alternatives merge rest hrest⟩

end

end Ends

/-- The parsers of a grammar do not go back, so what holds of forward parsers holds of them. -/
theorem Grammar.forward_parser (grammar : Grammar α) (depth : Nat) (name : String) :
    (grammar.parser depth name).Forward := by
  induction depth generalizing name with
  | zero => exact fun _ => .here
  | succ depth ih =>
      unfold Grammar.parser
      cases grammar.rules.lookup name with
      | none => exact fun _ => .here
      | some step => exact step.forward_parser ih

/-- Whether no rule calls a name that is not ranked below its own, so that calls cannot go round
in circles. -/
def Grammar.Ranked (grammar : Grammar α) (rank : String → Nat) : Prop :=
  ∀ rule ∈ grammar.rules, ∀ called ∈ rule.2.called, rank called < rank rule.1

theorem Grammar.Ranked.guarded_parser {grammar : Grammar α} {rank : String → Nat}
    (hranked : grammar.Ranked rank) {depth : Nat} {name : String} (hrank : rank name < depth) :
    (grammar.parser depth name).Guarded := by
  -- every call is ranked lower, so none is cut off, which would leave a repetition without a guard
  induction depth generalizing name with
  | zero => exact absurd hrank (Nat.not_lt_zero _)
  | succ depth ih =>
      unfold Grammar.parser
      cases hlookup : grammar.rules.lookup name with
      | none => trivial
      | some step =>
          apply step.guarded_parser
          intro called hcalled
          have hlower := hranked (name, step) (mem_of_lookup hlookup) called hcalled
          exact ih (Nat.lt_of_lt_of_le hlower (Nat.le_of_lt_succ hrank))

/-- **A grammar whose calls do not go round in circles ends** on every step, wherever it begins. -/
theorem Grammar.Ranked.exists_result {grammar : Grammar α} {rank : String → Nat}
    (hranked : grammar.Ranked rank) (step : Step α) (start : Cursor α) :
    ∃ outcome visits, Run.result? (grammar.run step start) = some (outcome, visits) := by
  let depth := (step.called.map rank).sum + 1
  have hguarded : (step.parser (grammar.parser depth)).Guarded := by
    apply step.guarded_parser
    intro called hcalled
    apply hranked.guarded_parser
    exact Nat.lt_succ_of_le (List.le_sum_of_mem (List.mem_map_of_mem hcalled))
  obtain ⟨outcomes, hfinishes⟩ := (step.parser (grammar.parser depth)).exists_step
    (step.forward_parser (grammar.forward_parser depth)) hguarded
  obtain ⟨⟨log, finishes⟩, -⟩ := hfinishes start
  obtain ⟨visits, hresult⟩ := Grammar.exists_result?_of_finishes finishes
  exact ⟨outcomes start, visits, Grammar.result?_run_eq_some_iff.mpr ⟨depth, hresult⟩⟩

/-- Numbers are made of digits, and digits of nothing else. -/
example (digit : Terminal α) (step : Step α) (start : Cursor α) :
    let grammar : Grammar α := ⟨[("number", .many (.rule "digit")), ("digit", .symbol digit [] [])]⟩
    ∃ outcome visits, Run.result? (grammar.run step start) = some (outcome, visits) := by
  intro grammar
  have hranked : grammar.Ranked fun name => if name = "number" then 1 else 0 := by
    simp [grammar, Grammar.Ranked, Step.called]
  exact hranked.exists_result step start

end ParseOutcome
