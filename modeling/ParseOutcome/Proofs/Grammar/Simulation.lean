import ParseOutcome.Proofs.Furthest.Basic
import ParseOutcome.Proofs.Repetition.Basic

/-!
# Running a step with other calls

What a step comes to depends on what the names that it calls stand for, and only on what they
stand for at places that are not before its own.  A step that can call more comes to whatever it
came to before, with the same log.  It never goes back, and it says nothing but what is written in
it or said by what it calls, give or take a position.

All of this is one comparison of two runs, where the first has a result only if the second has it
too (`Simulated`).  The two may begin in states that are related in any way, such as to be equal,
or in no way at all, as long as what is written to both logs leaves them related.
-/

namespace ParseOutcome

variable {α β γ σ τ T U : Type}

/-- From related states, the second computation has whatever result the first has, the property
holds of it, and the states after it are related. -/
def Simulated (related : σ → τ → Prop) (property : β → Prop) (first : StateT σ Option β)
    (second : StateT τ Option β) : Prop :=
  ∀ state state', related state state' → ∀ result after,
    first.run state = some (result, after) →
      property result ∧ ∃ after', second.run state' = some (result, after') ∧ related after after'

section Rules

variable {related : σ → τ → Prop} {property : β → Prop} {property' : γ → Prop}

theorem simulated_pure {result : β} (holds : property result) :
    Simulated related property (pure result) (pure result) := by
  intro state state' hrelated result' after hrun
  obtain ⟨rfl, rfl⟩ := Prod.mk.inj (Option.some.inj hrun)
  exact ⟨holds, state', rfl, hrelated⟩

theorem simulated_failure (second : StateT τ Option β) :
    Simulated related property failure second := by
  intro state state' _ result after hrun
  exact absurd hrun (by simp [failure, StateT.failure, StateT.run])

theorem Simulated.bind {first : StateT σ Option β} {second : StateT τ Option β}
    {next : β → StateT σ Option γ} {next' : β → StateT τ Option γ}
    (hfirst : Simulated related property first second)
    (hnext : ∀ result, property result → Simulated related property' (next result) (next' result)) :
    Simulated related property' (first >>= next) (second >>= next') := by
  intro state state' hrelated result after hrun
  rw [StateT.run_bind] at hrun
  obtain ⟨⟨between, middle⟩, hbetween, hafter⟩ := Option.bind_eq_some_iff.mp hrun
  obtain ⟨hholds, middle', hbetween', hmiddle⟩ := hfirst _ _ hrelated _ _ hbetween
  rw [StateT.run_bind, hbetween']
  exact hnext between hholds _ _ hmiddle _ _ hafter

theorem Simulated.mono {stronger : β → Prop} {first : StateT σ Option β}
    {second : StateT τ Option β} (hfirst : Simulated related stronger first second)
    (himplies : ∀ result, stronger result → property result) :
    Simulated related property first second := by
  intro state state' hrelated result after hrun
  obtain ⟨holds, hsecond⟩ := hfirst state state' hrelated result after hrun
  exact ⟨himplies result holds, hsecond⟩

/-- Repetitions that are allowed enough runs do not differ by how many these are. -/
theorem simulated_repeatWhile [DecidableEq α] {step : Cursor α → StateT σ Option (Outcome α T)}
    {step' : Cursor α → StateT τ Option (Outcome α T)} {runs runs' : Nat} {start : Cursor α}
    (hstep : ∀ place, start.Precedes place →
      Simulated related (fun outcome => place.Precedes outcome.remainder) (step place)
        (step' place))
    (hruns : start.remaining < runs) (hruns' : start.remaining < runs') :
    Simulated related (fun result? => ∃ values stop, result? = some (values, stop) ∧
        start.Precedes stop)
      (repeatWhile Outcome.moved step runs start)
      (repeatWhile Outcome.moved step' runs' start) := by
  induction runs generalizing start runs' with
  | zero => exact absurd hruns (Nat.not_lt_zero _)
  | succ runs ih =>
      obtain ⟨runs', rfl⟩ := Nat.exists_eq_add_one_of_ne_zero (Nat.ne_zero_of_lt hruns')
      refine (hstep start (.refl start)).bind fun outcome hahead => ?_
      cases outcome with
      | failed remainder observations =>
          exact simulated_pure ⟨[], start, rfl, .refl start⟩
      | succeeded value remainder observations =>
          dsimp only
          split
          next hmoved =>
            -- both are allowed one run fewer from here on, and less is left for them to do
            have hless := (hahead.before_of_ne (of_decide_eq_true hmoved)).remaining_lt
            have hlater := fun place hplace => hstep place (hahead.trans hplace)
            refine (ih hlater (by omega) (by omega)).bind fun result? hrest => ?_
            obtain ⟨values, stop, rfl, hstop⟩ := hrest
            exact simulated_pure ⟨value :: values, stop, rfl, hahead.trans hstop⟩
          next => exact simulated_pure ⟨[], start, rfl, .refl start⟩

end Rules

/-! ## What is written in a step -/

mutual

/-- The observations that are written in a step. -/
def Step.observations : Step α → List Observation
  | .succeed _ _ observations => observations
  | .fail _ observations => observations
  | .symbol _ unaccepted atEnd => unaccepted ++ atEnd
  | .finish observations => observations
  | .sequence _ steps => Step.allObservations steps
  | .choice _ steps => Step.allObservations steps
  | .many step => step.observations
  | .map step _ => step.observations
  | .note step observation => observation :: step.observations
  | .andThen first second => first.observations ++ second.observations
  | .recover first second => first.observations ++ second.observations
  | .rule _ => []

def Step.allObservations : List (Step α) → List Observation
  | [] => []
  | step :: rest => step.observations ++ Step.allObservations rest

end

def Grammar.observations (grammar : Grammar α) : List Observation :=
  grammar.rules.flatMap fun rule => rule.2.observations

/-- What is found under a name is listed with that name. -/
theorem mem_of_lookup {entries : List (String × β)} {name : String} {thing : β}
    (hlookup : entries.lookup name = some thing) : (name, thing) ∈ entries := by
  obtain ⟨before, after, rfl, -⟩ := List.lookup_eq_some_iff.mp hlookup
  exact List.mem_append_right before List.mem_cons_self

theorem Grammar.observations_of_lookup {grammar : Grammar α} {name : String} {step : Step α}
    (hlookup : grammar.rules.lookup name = some step) :
    step.observations ⊆ grammar.observations := by
  intro observation hobservation
  exact List.mem_flatMap.mpr ⟨(name, step), mem_of_lookup hlookup, hobservation⟩

/-! ## Outcomes that are ahead -/

/-- What a step that begins at a place may come to: it is not before that place, and makes
observations of one kind. -/
structure Outcome.From (said : Observation → Prop) (start : Cursor α) (outcome : Outcome α T) :
    Prop where
  ahead : start.Precedes outcome.remainder
  observed : ∀ observation ∈ outcome.observations, said observation

theorem Outcome.remainder_foldl_withObservation (outcome : Outcome α T)
    (observations : List Observation) :
    (observations.foldl Outcome.withObservation outcome).remainder = outcome.remainder := by
  induction observations generalizing outcome with
  | nil => rfl
  | cons observation observations ih =>
      rw [List.foldl_cons, ih, remainder_withObservation]

theorem Outcome.remainder_joined (keep : Bool) (earlier later : Outcome α Value) :
    (earlier.joined keep later).remainder = later.remainder := by
  unfold joined
  cases keep with
  | false => exact remainder_map later _
  | true => exact (remainder_foldl_withObservation _ _).trans (remainder_map later _)

theorem Merge.remainder_conclude (merge : Merge) (attempts : List Observation)
    (failure : Outcome α T) : (merge.conclude attempts failure).remainder = failure.remainder := by
  cases merge <;> rfl

namespace Outcome.From

variable {said : Observation → Prop} {start place : Cursor α} {outcome : Outcome α T}

theorem later (hplace : start.Precedes place) (hfrom : outcome.From said place) :
    outcome.From said start :=
  ⟨hplace.trans hfrom.ahead, hfrom.observed⟩

theorem map (hfrom : outcome.From said start) (f : T → U) : (outcome.map f).From said start := by
  refine ⟨?_, ?_⟩
  · rw [remainder_map]
    exact hfrom.ahead
  · rw [observations_map]
    exact hfrom.observed

theorem withObservation (hfrom : outcome.From said start) {observation : Observation}
    (hsaid : said observation) : (outcome.withObservation observation).From said start := by
  refine ⟨?_, ?_⟩
  · rw [remainder_withObservation]
    exact hfrom.ahead
  · rw [observations_withObservation]
    intro other hother
    rcases List.mem_append.mp hother with hother | hother
    · exact hfrom.observed other hother
    · rwa [List.mem_singleton.mp hother]

theorem foldl_withObservation {observations : List Observation}
    (hfrom : outcome.From said start) (hsaid : ∀ observation ∈ observations, said observation) :
    (observations.foldl Outcome.withObservation outcome).From said start := by
  induction observations generalizing outcome with
  | nil => exact hfrom
  | cons observation observations ih =>
      obtain ⟨hfirst, hrest⟩ := List.forall_mem_cons.mp hsaid
      exact ih (hfrom.withObservation hfirst) hrest

theorem joined {earlier later : Outcome α Value} (hearlier : earlier.From said start)
    (hlater : later.From said start) (keep : Bool) :
    (earlier.joined keep later).From said start := by
  unfold Outcome.joined
  split
  · exact (hlater.map _).foldl_withObservation hearlier.observed
  · exact hlater.map _

theorem conclude {attempts : List Observation} (hfrom : outcome.From said start)
    (hattempts : ∀ observation ∈ attempts, said observation) (merge : Merge) :
    (merge.conclude attempts outcome).From said start := by
  cases merge with
  | last => exact hfrom
  | all => exact ⟨hfrom.ahead, hattempts⟩
  | furthest =>
      refine ⟨hfrom.ahead, ?_⟩
      intro observation hobservation
      obtain ⟨selected, hselected, rfl⟩ :=
        Option.map_eq_some_iff.mp (Option.mem_toList.mp hobservation)
      exact hattempts _ (Furthest.mem_of_furthest? hselected)

end Outcome.From

/-- Whether the kind of observations stays the same when they are detached to places that are not
before `start`. -/
def Detachable (said : Observation → Prop) (start : Cursor α) : Prop :=
  ∀ place, start.Precedes place → ∀ observation, said observation → said (observation.detach place)

/-- What is called at places that are not before `start`, side by side. -/
def CallsSimulated (related : List Visit → List Visit → Prop) (said : Observation → Prop)
    (call call' : String → Cursor α → Run (Outcome α Value)) (start : Cursor α) : Prop :=
  ∀ place, start.Precedes place → ∀ name,
    Simulated related (Outcome.From said place) (call name place) (call' name place)

section Later

variable {said : Observation → Prop} {start place : Cursor α} {outcome : Outcome α T}

theorem Detachable.later (hdetach : Detachable said start) (hplace : start.Precedes place) :
    Detachable said place :=
  fun other hother => hdetach other (hplace.trans hother)

theorem CallsSimulated.later {related : List Visit → List Visit → Prop}
    {call call' : String → Cursor α → Run (Outcome α Value)}
    (hcalls : CallsSimulated related said call call' start) (hplace : start.Precedes place) :
    CallsSimulated related said call call' place :=
  fun other hother => hcalls other (hplace.trans hother)

theorem Simulated.later {first : StateT σ Option (Outcome α T)}
    {second : StateT τ Option (Outcome α T)} {related : σ → τ → Prop}
    (hplace : start.Precedes place)
    (hsimulated : Simulated related (Outcome.From said place) first second) :
    Simulated related (Outcome.From said start) first second :=
  hsimulated.mono fun _ hfrom => hfrom.later hplace

theorem Outcome.From.detached (hfrom : outcome.From said start) (hdetach : Detachable said start) :
    ∀ observation ∈ outcome.detached, said observation := by
  intro observation hobservation
  obtain ⟨made, hmade, rfl⟩ := List.mem_map.mp hobservation
  exact hdetach _ hfrom.ahead made (hfrom.observed made hmade)

end Later

/-! ## Steps -/

/-- Whether logs stay related when one line more is written to both. -/
def KeptByVisits (related : List Visit → List Visit → Prop) : Prop :=
  ∀ visit log log', related log log' → related (visit :: log) (visit :: log')

theorem keptByVisits_eq : KeptByVisits Eq :=
  fun visit _ _ => congrArg (visit :: ·)

variable {related : List Visit → List Visit → Prop} {said : Observation → Prop}

theorem Simulated.logged {property : Outcome α Value → Prop} {body body' : Run (Outcome α Value)}
    (hbody : Simulated related property body body') (hvisits : KeptByVisits related)
    (kind : StepKind) (start : Cursor α) :
    Simulated related property (Run.logged kind start body) (Run.logged kind start body') := by
  refine hbody.bind fun outcome holds => ?_
  intro log log' hrelated result after hrun
  obtain ⟨rfl, rfl⟩ := Prod.mk.inj (Option.some.inj hrun)
  exact ⟨holds, _, rfl, hvisits _ _ _ hrelated⟩

variable [DecidableEq α] [Symbol α]

theorem Terminal.from_take (terminal : Terminal α) {unaccepted atEnd : List Observation}
    (hsaid : ∀ observation ∈ unaccepted ++ atEnd, said observation) (start : Cursor α) :
    (terminal.take unaccepted atEnd start).From said start := by
  refine ⟨(terminal.reaches_take unaccepted atEnd start).precedes, ?_⟩
  obtain ⟨hunaccepted, hend⟩ := List.forall_mem_append.mp hsaid
  unfold Terminal.take
  split
  · exact hend
  · split
    · exact fun _ hnone => absurd hnone List.not_mem_nil
    · exact hunaccepted

variable {call call' : String → Cursor α → Run (Outcome α Value)}

mutual

theorem Step.run_simulated (hvisits : KeptByVisits related) :
    ∀ (step : Step α) {start : Cursor α}, (∀ observation ∈ step.observations, said observation) →
      Detachable said start → CallsSimulated related said call call' start →
        Simulated related (Outcome.From said start) (step.run call start) (step.run call' start)
  | .succeed value count observations, start, hsaid, _, _ => by
      rw [Step.run, Step.run]
      exact (simulated_pure ⟨start.precedes_advance count, hsaid⟩).logged hvisits _ _
  | .fail count observations, start, hsaid, _, _ => by
      rw [Step.run, Step.run]
      exact (simulated_pure ⟨start.precedes_advance count, hsaid⟩).logged hvisits _ _
  | .symbol terminal unaccepted atEnd, start, hsaid, _, _ => by
      rw [Step.run, Step.run]
      exact (simulated_pure (terminal.from_take hsaid start)).logged hvisits _ _
  | .finish observations, start, hsaid, _, _ => by
      rw [Step.run, Step.run]
      refine (simulated_pure ?_).logged hvisits _ _
      split
      · exact ⟨.refl start, hsaid⟩
      · exact ⟨.refl start, hsaid⟩
  | .sequence keep steps, start, hsaid, hdetach, hcalls => by
      have hfirst : (Outcome.succeeded (Value.text "") start []).From said start :=
        ⟨.refl start, fun _ hnone => absurd hnone List.not_mem_nil⟩
      rw [Step.run, Step.run]
      exact (Step.runSequence_simulated hvisits keep steps hsaid hfirst hdetach hcalls).logged
        hvisits _ _
  | .choice merge steps, start, hsaid, hdetach, hcalls => by
      have hfirst : (Outcome.failed (T := Value) start []).From said start :=
        ⟨.refl start, fun _ hnone => absurd hnone List.not_mem_nil⟩
      rw [Step.run, Step.run]
      refine (Step.runChoice_simulated hvisits merge steps hsaid ?_ hfirst hdetach hcalls).logged
        hvisits _ _
      exact fun _ hnone => absurd hnone List.not_mem_nil
  -- the values are put together without the observations of the runs, so only the places count
  | .many step, start, hsaid, hdetach, hcalls => by
      have hstep : ∀ place, start.Precedes place →
          Simulated related (fun outcome => place.Precedes outcome.remainder)
            (step.run call place) (step.run call' place) := by
        intro place hplace
        have hrun := step.run_simulated hvisits hsaid (hdetach.later hplace) (hcalls.later hplace)
        exact hrun.mono fun _ hfrom => hfrom.ahead
      rw [Step.run, Step.run]
      refine Simulated.logged ?_ hvisits _ _
      refine (simulated_repeatWhile hstep (Nat.lt_succ_self _) (Nat.lt_succ_self _)).bind
        fun result? hrepeated => ?_
      obtain ⟨values, stop, rfl, hstop⟩ := hrepeated
      exact simulated_pure ⟨hstop, fun _ hnone => absurd hnone List.not_mem_nil⟩
  | .map step transform, start, hsaid, hdetach, hcalls => by
      rw [Step.run, Step.run]
      refine Simulated.logged ?_ hvisits _ _
      exact (step.run_simulated hvisits hsaid hdetach hcalls).bind fun outcome hfrom =>
        simulated_pure (hfrom.map _)
  | .note step observation, start, hsaid, hdetach, hcalls => by
      obtain ⟨hnote, hstep⟩ := List.forall_mem_cons.mp hsaid
      rw [Step.run, Step.run]
      refine Simulated.logged ?_ hvisits _ _
      exact (step.run_simulated hvisits hstep hdetach hcalls).bind fun outcome hfrom =>
        simulated_pure (hfrom.withObservation hnote)
  | .andThen first second, start, hsaid, hdetach, hcalls => by
      obtain ⟨hfirst, hsecond⟩ := List.forall_mem_append.mp hsaid
      rw [Step.run, Step.run]
      refine Simulated.logged ?_ hvisits _ _
      refine (first.run_simulated hvisits hfirst hdetach hcalls).bind fun reached hfrom => ?_
      cases reached with
      | failed remainder observations => exact simulated_pure ⟨hfrom.ahead, hfrom.observed⟩
      | succeeded value remainder observations =>
          apply Simulated.later hfrom.ahead
          exact second.run_simulated hvisits hsecond (hdetach.later hfrom.ahead)
            (hcalls.later hfrom.ahead)
  | .recover first second, start, hsaid, hdetach, hcalls => by
      obtain ⟨hfirst, hsecond⟩ := List.forall_mem_append.mp hsaid
      rw [Step.run, Step.run]
      refine Simulated.logged ?_ hvisits _ _
      refine (first.run_simulated hvisits hfirst hdetach hcalls).bind fun reached hfrom => ?_
      cases reached with
      | succeeded value remainder observations => exact simulated_pure hfrom
      | failed remainder observations =>
          apply Simulated.later hfrom.ahead
          exact second.run_simulated hvisits hsecond (hdetach.later hfrom.ahead)
            (hcalls.later hfrom.ahead)
  | .rule name, start, _, _, hcalls => by
      rw [Step.run, Step.run]
      exact (hcalls start (.refl start) name).logged hvisits _ _

theorem Step.runSequence_simulated (hvisits : KeptByVisits related) (keep : Bool) :
    ∀ (steps : List (Step α)) {start : Cursor α} {reached : Outcome α Value},
      (∀ observation ∈ Step.allObservations steps, said observation) →
      reached.From said start → Detachable said start →
      CallsSimulated related said call call' start →
        Simulated related (Outcome.From said start) (Step.runSequence call keep steps reached)
          (Step.runSequence call' keep steps reached)
  | [], start, reached, _, hreached, _, _ => by
      rw [Step.runSequence, Step.runSequence]
      exact simulated_pure hreached
  | step :: rest, start, reached, hsaid, hreached, hdetach, hcalls => by
      obtain ⟨hstep, hrest⟩ := List.forall_mem_append.mp hsaid
      have hnext : Simulated related (Outcome.From said start)
          (reached.onSuccessM fun earlier => do
            return earlier.joined keep (← Step.run call step earlier.remainder))
          (reached.onSuccessM fun earlier => do
            return earlier.joined keep (← Step.run call' step earlier.remainder)) := by
        cases reached with
        | failed remainder observations => exact simulated_pure hreached
        | succeeded value remainder observations =>
            have hrun := step.run_simulated hvisits hstep (hdetach.later hreached.ahead)
              (hcalls.later hreached.ahead)
            exact hrun.bind fun later hlater =>
              simulated_pure (hreached.joined (hlater.later hreached.ahead) keep)
      rw [Step.runSequence, Step.runSequence]
      exact hnext.bind fun outcome hfrom =>
        Step.runSequence_simulated hvisits keep rest hrest hfrom hdetach hcalls

theorem Step.runChoice_simulated (hvisits : KeptByVisits related) (merge : Merge) :
    ∀ (steps : List (Step α)) {start : Cursor α} {attempts : List Observation}
      {reached : Outcome α Value},
      (∀ observation ∈ Step.allObservations steps, said observation) →
      (∀ observation ∈ attempts, said observation) → reached.From said start →
      Detachable said start → CallsSimulated related said call call' start →
        Simulated related (Outcome.From said start)
          (Step.runChoice call merge steps start attempts reached)
          (Step.runChoice call' merge steps start attempts reached)
  | [], start, attempts, reached, _, hattempts, hreached, _, _ => by
      rw [Step.runChoice, Step.runChoice]
      cases reached with
      | succeeded value remainder observations => exact simulated_pure hreached
      | failed remainder observations => exact simulated_pure (hreached.conclude hattempts merge)
  | step :: rest, start, attempts, reached, hsaid, hattempts, hreached, hdetach, hcalls => by
      obtain ⟨hstep, hrest⟩ := List.forall_mem_append.mp hsaid
      rw [Step.runChoice, Step.runChoice]
      cases reached with
      | succeeded value remainder observations => exact simulated_pure hreached
      | failed remainder observations =>
          refine (step.run_simulated hvisits hstep hdetach hcalls).bind fun outcome hfrom => ?_
          -- what an alternative observed is detached before it is kept
          have hattempts' := List.forall_mem_append.mpr ⟨hattempts, hfrom.detached hdetach⟩
          exact Step.runChoice_simulated hvisits merge rest hrest hattempts' hfrom hdetach hcalls

end

/-! ## Calls -/

/-- **More depth keeps every result.**  Besides, no call goes back, and none says anything but what
is written in the grammar. -/
theorem Grammar.calls_simulated {grammar : Grammar α} (hvisits : KeptByVisits related)
    (hsaid : ∀ observation ∈ grammar.observations, said observation) {depth more : Nat}
    (hle : depth ≤ more) {start : Cursor α} (hdetach : Detachable said start) :
    CallsSimulated related said (grammar.call depth) (grammar.call more) start := by
  induction depth generalizing more start with
  -- with no depth there is no result to keep
  | zero => exact fun place _ name => simulated_failure _
  | succ depth ih =>
      obtain ⟨more, rfl⟩ := Nat.exists_eq_add_one_of_ne_zero (Nat.ne_zero_of_lt hle)
      intro place hplace name
      have hdetach' := hdetach.later hplace
      unfold Grammar.call
      cases hlookup : grammar.rules.lookup name with
      | none => exact simulated_pure ⟨.refl place, fun _ hnone => absurd hnone List.not_mem_nil⟩
      | some step =>
          apply step.run_simulated hvisits
          · intro observation hobservation
            exact hsaid observation (observations_of_lookup hlookup hobservation)
          · exact hdetach'
          · exact ih (Nat.le_of_succ_le_succ hle) hdetach'

/-- **A parse does not go back**, and says nothing but what is written in its step and its grammar,
give or take a position. -/
theorem Grammar.from_of_result? {grammar : Grammar α} {step : Step α} {start : Cursor α}
    {outcome : Outcome α Value} {visits : List Visit}
    (hsaid : ∀ observation ∈ step.observations ++ grammar.observations, said observation)
    (hdetach : Detachable said start)
    (hresult : Run.result? (grammar.run step start) = some (outcome, visits)) :
    outcome.From said start := by
  obtain ⟨hstep, hgrammar⟩ := List.forall_mem_append.mp hsaid
  have hcalls :=
    calls_simulated keptByVisits_eq hgrammar (Nat.le_refl (grammar.depth start)) hdetach
  obtain ⟨⟨outcome', log⟩, hrun, hpair⟩ := Option.map_eq_some_iff.mp hresult
  obtain ⟨rfl, -⟩ := Prod.mk.inj hpair
  exact (step.run_simulated keptByVisits_eq hstep hdetach hcalls [] [] rfl _ _ hrun).1

end ParseOutcome
