import ParseOutcome.Outcome.Continuation

/-!
# Histories of calls

A program makes cursors, observations and outcomes by calling operations, one after
another, on what earlier calls have given back.  Calls are listed in the order in which
they return, latest first.

A continuation is a function that is handed to a call.  When it is invoked it may make
calls of its own, and these return before the call that invokes it does.  So the outcome
that a continuation gives back is among the objects that the call takes, and has been
obtained before, by whatever calls the continuation made.

Symbols may be of several kinds in one history, and values of several types.

What one call adds to the sources and to the texts that are in use is read off its arguments
(`sources_subset`, `texts_subset`), and so is whether it is refused (`result_eq_error_iff`).
-/

namespace ParseOutcome

/-! ## Objects -/

/-- A cursor over a source of any kind of symbols. -/
abbrev AnyCursor : Type 1 := (α : Type) × Cursor α

def AnyCursor.source (cursor : AnyCursor) : (α : Type) × Source α :=
  ⟨cursor.1, cursor.2.source⟩

/-- What an operation gives back. -/
inductive Object : Type 1 where
  | cursor {α : Type} (cursor : Cursor α)
  | observation (observation : Observation)
  | outcome {α T : Type} (outcome : Outcome α T)

namespace Object

/-- The cursor that an object is, or that an outcome ends at. -/
def cursors : Object → List AnyCursor
  | .cursor place => [⟨_, place⟩]
  | .observation _ => []
  | .outcome reached => [⟨_, reached.remainder⟩]

/-- The observation that an object is, or those that an outcome carries. -/
def observations : Object → List Observation
  | .cursor _ => []
  | .observation remark => [remark]
  | .outcome reached => reached.observations

def sources (object : Object) : List ((α : Type) × Source α) :=
  object.cursors.map AnyCursor.source

/-- What the observations of an object say, and which labels they list. -/
def texts (object : Object) : List (String × List String) :=
  object.observations.map fun remark => (remark.message, remark.expectations)

end Object

/-! ## Calls -/

/-- A call of an operation. -/
inductive Call : Type 1 where
  | origin {α : Type} (source : Source α)
  | place {α : Type} (source : Source α) (position : Nat)
  | advance {α : Type} (cursor : Cursor α) (count : Nat)
  | next {α : Type} (cursor : Cursor α)
  | observe {β : Type} [Label β] (severity : Severity) (message : String) (labels : List β)
  | withSeverity (observation : Observation) (severity : Severity)
  | pin (observation : Observation) (position : Nat)
  | detach {α : Type} (observation : Observation) (stop : Cursor α)
  | succeed {α T : Type} (value : T) (stop : Cursor α) (observations : List Observation)
  | fail {α : Type} (T : Type) (stop : Cursor α) (observations : List Observation)
  | map {α T U : Type} (outcome : Outcome α T) (f : T → U)
  | withObservation {α T : Type} (outcome : Outcome α T) (observation : Observation)
  | onSuccess {α T U : Type} (outcome : Outcome α T) (goOn : Outcome α T → Outcome α U)
  | onFailure {α T : Type} (outcome : Outcome α T) (goOn : Outcome α T → Outcome α T)
  | remainder {α T : Type} (outcome : Outcome α T)

namespace Call

/-- What a call gives back, unless it is refused. -/
def result : Call → Except Misuse Object
  | .origin source => .ok (.cursor (Cursor.origin source))
  | .place source position => (Cursor.ofPosition source position).map .cursor
  | .advance cursor count => .ok (.cursor (cursor.advance count))
  | .next cursor => .ok (.cursor cursor.next)
  | @observe _ _ severity message labels =>
      (Observation.ofSeverity severity message labels).map .observation
  | .withSeverity observation severity => .ok (.observation (observation.withSeverity severity))
  | .pin observation position => .ok (.observation (observation.pin position))
  | .detach observation stop => .ok (.observation (observation.detach stop))
  | .succeed value stop observations => .ok (.outcome (.succeeded value stop observations))
  | .fail T stop observations => .ok (.outcome (T := T) (.failed stop observations))
  | .map outcome f => .ok (.outcome (outcome.map f))
  | .withObservation outcome observation =>
      .ok (.outcome (outcome.withObservation observation))
  | .onSuccess outcome goOn => .ok (.outcome (outcome.onSuccess goOn))
  | .onFailure outcome goOn => .ok (.outcome (outcome.onFailure goOn))
  | .remainder outcome => .ok (.cursor outcome.remainder)

/-- The objects that a call takes, and the outcome that its continuation gives back if
it is invoked. -/
def takes : Call → List Object
  | .origin _ | .place _ _ | @observe _ _ _ _ _ => []
  | .advance cursor _ | .next cursor => [.cursor cursor]
  | .withSeverity observation _ | .pin observation _ => [.observation observation]
  | .detach observation stop => [.observation observation, .cursor stop]
  | .succeed _ stop observations | .fail _ stop observations =>
      .cursor stop :: observations.map .observation
  | .map outcome _ | .remainder outcome => [.outcome outcome]
  | .withObservation outcome observation => [.outcome outcome, .observation observation]
  | .onSuccess outcome goOn =>
      .outcome outcome :: if outcome.hasValue then [.outcome (goOn outcome)] else []
  | .onFailure outcome goOn =>
      .outcome outcome :: if outcome.hasValue then [] else [.outcome (goOn outcome)]

/-- The source that a call makes a cursor over. -/
def opened : Call → List ((α : Type) × Source α)
  | .origin source | .place source _ => [⟨_, source⟩]
  | _ => []

/-- The message of the observation that a call makes, as it was given, and the distinct
labels. -/
def said : Call → List (String × List String)
  | @observe _ _ _ message labels => [(message, Expectation.distinct labels)]
  | _ => []

/-- The misuse for which a call is refused: a message with nothing in it but blanks, or
a position beyond the end of the source. -/
def Misused : Call → Misuse → Prop
  | .place source position, misuse =>
      source.length < position ∧ misuse = .positionOutOfBounds position source.length
  | @observe _ _ _ message _, misuse =>
      (∀ c ∈ message.toList, Blank.isBlank c = true) ∧ misuse = .emptyMessage
  | _, _ => False

/-! ## What one call does -/

theorem map_eq_ok_iff {γ : Type} {made : Except Misuse γ} {f : γ → Object} {object : Object} :
    made.map f = .ok object ↔ ∃ item, made = .ok item ∧ f item = object := by
  cases made <;> simp [Except.map]

theorem map_eq_error_iff {γ : Type} {made : Except Misuse γ} {f : γ → Object}
    {misuse : Misuse} : made.map f = .error misuse ↔ made = .error misuse := by
  cases made <;> simp [Except.map]

theorem result_eq_error_iff {call : Call} {misuse : Misuse} :
    call.result = .error misuse ↔ call.Misused misuse := by
  cases call with
  | place source position =>
      rw [result, map_eq_error_iff, Cursor.ofPosition_eq_error_iff, Misused]
  | observe severity message labels =>
      rw [result, map_eq_error_iff, Observation.ofSeverity_eq_error_iff,
        Blank.isBlankText_eq_true_iff, Misused]
  -- no other call is refused
  | _ => simp [result, Misused]

theorem result_place_eq_ok {α : Type} {source : Source α} {position : Nat} {object : Object}
    (hresult : (place source position).result = .ok object) :
    ∃ cursor : Cursor α, object = .cursor cursor ∧ cursor.source = source := by
  obtain ⟨cursor, hmade, hobject⟩ := map_eq_ok_iff.mp hresult
  exact ⟨cursor, hobject.symm, (Cursor.ofPosition_eq_ok_iff.mp hmade).1⟩

theorem result_observe_eq_ok {β : Type} [Label β] {severity : Severity} {message : String}
    {labels : List β} {object : Object}
    (hresult : (observe severity message labels).result = .ok object) :
    ∃ observation : Observation, object = .observation observation ∧
      observation.message = message ∧
      observation.expectations = Expectation.distinct labels := by
  obtain ⟨observation, hmade, hobject⟩ := map_eq_ok_iff.mp hresult
  obtain ⟨-, hmessage, hlabels, -⟩ := Observation.ofSeverity_eq_ok_iff.mp hmade
  exact ⟨observation, hobject.symm, hmessage, hlabels⟩

/-- A call makes cursors over the source it opens, or over those of the cursors it
takes. -/
theorem sources_subset {call : Call} {object : Object} (hresult : call.result = .ok object) :
    object.sources ⊆ call.opened ++ call.takes.flatMap Object.sources := by
  cases call with
  | place source position =>
      obtain ⟨cursor, rfl, rfl⟩ := result_place_eq_ok hresult
      simp [Object.sources, Object.cursors, AnyCursor.source, opened]
  | observe severity message labels =>
      obtain ⟨observation, rfl, -⟩ := result_observe_eq_ok hresult
      simp [Object.sources, Object.cursors]
  -- what a continuation gave back is among what the call takes, if it was invoked
  | onSuccess outcome goOn | onFailure outcome goOn =>
      obtain rfl := Except.ok.inj hresult
      cases outcome <;>
        simp [Object.sources, Object.cursors, takes, Outcome.onSuccess, Outcome.onFailure,
          Outcome.remainder, Outcome.hasValue]
  | succeed value stop observations | fail T stop observations =>
      obtain rfl := Except.ok.inj hresult
      simp [Object.sources, Object.cursors, takes, Outcome.remainder]
  | _ =>
      obtain rfl := Except.ok.inj hresult
      simp [Object.sources, Object.cursors, AnyCursor.source, opened, takes, Cursor.origin]

theorem texts_flatMap_observation (observations : List Observation) :
    (observations.map Object.observation).flatMap Object.texts =
      observations.map fun remark => (remark.message, remark.expectations) := by
  rw [List.flatMap_map, List.map_eq_flatMap]
  rfl

/-- A call makes observations that say what it was given to say, or what those it takes
say. -/
theorem texts_subset {call : Call} {object : Object} (hresult : call.result = .ok object) :
    object.texts ⊆ call.said ++ call.takes.flatMap Object.texts := by
  cases call with
  | place source position =>
      obtain ⟨cursor, rfl, -⟩ := result_place_eq_ok hresult
      simp [Object.texts, Object.observations]
  | observe severity message labels =>
      obtain ⟨observation, rfl, hmessage, hlabels⟩ := result_observe_eq_ok hresult
      simp [Object.texts, Object.observations, said, hmessage, hlabels]
  | onSuccess outcome goOn | onFailure outcome goOn =>
      obtain rfl := Except.ok.inj hresult
      cases outcome <;>
        simp [Object.texts, Object.observations, takes, Outcome.onSuccess, Outcome.onFailure,
          Outcome.observations, Outcome.hasValue]
  | succeed value stop observations | fail T stop observations =>
      obtain rfl := Except.ok.inj hresult
      rw [takes, List.flatMap_cons, texts_flatMap_observation]
      exact List.subset_append_of_subset_right _ (List.subset_append_right _ _)
  | _ =>
      obtain rfl := Except.ok.inj hresult
      simp [Object.texts, Object.observations, takes]

end Call

end ParseOutcome
