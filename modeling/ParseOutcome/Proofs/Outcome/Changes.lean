import ParseOutcome.Outcome.Continuation

/-!
# Maps and observations in any order

An outcome is changed by mapping its value and by adding observations.  However maps and
observations are interleaved, the outcome stays a success or a failure at the same remainder.
The observations are added at the end, in order, and the value of a success goes through all
the maps, each of which is called once; none is called on a failure.

The maps are numbered, and map `i` takes a value of type `T i` to one of type `T (i + 1)`, so
the type may change with every map.  The observations are numbered as well, so an interleaving
only has to say of which kind each change is.  What an interleaving comes to is told by the
number of its maps and its observations alone (`changed`), and each change counts one of the two
up.
-/

namespace ParseOutcome.Outcome

/-- An order in which so many maps and so many observations follow on each other. -/
inductive Interleaving : Nat → Nat → Type where
  | nil : Interleaving 0 0
  | map {maps notes : Nat} (before : Interleaving maps notes) : Interleaving (maps + 1) notes
  | note {maps notes : Nat} (before : Interleaving maps notes) : Interleaving maps (notes + 1)

/-- A map that was called, and the value it was called on. -/
structure MapCall (T : Nat → Type) where
  index : Nat
  argument : T index

variable {α : Type} {T : Nat → Type} {maps notes : Nat}

/-- An outcome changed by maps and observations in the given order. -/
def change (f : ∀ i, T i → T (i + 1)) (note : Nat → Observation) (outcome : Outcome α (T 0)) :
    {maps notes : Nat} → Interleaving maps notes → Outcome α (T maps)
  | _, _, .nil => outcome
  | i + 1, _, .map before => (outcome.change f note before).map (f i)
  | _, i + 1, .note before => (outcome.change f note before).withObservation (note i)

/-- An outcome changed in the given order by maps that may act, and by observations. -/
def changeM {m : Type → Type} [Monad m] (f : ∀ i, T i → m (T (i + 1)))
    (note : Nat → Observation) (outcome : Outcome α (T 0)) :
    {maps notes : Nat} → Interleaving maps notes → m (Outcome α (T maps))
  | _, _, .nil => pure outcome
  | i + 1, _, .map before => do (← outcome.changeM f note before).mapM (f i)
  | _, i + 1, .note before => do
      return (← outcome.changeM f note before).withObservation (note i)

/-- The maps, each of which records the calls of it. -/
def recorded (f : ∀ i, T i → T (i + 1)) (i : Nat) (argument : T i) :
    StateM (List (MapCall T)) (T (i + 1)) := do
  modify fun earlier => earlier ++ [⟨i, argument⟩]
  return f i argument

/-! ## What the changes come to -/

/-- The image of a value under the first `count` maps, one after another. -/
def image (f : ∀ i, T i → T (i + 1)) (value : T 0) : (count : Nat) → T count
  | 0 => value
  | count + 1 => f count (image f value count)

/-- The calls of the first `count` maps, each once and in order, on the image of the value under
those before it; none if there is no value. -/
def calls (f : ∀ i, T i → T (i + 1)) (count : Nat) (value? : Option (T 0)) : List (MapCall T) :=
  value?.elim [] fun value => (List.range count).map fun i => ⟨i, image f value i⟩

/-- An outcome whose value has gone through the first `count` maps, with some observations
added at the end. -/
def changed (f : ∀ i, T i → T (i + 1)) (count : Nat) (added : List Observation) :
    Outcome α (T 0) → Outcome α (T count)
  | succeeded value remainder observations =>
      succeeded (image f value count) remainder (observations ++ added)
  | failed remainder observations => failed remainder (observations ++ added)

section Step

variable (f : ∀ i, T i → T (i + 1)) (count : Nat) (added : List Observation)
  (outcome : Outcome α (T 0))

theorem hasValue_changed : (changed f count added outcome).hasValue = outcome.hasValue := by
  cases outcome <;> rfl

theorem remainder_changed : (changed f count added outcome).remainder = outcome.remainder := by
  cases outcome <;> rfl

theorem observations_changed :
    (changed f count added outcome).observations = outcome.observations ++ added := by
  cases outcome <;> rfl

theorem errors_changed :
    (changed f count added outcome).errors =
      outcome.errors ++ added.filter Observation.isError := by
  rw [errors, observations_changed, List.filter_append, errors]

theorem value?_changed :
    (changed f count added outcome).value? =
      outcome.value?.map (fun value => image f value count) := by
  cases outcome <;> rfl

theorem map_changed :
    (changed f count added outcome).map (f count) = changed f (count + 1) added outcome := by
  cases outcome <;> rfl

theorem withObservation_changed (observation : Observation) :
    (changed f count added outcome).withObservation observation =
      changed f count (added ++ [observation]) outcome := by
  cases outcome <;> simp [changed, withObservation]

theorem run_mapM_changed :
    ((changed f count added outcome).mapM (recorded f count)).run
        (calls f count outcome.value?) =
      (changed f (count + 1) added outcome, calls f (count + 1) outcome.value?) := by
  cases outcome with
  | succeeded value remainder observations =>
      simp only [calls, value?, Option.elim_some, List.range_succ, List.map_append]
      rfl
  | failed remainder observations => rfl

end Step

theorem map_range_succ (note : Nat → Observation) (count : Nat) :
    (List.range (count + 1)).map note = (List.range count).map note ++ [note count] := by
  simp [List.range_succ]

/-- **An interleaving comes to as many maps and observations as it has.** -/
theorem change_eq (f : ∀ i, T i → T (i + 1)) (note : Nat → Observation)
    (outcome : Outcome α (T 0)) (order : Interleaving maps notes) :
    outcome.change f note order = changed f maps ((List.range notes).map note) outcome := by
  induction order with
  | nil => cases outcome <;> simp [change, changed, image]
  | map before ih => rw [change, ih, map_changed]
  | note before ih => rw [change, ih, withObservation_changed, map_range_succ]

/-- **An interleaving calls each of its maps once, in order, and none on a failure.** -/
theorem run_changeM (f : ∀ i, T i → T (i + 1)) (note : Nat → Observation)
    (outcome : Outcome α (T 0)) (order : Interleaving maps notes) :
    (outcome.changeM (recorded f) note order).run [] =
      (outcome.change f note order, calls f maps outcome.value?) := by
  -- the calls of the maps before the last change are in the log already, and a map adds one
  induction order with
  | nil => cases outcome <;> rfl
  | map before ih =>
      rw [changeM, StateT.run_bind, ih, change, change_eq, map_changed]
      exact run_mapM_changed f _ _ outcome
  | note before ih =>
      rw [changeM, StateT.run_bind, ih, change]
      rfl

/-! ## Laws of single changes -/

variable {U V W : Type}

theorem map_map (outcome : Outcome α U) (f : U → V) (g : V → W) :
    (outcome.map f).map g = outcome.map (g ∘ f) := by
  cases outcome <;> rfl

theorem map_id (outcome : Outcome α U) : outcome.map id = outcome := by
  cases outcome <;> rfl

theorem map_withObservation (outcome : Outcome α U) (observation : Observation) (f : U → V) :
    (outcome.withObservation observation).map f =
      (outcome.map f).withObservation observation := by
  cases outcome <;> rfl

/-- **Maps and observations may be interleaved at will.**  An outcome stays a success or a
failure, at its remainder.  The observations are added at the end, in order, and those that are
errors are added to its errors.  The value of a success goes through all maps, each of which is
called once, in order, on what the one before it made of the value; no map is called on a
failure.  All interleavings of the same maps and observations come to the same and make the same
calls.  So maps in a row make one map, the identity changes nothing, and a map and an
observation may change places. -/
theorem interleaved_changes (f : ∀ i, T i → T (i + 1)) (note : Nat → Observation)
    (outcome : Outcome α (T 0)) (order : Interleaving maps notes) :
    (outcome.change f note order).hasValue = outcome.hasValue ∧
      (outcome.change f note order).remainder = outcome.remainder ∧
      (outcome.change f note order).observations =
        outcome.observations ++ (List.range notes).map note ∧
      (outcome.change f note order).errors =
        outcome.errors ++ ((List.range notes).map note).filter
          (fun observation => decide (observation.severity = .error)) ∧
      (outcome.change f note order).value? = outcome.value?.map (fun value => image f value maps) ∧
      (outcome.changeM (recorded f) note order).run [] =
        (outcome.change f note order, calls f maps outcome.value?) ∧
      (∀ order' : Interleaving maps notes,
        (outcome.changeM (recorded f) note order').run [] =
          (outcome.changeM (recorded f) note order).run []) ∧
      (∀ {U V W : Type} (outcome : Outcome α U) (f : U → V) (g : V → W),
        (outcome.map f).map g = outcome.map (g ∘ f)) ∧
      (∀ {U : Type} (outcome : Outcome α U), outcome.map id = outcome) ∧
      ∀ {U V : Type} (outcome : Outcome α U) (observation : Observation) (f : U → V),
        (outcome.withObservation observation).map f =
          (outcome.map f).withObservation observation := by
  have hchange := change_eq f note outcome order
  refine ⟨?_, ?_, ?_, ?_, ?_, run_changeM f note outcome order, ?_, map_map, map_id,
    map_withObservation⟩
  · rw [hchange, hasValue_changed]
  · rw [hchange, remainder_changed]
  · rw [hchange, observations_changed]
  · rw [hchange]
    exact errors_changed f maps _ outcome
  · rw [hchange, value?_changed]
  · intro order'
    rw [run_changeM, run_changeM, change_eq, change_eq]

end ParseOutcome.Outcome
