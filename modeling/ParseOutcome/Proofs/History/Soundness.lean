import ParseOutcome.Proofs.History.Basic
import ParseOutcome.Proofs.Sample

/-!
# What holds of every object

Whatever a program obtains, in any history of calls, is well formed: a cursor stands
within a source that the program opened, and an observation says exactly what the program
gave it to say, which is never blank, with no label listed twice.

Nothing but the arguments of a call decides whether it is refused, and a refused call gives
nothing and changes nothing.

Where the parts of an object come from is a question about one call at a time.  What every call
makes from its arguments, a whole history makes from the arguments of its calls
(`given_of_mem_obtained`), be it the sources or the texts.
-/

namespace ParseOutcome

open Sample

universe u

/-- What the calls of a history have given back, latest first. -/
def obtained (calls : List Call) : List Object :=
  calls.filterMap fun call => call.result.toOption

/-- Every call takes cursors and observations that earlier calls have given back. -/
def IsHistory : List Call → Prop
  | [] => True
  | call :: earlier =>
      IsHistory earlier ∧
        call.takes.flatMap Object.cursors ⊆ (obtained earlier).flatMap Object.cursors ∧
        call.takes.flatMap Object.observations ⊆ (obtained earlier).flatMap Object.observations

def Call.Accepted (call : Call) : Prop :=
  ∃ object, call.result = .ok object

/-- What holds of an object that the calls of a history gave back. -/
structure Object.IsSound (calls : List Call) (object : Object) : Prop where
  position_le_length : ∀ cursor ∈ object.cursors, cursor.2.position ≤ cursor.2.source.length
  source_given : ∀ cursor ∈ object.cursors,
    ∃ call ∈ calls, call.Accepted ∧ cursor.source ∈ call.opened
  message_not_blank : ∀ observation ∈ object.observations,
    ∃ c ∈ observation.message.toList, Blank.isBlank c = false
  expectations_nodup : ∀ observation ∈ object.observations, observation.expectations.Nodup
  text_given : ∀ observation ∈ object.observations,
    ∃ call ∈ calls, call.Accepted ∧ (observation.message, observation.expectations) ∈ call.said

variable {call : Call} {calls earlier : List Call} {object : Object} {misuse : Misuse}

/-! ## One more call -/

theorem obtained_of_ok (accepted : call.result = .ok object) :
    obtained (call :: calls) = object :: obtained calls := by
  simp [obtained, accepted, Except.toOption]

theorem obtained_of_error (refused : call.result = .error misuse) :
    obtained (call :: calls) = obtained calls := by
  simp [obtained, refused, Except.toOption]

theorem mem_obtained_cons :
    object ∈ obtained (call :: calls) ↔ call.result = .ok object ∨ object ∈ obtained calls := by
  cases hresult : call.result with
  | ok made => simp [obtained_of_ok hresult, eq_comm]
  | error misuse => simp [obtained_of_error hresult]

theorem IsHistory.sources_known (history : IsHistory (call :: earlier)) :
    call.takes.flatMap Object.sources ⊆ (obtained earlier).flatMap Object.sources := by
  have hknown := List.map_subset AnyCursor.source history.2.1
  rwa [List.map_flatMap, List.map_flatMap] at hknown

theorem IsHistory.texts_known (history : IsHistory (call :: earlier)) :
    call.takes.flatMap Object.texts ⊆ (obtained earlier).flatMap Object.texts := by
  have hknown := List.map_subset
    (fun observation : Observation => (observation.message, observation.expectations))
    history.2.2
  rwa [List.map_flatMap, List.map_flatMap] at hknown

/-! ## A whole history -/

/-- If what objects are made of comes from what a call is given or from what it takes, then
in a history all of it has been given to some call. -/
theorem given_of_mem_obtained {γ : Type u} {parts : Object → List γ} {given : Call → List γ}
    (step : ∀ {call object}, call.result = .ok object →
      parts object ⊆ given call ++ call.takes.flatMap parts)
    (known : ∀ {call earlier}, IsHistory (call :: earlier) →
      call.takes.flatMap parts ⊆ (obtained earlier).flatMap parts)
    (history : IsHistory calls) (hobject : object ∈ obtained calls) {part : γ}
    (hpart : part ∈ parts object) :
    ∃ call ∈ calls, call.Accepted ∧ part ∈ given call := by
  -- by induction on the history: the last call was given the part or took it, and what it took
  -- was made by an earlier call
  induction calls generalizing object with
  | nil => simp [obtained] at hobject
  | cons call earlier ih =>
      have hearlier {object : Object} (hobject : object ∈ obtained earlier)
          (hpart : part ∈ parts object) :
          ∃ call' ∈ call :: earlier, call'.Accepted ∧ part ∈ given call' := by
        obtain ⟨giver, hgiver, hgiven⟩ := ih history.1 hobject hpart
        exact ⟨giver, List.mem_cons_of_mem _ hgiver, hgiven⟩
      rcases mem_obtained_cons.mp hobject with hresult | hobject
      · rcases List.mem_append.mp (step hresult hpart) with hgiven | htaken
        · exact ⟨call, List.mem_cons_self, ⟨object, hresult⟩, hgiven⟩
        · obtain ⟨maker, hmaker, hpart⟩ := List.mem_flatMap.mp (known history htaken)
          exact hearlier hmaker hpart
      · exact hearlier hobject hpart

theorem isSound_of_mem_obtained (history : IsHistory calls) (hobject : object ∈ obtained calls) :
    object.IsSound calls where
  position_le_length := by
    intro cursor hcursor
    exact cursor.2.position_le_length
  source_given := by
    intro cursor hcursor
    exact given_of_mem_obtained Call.sources_subset IsHistory.sources_known history hobject
      (List.mem_map_of_mem hcursor)
  message_not_blank := by
    intro observation hobservation
    exact Blank.isBlankText_eq_false_iff.mp observation.message_not_blank
  expectations_nodup := by
    intro observation hobservation
    exact observation.expectations_nodup
  text_given := by
    intro observation hobservation
    exact given_of_mem_obtained Call.texts_subset IsHistory.texts_known history hobject
      (List.mem_map_of_mem hobservation)

/-- **Every object of every history is well formed.**  A call is refused exactly when it is
misused, and then gives nothing and leaves all objects as they were. -/
theorem objects_of_history (history : IsHistory calls) :
    (∀ object ∈ obtained calls, object.IsSound calls) ∧
      (∀ (call : Call) (misuse : Misuse),
        call.result = .error misuse ↔ call.Misused misuse) ∧
      ∀ (call : Call) (misuse : Misuse), call.result = .error misuse →
        obtained (call :: calls) = obtained calls := by
  refine ⟨?_, ?_, ?_⟩
  · intro object hobject
    exact isSound_of_mem_obtained history hobject
  · intro call misuse
    exact Call.result_eq_error_iff
  · intro call misuse refused
    exact obtained_of_error refused

/-! ## A history with two refused calls -/

/-- What is missing has a blank at its end, which the message keeps. -/
def numberMissing : Observation :=
  missing "number " ["number"] (by simp)

def afterOne : Cursor UInt8 :=
  atBracket.advance 2

def bracketCalls : List Call :=
  [.onFailure (.failed afterOne [numberMissing.detach afterOne])
      fun reached => .succeeded 7 reached.remainder reached.observations,
    .succeed 7 afterOne [numberMissing.detach afterOne],
    .fail Nat afterOne [numberMissing.detach afterOne],
    .detach numberMissing afterOne,
    .observe .error "\t" ["number"],
    .place atBracket.source 4,
    .advance atBracket 2,
    .observe .error "no number " ["number", "number"],
    .origin atBracket.source]

theorem bracketCalls_isHistory : IsHistory bracketCalls := by
  have hmade : Observation.ofSeverity .error "no number " ["number", "number"] =
      .ok numberMissing := rfl
  have hblank : Observation.ofSeverity .error "\t" ["number"] = .error .emptyMessage := rfl
  have hbeyond : Cursor.ofPosition atBracket.source 4 = .error (.positionOutOfBounds 4 3) := rfl
  have horigin : Cursor.origin atBracket.source = atBracket := rfl
  have hadvance : atBracket.advance 2 = afterOne := rfl
  simp [bracketCalls, IsHistory, obtained, Call.takes, Call.result, Object.cursors,
    Object.observations, Outcome.remainder, Outcome.observations, Outcome.hasValue, hmade, hblank,
    hbeyond, horigin, hadvance, Except.map, Except.toOption]

theorem objects_of_bracketCalls :
    IsHistory bracketCalls ∧
      (∀ object ∈ obtained bracketCalls, object.IsSound bracketCalls) ∧
      (Call.observe .error "\t" ["number"]).result = .error .emptyMessage ∧
      (Call.place atBracket.source 4).result = .error (.positionOutOfBounds 4 3) := by
  obtain ⟨hsound, hrefused, -⟩ := objects_of_history bracketCalls_isHistory
  refine ⟨bracketCalls_isHistory, hsound, (hrefused _ _).mpr ?_, (hrefused _ _).mpr ?_⟩
  · exact ⟨Blank.isBlankText_eq_true_iff.mp rfl, rfl⟩
  · exact ⟨by decide, rfl⟩

end ParseOutcome
