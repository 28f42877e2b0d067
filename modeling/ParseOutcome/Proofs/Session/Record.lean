import ParseOutcome.Proofs.Grammar.Simulation
import ParseOutcome.Proofs.History.Soundness
import ParseOutcome.Proofs.Observation.Mentions

/-!
# Calls on record

What a session keeps has been made by calls, and the calls are on record as a history: one that
opens no sources but those of the session, and says nothing but what is written in the script or
the grammar.  The record only grows.  An object may be kept, then, if the record can be carried on
until the object has been obtained (`Obtainable`).

Most commands are one call.  A parse is many, and the record does not follow it step by step.  It
is enough to know where the outcome of a parse may be and what it may say
(`Grammar.from_of_result?`): the cursor is reached by advancing, and every observation is one that
is written, or such a one detached to a place on the way.
-/

namespace ParseOutcome

universe u v

variable {α : Type}

/-- A history that opens and says nothing but what it is given. -/
structure Recorded (sources : List (Source α)) (written : List Observation) (calls : List Call) :
    Prop where
  isHistory : IsHistory calls
  opened : ∀ call ∈ calls, ∀ source ∈ call.opened, ∃ given ∈ sources, source = ⟨α, given⟩
  said : ∀ call ∈ calls, ∀ text ∈ call.said,
    ∃ observation ∈ written, text = (observation.message, observation.expectations)

/-- Whether a record can be carried on until the objects have been obtained. -/
def Obtainable (sources : List (Source α)) (written : List Observation) (calls : List Call)
    (objects : List Object) : Prop :=
  ∃ later, calls <:+ later ∧ Recorded sources written later ∧
    ∀ object ∈ objects, object ∈ obtained later

variable {sources : List (Source α)} {written : List Observation} {calls later : List Call}
  {object : Object} {objects : List Object}

theorem obtained_subset (hlater : calls <:+ later) : obtained calls ⊆ obtained later :=
  (hlater.filterMap _).subset

theorem Obtainable.of_later (hobtainable : Obtainable sources written later objects)
    (hlater : calls <:+ later) : Obtainable sources written calls objects := by
  obtain ⟨last, hlast, hrecorded, hobjects⟩ := hobtainable
  exact ⟨last, hlater.trans hlast, hrecorded, hobjects⟩

theorem Recorded.obtainable_of_mem (recorded : Recorded sources written calls)
    (hobject : object ∈ obtained calls) : Obtainable sources written calls [object] :=
  ⟨calls, List.suffix_refl calls, recorded, by simpa using hobject⟩

/-- Objects are obtainable together if each is, whatever has been obtained in the meantime. -/
theorem Recorded.obtainable_all (recorded : Recorded sources written calls)
    (heach : ∀ object ∈ objects, ∀ later, calls <:+ later → Recorded sources written later →
      Obtainable sources written later [object]) :
    Obtainable sources written calls objects := by
  induction objects generalizing calls with
  | nil => exact ⟨calls, List.suffix_refl calls, recorded, by simp⟩
  | cons object objects ih =>
      obtain ⟨hfirst, hrest⟩ := List.forall_mem_cons.mp heach
      obtain ⟨middle, hmiddle, hrecorded, hobject⟩ := hfirst calls (List.suffix_refl calls) recorded
      have hobjects := ih hrecorded fun other hother later hlater =>
        hrest other hother later (hmiddle.trans hlater)
      obtain ⟨later, hlater, hrecorded', hobtained⟩ := hobjects
      refine ⟨later, hmiddle.trans hlater, hrecorded', List.forall_mem_cons.mpr ⟨?_, hobtained⟩⟩
      exact obtained_subset hlater (List.forall_mem_singleton.mp hobject)

/-! ## One call more -/

/-- What is made of the items of a list is made of those of a longer one. -/
theorem flatMap_subset {β : Type u} {γ : Type v} {items items' : List β} (hsubset : items ⊆ items')
    (parts : β → List γ) : items.flatMap parts ⊆ items'.flatMap parts := by
  intro part hpart
  obtain ⟨item, hitem, hpart⟩ := List.mem_flatMap.mp hpart
  exact List.mem_flatMap.mpr ⟨item, hsubset hitem, hpart⟩

/-- A call that takes what has been obtained may be made next. -/
theorem Recorded.call (recorded : Recorded sources written calls) (call : Call)
    (hresult : call.result = .ok object) (htakes : call.takes ⊆ obtained calls)
    (hopened : ∀ source ∈ call.opened, ∃ given ∈ sources, source = ⟨α, given⟩)
    (hsaid : ∀ text ∈ call.said,
      ∃ observation ∈ written, text = (observation.message, observation.expectations)) :
    Obtainable sources written calls [object] := by
  refine ⟨call :: calls, List.suffix_cons call calls, ⟨?_, ?_, ?_⟩, ?_⟩
  · exact ⟨recorded.isHistory, flatMap_subset htakes _, flatMap_subset htakes _⟩
  · exact List.forall_mem_cons.mpr ⟨hopened, recorded.opened⟩
  · exact List.forall_mem_cons.mpr ⟨hsaid, recorded.said⟩
  · exact List.forall_mem_singleton.mpr (mem_obtained_cons.mpr (.inl hresult))

/-- Most calls open nothing and say nothing. -/
theorem Recorded.derive (recorded : Recorded sources written calls) (call : Call)
    (hresult : call.result = .ok object) (htakes : call.takes ⊆ obtained calls)
    (hopened : call.opened = []) (hsaid : call.said = []) :
    Obtainable sources written calls [object] := by
  apply recorded.call call hresult htakes
  · simp [hopened]
  · simp [hsaid]

theorem Obtainable.derive (hfirst : Obtainable sources written calls objects) (call : Call)
    (hresult : call.result = .ok object) (htakes : call.takes ⊆ objects ++ obtained calls)
    (hopened : call.opened = []) (hsaid : call.said = []) :
    Obtainable sources written calls [object] := by
  obtain ⟨later, hlater, hrecorded, hobjects⟩ := hfirst
  refine (hrecorded.derive call hresult ?_ hopened hsaid).of_later hlater
  exact List.Subset.trans htakes (List.append_subset.mpr ⟨hobjects, obtained_subset hlater⟩)

/-! ## What a parse comes to -/

/-- An observation that is written may be made anew: by saying what it says, and pinning it if it
has a position. -/
theorem Recorded.obtainable_written (recorded : Recorded sources written calls)
    {observation : Observation} (hwritten : observation ∈ written) :
    Obtainable sources written calls [.observation observation] := by
  -- an observation is made without a position, and pinned afterwards
  let unpinned : Observation := { observation with position := none }
  have hmade : Observation.ofSeverity observation.severity observation.message
      observation.expectations = .ok unpinned :=
    Observation.ofSeverity_eq_ok_iff.mpr
      ⟨rfl, rfl, (Expectation.distinct_of_nodup observation.expectations_nodup).symm, rfl⟩
  have hunpinned : Obtainable sources written calls [.observation unpinned] := by
    apply recorded.call
      (.observe observation.severity observation.message observation.expectations)
    · rw [Call.result, hmade]
      rfl
    · exact List.nil_subset _
    · simp [Call.opened]
    · intro text htext
      rw [Call.said, Expectation.distinct_of_nodup observation.expectations_nodup] at htext
      exact ⟨observation, hwritten, List.mem_singleton.mp htext⟩
  cases hposition : observation.position with
  | none =>
      have hsame : unpinned = observation := by
        cases observation
        subst hposition
        rfl
      rwa [hsame] at hunpinned
  | some position =>
      have hsame : unpinned.pin position = observation := by
        cases observation
        subst hposition
        rfl
      rw [← hsame]
      exact hunpinned.derive (.pin unpinned position) rfl (by simp [Call.takes]) rfl rfl

/-- Whether an observation is written, or is one that is written, detached on the way from
`start` on. -/
def Drawn (written : List Observation) (start : Cursor α) (observation : Observation) : Prop :=
  ∃ original ∈ written, observation = original ∨
    ∃ place, start.Precedes place ∧ observation = original.detach place

theorem drawn_of_mem {start : Cursor α} :
    ∀ observation ∈ written, Drawn written start observation :=
  fun observation hwritten => ⟨observation, hwritten, .inl rfl⟩

theorem detachable_drawn (written : List Observation) (start : Cursor α) :
    Detachable (Drawn written start) start := by
  rintro place hplace observation ⟨original, hwritten, rfl | ⟨earlier, hearlier, rfl⟩⟩
  · exact ⟨observation, hwritten, .inr ⟨place, hplace, rfl⟩⟩
  · -- it has a position by now, so it is not moved
    exact ⟨original, hwritten, .inr ⟨earlier, hearlier, Observation.detach_detach ..⟩⟩

theorem Recorded.obtainable_place (recorded : Recorded sources written calls)
    {start place : Cursor α} (hstart : .cursor start ∈ obtained calls)
    (hplace : start.Precedes place) : Obtainable sources written calls [.cursor place] := by
  obtain ⟨count, -, rfl⟩ := hplace.exists_advance
  exact recorded.derive (.advance start count) rfl (by simpa [Call.takes] using hstart) rfl rfl

theorem Recorded.obtainable_drawn (recorded : Recorded sources written calls) {start : Cursor α}
    (hstart : .cursor start ∈ obtained calls) {observation : Observation}
    (hdrawn : Drawn written start observation) :
    Obtainable sources written calls [.observation observation] := by
  obtain ⟨original, hwritten, rfl | ⟨place, hplace, rfl⟩⟩ := hdrawn
  · exact recorded.obtainable_written hwritten
  · have hboth : Obtainable sources written calls [.observation original, .cursor place] := by
      refine recorded.obtainable_all ?_
      intro object hobject later hlater hrecorded
      rcases List.mem_pair.mp hobject with rfl | rfl
      · exact hrecorded.obtainable_written hwritten
      · exact hrecorded.obtainable_place (obtained_subset hlater hstart) hplace
    exact hboth.derive (.detach original place) rfl (by simp [Call.takes]) rfl rfl

/-- **What a parse comes to may be kept**: its remainder is reached by advancing, its observations
are drawn from what is written, and the outcome is made from them. -/
theorem Recorded.obtainable_outcome (recorded : Recorded sources written calls) {start : Cursor α}
    (hstart : .cursor start ∈ obtained calls) {outcome : Outcome α Value}
    (hfrom : outcome.From (Drawn written start) start) :
    Obtainable sources written calls [.outcome outcome] := by
  -- first the parts, one by one, then the outcome from all of them
  have hparts : Obtainable sources written calls
      (.cursor outcome.remainder :: outcome.observations.map .observation) := by
    refine recorded.obtainable_all ?_
    intro object hobject later hlater hrecorded
    have hstart' := obtained_subset hlater hstart
    rcases List.mem_cons.mp hobject with rfl | hobject
    · exact hrecorded.obtainable_place hstart' hfrom.ahead
    · obtain ⟨observation, hobservation, rfl⟩ := List.mem_map.mp hobject
      exact hrecorded.obtainable_drawn hstart' (hfrom.observed observation hobservation)
  cases outcome with
  | succeeded value remainder observations =>
      exact hparts.derive (.succeed value remainder observations) rfl
        (List.subset_append_left _ _) rfl rfl
  | failed remainder observations =>
      exact hparts.derive (.fail Value remainder observations) rfl
        (List.subset_append_left _ _) rfl rfl

end ParseOutcome
