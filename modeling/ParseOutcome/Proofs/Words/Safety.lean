import ParseOutcome.Outcome.Report
import ParseOutcome.Proofs.History.Soundness
import ParseOutcome.Proofs.Words.Rows

/-!
# Nothing stops a machine

Whatever a program obtains, in any history of calls, a machine of 64-bit words can work with
it: no index or range is outside of a source, no sum is too great and no difference below
zero, and what the machine comes to is what the operations are said to come to.  Only to ask
for the value of an outcome that failed has no result, on a machine or not.

Sources hold fewer than `2 ^ 63` symbols, and the memory for texts is taken to be there.  The
operations that are not mentioned, on observations and on what comes after an outcome, neither
count nor take ranges.

Every cursor of a history is over a source that the program opened, which is small enough.  So
the machine is exact at the place of the cursor (`Cursor.exactOnWords`), which leaves for
an outcome to put the parts of its texts together.
-/

namespace ParseOutcome

open Sample

variable {α T : Type}

/-! ## Showing an outcome -/

namespace Word

variable [Symbol α]

/-- The last symbols before a place. -/
def recentlyConsumed (place : Place α) : Except Panic String := do
  let start := subCapped place.position 10
  let symbols ← place.slice start place.position
  return Symbol.render symbols

/-- What the outcome came to, in one sentence or two. -/
def headline [ToString T] (outcome : Outcome α T) : Except Panic String :=
  match outcome.value? with
  | some value => return "Successfully parsed value: " ++ toString value ++ "."
  | none => do
      let recent ← recentlyConsumed outcome.remainder.place
      return "Parsing failure. Recently consumed: '" ++ recent ++ "'."

/-- The short form: the headline, and each message on a line of its own. -/
def display [ToString T] (outcome : Outcome α T) : Except Panic String := do
  let first ← headline outcome
  return first ++
    String.join (outcome.observations.map fun observation => "\n" ++ observation.display)

variable [DecidableEq α]

/-- The location of a place. -/
def location (place : Place α) : Except Panic Spot :=
  locate place.source.symbols place.position

/-- The lines around a place. -/
def context (place : Place α) : Except Panic (List String) :=
  rows place.source.symbols place.position

/-- The long form: the short form, the location of the remainder, and the lines around it. -/
def report [ToString T] (outcome : Outcome α T) : Except Panic String := do
  let short ← display outcome
  let spot ← location outcome.remainder.place
  let around ← context outcome.remainder.place
  return short ++ "\n\nat " ++ spot.display ++ ":\n" ++ "\n".intercalate around

end Word

/-- What the machine does with an outcome: it works at the remainder, and shows what is to be
shown.  The value is refused after a failure, and only then. -/
structure Outcome.ExactOnWords (outcome : Outcome α T) : Prop where
  remainder_exact : outcome.remainder.ExactOnWords
  value_eq_error_iff : ∀ misuse : Misuse,
    outcome.value = .error misuse ↔ outcome.hasValue = false ∧ misuse = .noValue
  recentlyConsumed_eq : ∀ [Symbol α],
    Word.recentlyConsumed outcome.remainder.place = .ok outcome.recentlyConsumed
  location_eq : ∀ [DecidableEq α] [Symbol α],
    (Word.location outcome.remainder.place).map Spot.toLocation = .ok outcome.location
  context_eq : ∀ [DecidableEq α] [Symbol α],
    Word.context outcome.remainder.place = .ok outcome.context
  display_eq : ∀ [Symbol α] [ToString T], Word.display outcome = .ok outcome.display
  report_eq : ∀ [DecidableEq α] [Symbol α] [ToString T], Word.report outcome = .ok outcome.report

namespace Outcome

open Word

variable {outcome : Outcome α T}

theorem value_eq_error_iff {misuse : Misuse} :
    outcome.value = .error misuse ↔ outcome.hasValue = false ∧ misuse = .noValue := by
  cases outcome with
  | succeeded value remainder observations => simp [Outcome.value, hasValue]
  | failed remainder observations => simp [Outcome.value, hasValue, eq_comm]

theorem recentlyConsumed_place [Symbol α] (hfits : outcome.remainder.source.Fits) :
    Word.recentlyConsumed outcome.remainder.place = .ok outcome.recentlyConsumed := by
  have hposition := Cursor.toNat_position_place hfits.length_lt
  have hstart := toNat_subCapped outcome.remainder.place.position 10
  rw [Word.recentlyConsumed, Cursor.slice_place hfits, ok_bind, hstart, hposition]
  rfl

theorem exists_location_place [DecidableEq α] [Symbol α]
    (hfits : outcome.remainder.source.Fits) :
    ∃ spot, Word.location outcome.remainder.place = .ok spot ∧
      spot.toLocation = outcome.location := by
  have hposition := Cursor.toNat_position_place hfits.length_lt
  obtain ⟨spot, hlocate, hlocation, -⟩ :=
    exists_locate_eq_ok hfits outcome.remainder.place.position
  rw [hposition] at hlocation
  exact ⟨spot, hlocate, hlocation⟩

theorem context_place [DecidableEq α] [Symbol α] (hfits : outcome.remainder.source.Fits) :
    Word.context outcome.remainder.place = .ok outcome.context := by
  have hposition := Cursor.toNat_position_place hfits.length_lt
  have hrows := rows_eq_ok hfits outcome.remainder.place.position
  rw [hposition] at hrows
  exact hrows

theorem display_place [Symbol α] [ToString T] (hfits : outcome.remainder.source.Fits) :
    Word.display outcome = .ok outcome.display := by
  have hheadline : Word.headline outcome = .ok outcome.headline := by
    unfold Word.headline headline
    cases outcome.value? with
    | some value => rfl
    | none =>
        rw [recentlyConsumed_place hfits]
        rfl
  rw [Word.display, hheadline]
  rfl

theorem report_place [DecidableEq α] [Symbol α] [ToString T]
    (hfits : outcome.remainder.source.Fits) : Word.report outcome = .ok outcome.report := by
  obtain ⟨spot, hspot, hlocation⟩ := exists_location_place hfits
  have hdisplay : spot.display = outcome.location.display := hlocation ▸ rfl
  rw [Word.report, display_place hfits, ok_bind, hspot, ok_bind, context_place hfits, ok_bind,
    hdisplay]
  rfl

theorem exactOnWords (hfits : outcome.remainder.source.Fits) : outcome.ExactOnWords where
  remainder_exact := Cursor.exactOnWords hfits
  value_eq_error_iff := by
    intro misuse
    exact value_eq_error_iff
  recentlyConsumed_eq := recentlyConsumed_place hfits
  location_eq := by
    intro _ _
    obtain ⟨spot, hspot, hlocation⟩ := exists_location_place hfits
    rw [hspot, ← hlocation]
    rfl
  context_eq := context_place hfits
  display_eq := display_place hfits
  report_eq := report_place hfits

end Outcome

/-! ## Every object of a history -/

/-- What the machine does with an object.  An observation is but kept and shown. -/
def Object.ExactOnWords : Object → Prop
  | .cursor place => place.ExactOnWords
  | .observation _ => True
  | .outcome reached => reached.ExactOnWords

/-- An object is worked with exactly if its cursor is over a source that fits. -/
theorem Object.exactOnWords {object : Object}
    (hfits : ∀ cursor ∈ object.cursors, cursor.2.source.Fits) : object.ExactOnWords := by
  cases object with
  | cursor place => exact Cursor.exactOnWords (hfits ⟨_, place⟩ (by simp [cursors]))
  | observation remark => exact True.intro
  | outcome reached =>
      exact Outcome.exactOnWords (hfits ⟨_, reached.remainder⟩ (by simp [cursors]))

variable {calls : List Call}

theorem fits_of_mem_obtained (history : IsHistory calls)
    (hopened : ∀ call ∈ calls, ∀ source ∈ call.opened, source.2.Fits) {object : Object}
    (hobject : object ∈ obtained calls) :
    ∀ cursor ∈ object.cursors, cursor.2.source.Fits := by
  intro cursor hcursor
  obtain ⟨call, hcall, -, hsource⟩ :=
    (isSound_of_mem_obtained history hobject).source_given cursor hcursor
  exact hopened call hcall cursor.source hsource

/-- **Nothing stops a machine** of 64-bit words: whatever a program obtains, the machine comes
to exactly what the operations are said to come to, for every position and every count that is
a word.

The machine's own cursors, over a source that fits, are the places of cursors, and it locates
and shows every position, such as one that an observation is pinned to, within the source or
not. -/
theorem exact_on_words (history : IsHistory calls)
    (hopened : ∀ call ∈ calls, ∀ source ∈ call.opened, source.2.Fits) :
    (∀ object ∈ obtained calls, object.ExactOnWords) ∧
      (∀ {α : Type} (source : Source α), source.Fits →
        Place.origin source = (Cursor.origin source).place ∧
          (∀ position : UInt64, Place.ofPosition source position =
            (Cursor.ofPosition source position.toNat).map Cursor.place) ∧
          ∀ place : Place α, place.Reached source →
            ∃ cursor : Cursor α, cursor.source = source ∧ cursor.place = place ∧
              cursor.ExactOnWords) ∧
      ∀ {α : Type} [DecidableEq α] [Symbol α] (source : Source α) (position : UInt64),
        source.Fits →
        (Word.locate source.symbols position).map Spot.toLocation =
            .ok (Location.ofPosition source.symbols position.toNat) ∧
          Word.rows source.symbols position =
            .ok (Context.rows source.symbols position.toNat) := by
  refine ⟨?_, ?_, ?_⟩
  · -- what the history has obtained
    intro object hobject
    exact Object.exactOnWords (fits_of_mem_obtained history hopened hobject)
  · -- the places that the machine comes to by itself
    intro α source hfits
    refine ⟨rfl, Place.ofPosition_eq hfits, ?_⟩
    intro place hreached
    obtain ⟨cursor, rfl, hplace⟩ := hreached.exists_cursor hfits
    exact ⟨cursor, rfl, hplace, Cursor.exactOnWords hfits⟩
  · -- positions of no cursor, within the source or beyond
    intro α _ _ source position hfits
    obtain ⟨spot, hlocate, hlocation, -⟩ := Word.exists_locate_eq_ok hfits position
    refine ⟨?_, Word.rows_eq_ok hfits position⟩
    rw [hlocate, ← hlocation]
    rfl

/-- The sources of a history fit a machine, and the greatest word is located at the end of the
only one. -/
theorem exact_on_words_of_bracketCalls :
    IsHistory bracketCalls ∧
      (∀ call ∈ bracketCalls, ∀ source ∈ call.opened, source.2.Fits) ∧
      (∀ object ∈ obtained bracketCalls, object.ExactOnWords) ∧
      (Word.locate atBracket.source.symbols Word.greatest).map Spot.toLocation = .ok ⟨1, 3⟩ := by
  have hsource : atBracket.source.Fits := by
    unfold Source.Fits
    decide
  have hopened : ∀ call ∈ bracketCalls, ∀ source ∈ call.opened, source.2.Fits := by
    simp [bracketCalls, Call.opened, hsource]
  obtain ⟨hobjects, -, hpositions⟩ := exact_on_words bracketCalls_isHistory hopened
  exact ⟨bracketCalls_isHistory, hopened, hobjects,
    (hpositions atBracket.source Word.greatest hsource).1⟩

end ParseOutcome
