import Mathlib.Data.List.DropRight
import ParseOutcome.Outcome.Report
import ParseOutcome.Proofs.Lines.Rows
import ParseOutcome.Proofs.Sample

/-!
# What is shown depends on what is near

The short form of an outcome tells no more than its value, or the last ten symbols before
the remainder, and the messages.  The report tells, besides, the location of the remainder
and the lines around it.  So two outcomes that agree in this much are shown alike, whatever
else their observations say and whatever the rest of their sources holds.

Each part of a text is compared by itself: the headline, the messages, the location, the
rows.  The rows need an argument.  They are made from the numbered lines within reach, and
of two sources with the same lines there, the same lines are in reach (`nearby_congr`).
-/

namespace ParseOutcome

open Context

variable {α T U : Type}

/-! ## The short form -/

/-- What stands before a cursor. -/
def Cursor.consumed (cursor : Cursor α) : List α :=
  cursor.source.symbols.take cursor.position

theorem Cursor.slice_eq_rtake (cursor : Cursor α) (count : Nat) :
    cursor.slice (cursor.position - count) cursor.position = cursor.consumed.rtake count := by
  have hlength : cursor.consumed.length = cursor.position :=
    List.length_take_of_le cursor.position_le_length
  rw [List.rtake, hlength]
  rfl

variable [Symbol α]

namespace Outcome

theorem recentlyConsumed_eq (outcome : Outcome α T) :
    outcome.recentlyConsumed = Symbol.render (outcome.remainder.consumed.rtake 10) := by
  rw [recentlyConsumed, Cursor.slice_eq_rtake]
  rfl

variable [ToString T] [ToString U] {first : Outcome α T} {second : Outcome α U}

theorem headline_of_value? {outcome : Outcome α T} {value : T}
    (hvalue : outcome.value? = some value) :
    outcome.headline = "Successfully parsed value: " ++ toString value ++ "." := by
  rw [headline, hvalue]

theorem headline_of_failed {outcome : Outcome α T} (hfailed : outcome.hasValue = false) :
    outcome.headline =
      "Parsing failure. Recently consumed: '" ++ outcome.recentlyConsumed ++ "'." := by
  rw [eq_failed_of_hasValue hfailed]
  rfl

theorem display_congr (hheadline : first.headline = second.headline)
    (hmessages : first.observations.map Observation.message =
      second.observations.map Observation.message) : first.display = second.display := by
  have hlines : (first.observations.map fun observation => "\n" ++ observation.display) =
      second.observations.map fun observation => "\n" ++ observation.display := by
    have hnewlines := congrArg (List.map fun message => "\n" ++ message) hmessages
    rwa [List.map_map, List.map_map] at hnewlines
  rw [display, display, hheadline, hlines]

end Outcome

/-! ## The rows -/

variable [DecidableEq α]

namespace Context

/-- Whether two runs of symbols have the same lines within reach of a line. -/
def SameNear (target : Nat) (symbols symbols' : List α) : Prop :=
  ∀ number, 1 ≤ number → target ≤ number + 2 → number ≤ target + 2 →
    (lines symbols)[number - 1]? = (lines symbols')[number - 1]?

variable {target : Nat} {symbols symbols' : List α}

theorem nearby_congr (hsame : SameNear target symbols symbols') :
    nearby target symbols = nearby target symbols' := by
  refine eq_of_mem_iff (pairwise_nearby _ _) (pairwise_nearby _ _) fun entry => ?_
  rw [mem_nearby, mem_nearby]
  constructor
  · rintro ⟨hpos, hline, hlow, hhigh⟩
    exact ⟨hpos, (hsame _ hpos hlow hhigh).symm.trans hline, hlow, hhigh⟩
  · rintro ⟨hpos, hline, hlow, hhigh⟩
    exact ⟨hpos, (hsame _ hpos hlow hhigh).trans hline, hlow, hhigh⟩

theorem rowsAt_congr {location : Location} (hsame : SameNear location.line symbols symbols') :
    rowsAt location symbols = rowsAt location symbols' := by
  rw [rowsAt, rowsAt, nearby_congr hsame]

end Context

/-! ## The report -/

namespace Outcome

variable [ToString T] [ToString U]

theorem report_congr {first : Outcome α T} {second : Outcome α U}
    (hdisplay : first.display = second.display) (hlocation : first.location = second.location)
    (hsame : SameNear first.location.line first.remainder.source.symbols
      second.remainder.source.symbols) :
    first.report = second.report := by
  have hcontext : first.context = second.context := by
    calc first.context
        = rowsAt first.location first.remainder.source.symbols := rfl
      _ = rowsAt first.location second.remainder.source.symbols := rowsAt_congr hsame
      _ = rowsAt second.location second.remainder.source.symbols := by rw [hlocation]
      _ = second.context := rfl
  rw [report, report, hdisplay, hlocation, hcontext]

/-- **An outcome is shown by what is near.**  Take two outcomes with the same messages.  If
both failed, and the last ten symbols before their remainders are the same, or as many as
there are, their short forms are the same.  So they are if both succeeded, with values that
are shown alike.  And outcomes with the same short form have the same report, if their
remainders have the same location, and the same lines are within two lines of it. -/
theorem shown_by_what_is_near (first : Outcome α T) (second : Outcome α U)
    (hmessages : first.observations.map Observation.message =
      second.observations.map Observation.message) :
    (first.hasValue = false → second.hasValue = false →
        first.remainder.consumed.rtake 10 = second.remainder.consumed.rtake 10 →
        first.display = second.display) ∧
      (∀ value value', first.value? = some value → second.value? = some value' →
        toString value = toString value' → first.display = second.display) ∧
      (first.display = second.display → first.location = second.location →
        SameNear first.location.line first.remainder.source.symbols
          second.remainder.source.symbols →
        first.report = second.report) := by
  refine ⟨?_, ?_, ?_⟩
  · intro hfirst hsecond hwindow
    refine display_congr ?_ hmessages
    rw [headline_of_failed hfirst, headline_of_failed hsecond, recentlyConsumed_eq,
      recentlyConsumed_eq, hwindow]
  · intro value value' hvalue hvalue' hshown
    refine display_congr ?_ hmessages
    rw [headline_of_value? hvalue, headline_of_value? hvalue', hshown]
  · exact report_congr

/-! ## One place amid different lines -/

/-- The lines `b`, `c`, `defghi`, `j` and `k`, after one line and before another. -/
def amid (before after : List UInt8) : Source UInt8 :=
  Source.ofBuffer before.length
    (before ++ [10, 98, 10, 99, 10, 100, 101, 102, 103, 104, 105, 10, 106, 10, 107, 10] ++ after)

/-- A failure at the end of the fourth line. -/
def failedAmidShort : Outcome UInt8 Nat :=
  .failed ⟨amid [97] [109], 12, by decide⟩ [Sample.no "digit"]

/-- Another, of another severity, with a position of its own and nothing expected. -/
def failedAmidLong : Outcome UInt8 String :=
  .failed ⟨amid [120, 121, 122] [], 14, by decide⟩
    [((Sample.missing "digit" [] List.nodup_nil).withSeverity .info).pin 0]

/-- A number, read where the first failure is. -/
def succeededShort : Outcome UInt8 Nat :=
  .succeeded 7 failedAmidShort.remainder failedAmidShort.observations

/-- A text that is shown like the number, read where the second failure is. -/
def succeededLong : Outcome UInt8 String :=
  .succeeded "7" failedAmidLong.remainder failedAmidLong.observations

theorem shown_alike_amid_lines :
    failedAmidShort.observations.map Observation.message =
        failedAmidLong.observations.map Observation.message ∧
      failedAmidShort.remainder.source.symbols ≠ failedAmidLong.remainder.source.symbols ∧
      failedAmidShort.display = failedAmidLong.display ∧
      failedAmidShort.report = failedAmidLong.report ∧
      succeededShort.display = succeededLong.display ∧
      succeededShort.report = succeededLong.report := by
  obtain ⟨hfailed, -, hreport⟩ := shown_by_what_is_near failedAmidShort failedAmidLong rfl
  obtain ⟨-, hsucceeded, hreport'⟩ := shown_by_what_is_near succeededShort succeededLong rfl
  have hdisplay := hfailed rfl rfl (by decide)
  have hdisplay' := hsucceeded 7 "7" rfl rfl rfl
  have hlocation : failedAmidShort.location = failedAmidLong.location := by decide
  have hsame : SameNear failedAmidShort.location.line failedAmidShort.remainder.source.symbols
      failedAmidLong.remainder.source.symbols := by
    intro number _ hlow hhigh
    have hline : failedAmidShort.location.line = 4 := by decide
    have hnumber : number = 2 ∨ number = 3 ∨ number = 4 ∨ number = 5 ∨ number = 6 := by omega
    rcases hnumber with rfl | rfl | rfl | rfl | rfl <;> decide
  exact ⟨rfl, by decide, hdisplay, hreport hdisplay hlocation hsame, hdisplay',
    hreport' hdisplay' hlocation hsame⟩

end Outcome

end ParseOutcome
