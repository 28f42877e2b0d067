import ParseOutcome.Proofs.Furthest.Basic
import ParseOutcome.Proofs.Lines.Increment
import ParseOutcome.Proofs.Sample

/-!
# The order of locations

Locations are ordered as a reader goes through a source, by line and within a line by offset.
This is the order of the positions, so no two positions have the same location.  For
observations with positions in one source, to be the furthest is therefore to have the latest
location.

From a position to a later one there is something to pass over.  If a newline is passed over,
the line grows; if not, the line stays and the offset grows by all that is passed over
(`before_ofPosition`).  The other direction needs no more than that, since any two positions
are in order one way or the other and locations cannot be before each other both ways.
-/

namespace ParseOutcome

open Sample

namespace Location

/-- Whether a location is before another: on an earlier line, or earlier on the same line. -/
def Before (first second : Location) : Prop :=
  first.line < second.line ∨ first.line = second.line ∧ first.offset < second.offset

theorem Before.irrefl (location : Location) : ¬ location.Before location := by
  unfold Before
  omega

theorem Before.asymm {first second : Location} (hbefore : first.Before second) :
    ¬ second.Before first := by
  unfold Before at hbefore ⊢
  omega

variable {α : Type} [DecidableEq α] [Symbol α] {source : Source α} {position position' : Nat}

theorem before_ofPosition (hlt : position < position') (hwithin : position' ≤ source.length) :
    (ofPosition source.symbols position).Before (ofPosition source.symbols position') := by
  rw [ofPosition_of_le source (Nat.le_of_lt hlt)]
  by_cases hnewline : Symbol.newline ∈ source.slice position position'
  · have hcount := List.count_pos_iff.mpr hnewline
    exact .inl (Nat.lt_add_of_pos_right hcount)
  · have hlength : 0 < (source.slice position position').length := by
      rw [Source.length_slice]
      omega
    refine .inr ⟨?_, ?_⟩
    · rw [List.count_eq_zero.mpr hnewline, Nat.add_zero]
    · rw [if_neg hnewline]
      exact Nat.lt_add_of_pos_right hlength

/-- **The order of locations is the order of positions.** -/
theorem before_ofPosition_iff (hwithin : position ≤ source.length)
    (hwithin' : position' ≤ source.length) :
    (ofPosition source.symbols position).Before (ofPosition source.symbols position') ↔
      position < position' := by
  constructor
  · intro hbefore
    rcases Nat.lt_trichotomy position position' with hlt | rfl | hgt
    · exact hlt
    · exact absurd hbefore (Before.irrefl _)
    · exact absurd hbefore (before_ofPosition hgt hwithin).asymm
  · intro hlt
    exact before_ofPosition hlt hwithin'

theorem position_eq_of_ofPosition_eq (hwithin : position ≤ source.length)
    (hwithin' : position' ≤ source.length)
    (hsame : ofPosition source.symbols position = ofPosition source.symbols position') :
    position = position' := by
  rcases Nat.lt_trichotomy position position' with hlt | heq | hgt
  · have hbefore := before_ofPosition hlt hwithin'
    exact absurd (hsame ▸ hbefore) (Before.irrefl _)
  · exact heq
  · have hbefore := before_ofPosition hgt hwithin
    exact absurd (hsame ▸ hbefore) (Before.irrefl _)

end Location

/-! ## The latest observation -/

variable {α : Type} [DecidableEq α] [Symbol α] {source : Source α}

/-- The location of an observation in a source, if it has a position. -/
def Observation.location? (source : Source α) (observation : Observation) : Option Location :=
  observation.position.map (Location.ofPosition source.symbols)

namespace Observation

variable {observation : Observation} {p : Location → Prop}

theorem exists_location?_iff :
    (∃ location, observation.location? source = some location ∧ p location) ↔
      ∃ position, observation.position = some position ∧
        p (Location.ofPosition source.symbols position) := by
  unfold location?
  cases observation.position <;> simp

theorem forall_location?_iff :
    (∀ location, observation.location? source = some location → p location) ↔
      ∀ position, observation.position = some position →
        p (Location.ofPosition source.symbols position) := by
  unfold location?
  cases observation.position <;> simp

end Observation

/-- Whether all positions that observations have are in a source. -/
def PositionedWithin (source : Source α) (observations : List Observation) : Prop :=
  ∀ observation ∈ observations, ∀ position, observation.position = some position →
    position ≤ source.length

/-- Between the observations before it and those after it, an observation is the first with the
latest location: those before it are located before it, and none of those after it is located
later. -/
def IsLatest (source : Source α) (before : List Observation) (selected : Observation)
    (after : List Observation) : Prop :=
  ∃ latest, selected.location? source = some latest ∧
    (∀ earlier ∈ before, ∀ location, earlier.location? source = some location →
      location.Before latest) ∧
    ∀ later ∈ after, ∀ location, later.location? source = some location →
      ¬ latest.Before location

theorem leads_iff_isLatest {before after : List Observation} {selected : Observation}
    (hwithin : PositionedWithin source (before ++ selected :: after)) :
    Furthest.Leads Observation.position before selected after ↔
      IsLatest source before selected after := by
  obtain ⟨hbefore, hrest⟩ := List.forall_mem_append.mp hwithin
  obtain ⟨hselected, hafter⟩ := List.forall_mem_cons.mp hrest
  unfold Furthest.Leads IsLatest
  rw [Observation.exists_location?_iff]
  -- all positions are within the source, so they can be compared by their locations
  refine exists_congr fun depth => and_congr_right fun hdepth => and_congr ?_ ?_
  · refine forall₂_congr fun earlier hearlier => ?_
    rw [Observation.forall_location?_iff]
    refine forall₂_congr fun reach hreach => ?_
    rw [Location.before_ofPosition_iff (hbefore earlier hearlier reach hreach)
      (hselected depth hdepth)]
  · refine forall₂_congr fun later hlater => ?_
    rw [Observation.forall_location?_iff]
    refine forall₂_congr fun reach hreach => ?_
    rw [Location.before_ofPosition_iff (hselected depth hdepth)
      (hafter later hlater reach hreach), Nat.not_lt]

/-- **Locations are in the order of positions**, line by line and within a line by offset, and
no two positions in a source have one location.  So of observations with positions in the source
the furthest is the first whose location is the latest, and there is one as soon as any of them
has a position. -/
theorem locations_in_order (source : Source α) :
    (∀ position position', position ≤ source.length → position' ≤ source.length →
        (position < position' ↔
          (Location.ofPosition source.symbols position).Before
            (Location.ofPosition source.symbols position'))) ∧
      (∀ position position', position ≤ source.length → position' ≤ source.length →
        position ≠ position' →
          Location.ofPosition source.symbols position ≠
            Location.ofPosition source.symbols position') ∧
      ∀ observations, PositionedWithin source observations →
        (Observation.furthest? observations = none ↔
            ∀ observation ∈ observations, observation.position = none) ∧
          ∀ selected place, Observation.furthest? observations = some (selected, place) ↔
            ∃ before after, observations = before ++ selected :: after ∧
              before.length = place ∧ IsLatest source before selected after := by
  refine ⟨?_, ?_, ?_⟩
  · intro position position' hwithin hwithin'
    exact (Location.before_ofPosition_iff hwithin hwithin').symm
  · intro position position' hwithin hwithin' hne hsame
    exact hne (Location.position_eq_of_ofPosition_eq hwithin hwithin' hsame)
  · intro observations hwithin
    refine ⟨Furthest.furthest?_eq_none_iff, ?_⟩
    intro selected place
    rw [Furthest.furthest?_eq_some_iff]
    constructor
    · rintro ⟨before, after, rfl, hplace, hleads⟩
      exact ⟨before, after, rfl, hplace, (leads_iff_isLatest hwithin).mp hleads⟩
    · rintro ⟨before, after, rfl, hplace, hlatest⟩
      exact ⟨before, after, rfl, hplace, (leads_iff_isLatest hwithin).mpr hlatest⟩

/-- The first remark has no position, the second is on the first line, and the two others are
at one place of the second. -/
theorem locations_in_order_of_twoLines :
    1 ≤ twoLines.length ∧ 3 ≤ twoLines.length ∧
      (Location.ofPosition twoLines.symbols 1).Before (Location.ofPosition twoLines.symbols 3) ∧
      Location.ofPosition twoLines.symbols 1 ≠ Location.ofPosition twoLines.symbols 3 ∧
      PositionedWithin twoLines
        [no "digit", (no "digit").pin 1, (no "digit").pin 3,
          ((no "digit").pin 3).withSeverity .info] ∧
      Observation.furthest?
        [no "digit", (no "digit").pin 1, (no "digit").pin 3,
          ((no "digit").pin 3).withSeverity .info] = some ((no "digit").pin 3, 2) := by
  obtain ⟨horder, hdistinct, hfurthest⟩ := locations_in_order twoLines
  have hfirst : 1 ≤ twoLines.length := by decide
  have hthird : 3 ≤ twoLines.length := by decide
  have hwithin : PositionedWithin twoLines
      [no "digit", (no "digit").pin 1, (no "digit").pin 3,
        ((no "digit").pin 3).withSeverity .info] := by
    simp [PositionedWithin, hfirst, hthird]
  have hbefore := (horder 1 3 hfirst hthird).mp (by decide)
  have hlatest : IsLatest twoLines [no "digit", (no "digit").pin 1] ((no "digit").pin 3)
      [((no "digit").pin 3).withSeverity .info] := by
    refine ⟨Location.ofPosition twoLines.symbols 3, rfl, ?_, ?_⟩
    · simpa [Observation.location?] using hbefore
    · simp [Observation.location?, Location.Before.irrefl]
  exact ⟨hfirst, hthird, hbefore,
    hdistinct 1 3 hfirst hthird (by decide), hwithin,
    ((hfurthest _ hwithin).2 _ _).mpr ⟨_, _, rfl, rfl, hlatest⟩⟩

end ParseOutcome
