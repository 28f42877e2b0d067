import ParseOutcome.Grammar.Evaluation
import ParseOutcome.Proofs.Furthest.Basic

/-!
# Selecting by stages

Neighbours in a list of observations may be replaced by the furthest of them, and the
same occurrence is selected in the end.  So an alternation within an alternation, which
hands on nothing but the furthest of its observations, detached once more to wherever it
failed, does not change what is selected, to whatever depth alternations are nested.

An occurrence is an observation with its place in the list that has no grouping.
Places tell equal observations apart, and show that detaching again moves nothing.

By `pick?_append`, what is picked from a list hangs on its parts only through what is
picked from each.  So a list may be replaced, wherever it is a part, by another from
which the same is picked (`Interchangeable`), and the item that is selected from a list
is such another (`Interchangeable.selected`).
-/

namespace ParseOutcome

open Furthest

variable {α β T : Type}

/-! ## Lists from which the same is picked -/

/-- Whether the same item is picked from both lists. -/
def Interchangeable (position : β → Option Nat) (first second : List β) : Prop :=
  pick? (positioned position first) = pick? (positioned position second)

namespace Interchangeable

variable {position : β → Option Nat} {first second first' second' : List β}

theorem refl (items : List β) : Interchangeable position items items := rfl

theorem trans {third : List β} (hfirst : Interchangeable position first second)
    (hsecond : Interchangeable position second third) : Interchangeable position first third :=
  Eq.trans hfirst hsecond

theorem append (hfirst : Interchangeable position first second)
    (hsecond : Interchangeable position first' second') :
    Interchangeable position (first ++ first') (second ++ second') := by
  have hpositioned : ∀ before after : List β, positioned position (before ++ after) =
      positioned position before ++ positioned position after := by
    simp [positioned]
  unfold Interchangeable at hfirst hsecond ⊢
  rw [hpositioned, hpositioned, pick?_append, pick?_append, hfirst, hsecond]

theorem byPosition?_eq (hsame : Interchangeable position first second) :
    byPosition? position first = byPosition? position second :=
  congrArg (Option.map Prod.fst) hsame

/-- **A list may be replaced by what is selected from it.** -/
theorem selected (items : List β) :
    Interchangeable position (byPosition? position items).toList items := by
  unfold Interchangeable
  rw [Furthest.byPosition?_eq]
  cases hpick : pick? (positioned position items) with
  | none => rfl
  | some best =>
      obtain ⟨-, hposition⟩ := mem_positioned.mp (mem_of_pick? hpick)
      simp [positioned, hposition, pick?]

end Interchangeable

/-! ## Occurrences -/

namespace Occurrence

def position (occurrence : Observation × Nat) : Option Nat :=
  occurrence.1.position

/-- The furthest of some observations, with the place that was noted beside it. -/
def furthest? (noted : List (Observation × Nat)) : Option (Observation × Nat) :=
  (Observation.furthest? (noted.map Prod.fst)).bind fun selected => noted[selected.2]?

theorem furthest?_eq (noted : List (Observation × Nat)) :
    furthest? noted = byPosition? position noted := by
  unfold furthest?
  cases hselected : byPosition? position noted with
  | none =>
      rw [byPosition?_eq_none_iff] at hselected
      rw [furthest?_eq_none_iff.mpr (List.forall_mem_map.mpr hselected), Option.bind_none]
  | some occurrence =>
      obtain ⟨before, after, rfl, hleads⟩ := byPosition?_eq_some_iff.mp hselected
      have hfurthest : Observation.furthest? ((before ++ occurrence :: after).map Prod.fst) =
          some (occurrence.1, before.length) := by
        -- without the notes the same occurrence leads, at the same place
        refine furthest?_eq_some_iff.mpr ⟨before.map Prod.fst, after.map Prod.fst, by simp,
          List.length_map _, ?_⟩
        exact (leads_map Observation.position Prod.fst before occurrence after).mpr hleads
      rw [hfurthest, Option.bind_some]
      simp

theorem map_fst_furthest? (noted : List (Observation × Nat)) :
    (furthest? noted).map Prod.fst =
      (Observation.furthest? (noted.map Prod.fst)).map Prod.fst := by
  have hnoted := byPosition?_map Observation.position Prod.fst noted
  have hplaces := byPosition?_map Observation.position Prod.fst (noted.map Prod.fst).zipIdx
  rw [List.zipIdx_map_fst] at hplaces
  rw [furthest?_eq]
  exact hnoted.symm.trans hplaces

/-- Detaching again moves nothing that is selected. -/
theorem detach_of_furthest? {noted : List (Observation × Nat)} {occurrence : Observation × Nat}
    (hselected : furthest? noted = some occurrence) (remainder : Cursor α) :
    occurrence.1.detach remainder = occurrence.1 := by
  rw [furthest?_eq] at hselected
  obtain ⟨_, _, -, depth, hdepth, -, -⟩ := byPosition?_eq_some_iff.mp hselected
  have hposition : occurrence.1.position = some depth := hdepth
  simp [Observation.detach, hposition]

end Occurrence

/-! ## Alternatives -/

/-- Alternatives that failed, in order: attempts, each with what was observed in it, and
alternations, each with the failure it ended on. -/
inductive Alternatives (α T : Type) where
  | nil
  | attempt (observations : List Observation) (rest : Alternatives α T)
  | alternation (inner : Alternatives α T) (failure : Outcome α T) (rest : Alternatives α T)

namespace Alternatives

/-- All that was observed, with no regard to grouping. -/
def ungrouped : Alternatives α T → List Observation
  | nil => []
  | attempt observations rest => observations ++ rest.ungrouped
  | alternation inner _ rest => inner.ungrouped ++ rest.ungrouped

/-- What is handed on, where an alternation reports the furthest of what is handed on
within it, and this is detached to where the alternation failed. -/
def handedOn : Alternatives α T → List Observation
  | nil => []
  | attempt observations rest => observations ++ rest.handedOn
  | alternation inner failure rest =>
      (Merge.furthest.conclude inner.handedOn failure).detached ++ rest.handedOn

/-- What is handed on, each with its place among all that was observed, when the first
of these has the place `start`. -/
def occurrences : Alternatives α T → Nat → List (Observation × Nat)
  | nil, _ => []
  | attempt observations rest, start =>
      observations.zipIdx start ++ rest.occurrences (start + observations.length)
  | alternation inner failure rest, start =>
      ((Occurrence.furthest? (inner.occurrences start)).map fun occurrence =>
          (occurrence.1.detach failure.remainder, occurrence.2)).toList ++
        rest.occurrences (start + inner.ungrouped.length)

theorem map_fst_occurrences (alternatives : Alternatives α T) (start : Nat) :
    (alternatives.occurrences start).map Prod.fst = alternatives.handedOn := by
  induction alternatives generalizing start with
  | nil => rfl
  | attempt observations rest ih => simp [occurrences, handedOn, ih]
  | alternation inner failure rest ihinner ihrest =>
      have hselected := Occurrence.map_fst_furthest? (inner.occurrences start)
      rw [ihinner] at hselected
      have hconcluded : (Merge.furthest.conclude inner.handedOn failure).detached =
          ((Observation.furthest? inner.handedOn).map Prod.fst).toList.map
            fun observation => observation.detach failure.remainder := rfl
      rw [occurrences, handedOn, List.map_append, ihrest, hconcluded, ← hselected]
      cases Occurrence.furthest? (inner.occurrences start) <;> rfl

theorem interchangeable_occurrences (alternatives : Alternatives α T) (start : Nat) :
    Interchangeable Occurrence.position (alternatives.occurrences start)
      (alternatives.ungrouped.zipIdx start) := by
  induction alternatives generalizing start with
  | nil => exact Interchangeable.refl _
  | attempt observations rest ih =>
      rw [occurrences, ungrouped, List.zipIdx_append]
      exact (Interchangeable.refl _).append (ih _)
  | alternation inner failure rest ihinner ihrest =>
      -- what is selected has a position, so it is not moved when it is detached once more
      have hmoved : ((Occurrence.furthest? (inner.occurrences start)).map fun occurrence =>
          (occurrence.1.detach failure.remainder, occurrence.2)) =
          byPosition? Occurrence.position (inner.occurrences start) := by
        rw [← Occurrence.furthest?_eq]
        cases hselected : Occurrence.furthest? (inner.occurrences start) with
        | none => rfl
        | some occurrence =>
            have hdetach := Occurrence.detach_of_furthest? hselected failure.remainder
            simp [hdetach]
      rw [occurrences, ungrouped, List.zipIdx_append, hmoved]
      have hinner := (Interchangeable.selected (inner.occurrences start)).trans (ihinner start)
      exact hinner.append (ihrest _)

end Alternatives

/-! ## Stages -/

/-- Some observations, of which the middle ones are replaced by the furthest of them,
each with its place among all. -/
def staged (before group after : List Observation) : List (Observation × Nat) :=
  before.zipIdx ++
      ((Observation.furthest? group).map fun selected =>
        (selected.1, before.length + selected.2)).toList ++
    after.zipIdx (before.length + group.length)

theorem interchangeable_staged (before group after : List Observation) :
    Interchangeable Occurrence.position (staged before group after)
      (before ++ group ++ after).zipIdx := by
  have hgroup : ((Observation.furthest? group).map fun selected =>
      (selected.1, before.length + selected.2)) =
      byPosition? Occurrence.position (group.zipIdx before.length) := by
    rw [List.zipIdx_eq_map_add, byPosition?_map]
    rfl
  rw [staged, hgroup, List.zipIdx_append, List.zipIdx_append, List.length_append]
  simp only [Nat.zero_add]
  exact ((Interchangeable.refl _).append (Interchangeable.selected _)).append
    (Interchangeable.refl _)

/-- **Grouping makes no difference.**  From a list in which neighbours have been replaced
by the furthest of them, the occurrence is selected that is selected from the whole list.
The same holds where alternations hand on the furthest of what they were handed, to
every depth and wherever they failed. -/
theorem furthest_by_stages :
    (∀ before group after : List Observation,
        (staged before group after).map Prod.fst =
            before ++ ((Observation.furthest? group).map Prod.fst).toList ++ after ∧
          Occurrence.furthest? (staged before group after) =
            Observation.furthest? (before ++ group ++ after)) ∧
      ∀ alternatives : Alternatives α T,
        (alternatives.occurrences 0).map Prod.fst = alternatives.handedOn ∧
          Occurrence.furthest? (alternatives.occurrences 0) =
            Observation.furthest? alternatives.ungrouped := by
  constructor
  · intro before group after
    constructor
    · rw [staged, List.map_append, List.map_append, List.zipIdx_map_fst, List.zipIdx_map_fst]
      cases Observation.furthest? group <;> rfl
    · rw [Occurrence.furthest?_eq]
      exact (interchangeable_staged before group after).byPosition?_eq
  · intro alternatives
    refine ⟨alternatives.map_fst_occurrences 0, ?_⟩
    rw [Occurrence.furthest?_eq]
    exact (alternatives.interchangeable_occurrences 0).byPosition?_eq

end ParseOutcome
