import Mathlib.Data.List.Perm.Subperm
import ParseOutcome.Observation.Basic

/-!
# When observations are the same

`==` counts labels and looks for those of the first observation among those of the
second, and not the other way round.  Since no label is listed twice, that is enough:
a list without repeats that is contained in one of the same length leaves out nothing.
So `==` compares the expectations as sets, and is an equivalence.
-/

namespace ParseOutcome.Observation

/-- Whether two observations say the same at the same position, and expect the same
labels in whatever order. -/
structure Agrees (first second : Observation) : Prop where
  severity_eq : first.severity = second.severity
  message_eq : first.message = second.message
  position_eq : first.position = second.position
  mem_iff : ∀ label, label ∈ first.expectations ↔ label ∈ second.expectations

namespace Agrees

theorem refl (observation : Observation) : observation.Agrees observation :=
  ⟨rfl, rfl, rfl, fun _ => Iff.rfl⟩

theorem symm {first second : Observation} (hagrees : first.Agrees second) :
    second.Agrees first :=
  ⟨hagrees.severity_eq.symm, hagrees.message_eq.symm, hagrees.position_eq.symm,
    fun label => (hagrees.mem_iff label).symm⟩

theorem trans {first second third : Observation} (hfirst : first.Agrees second)
    (hsecond : second.Agrees third) : first.Agrees third :=
  ⟨hfirst.severity_eq.trans hsecond.severity_eq, hfirst.message_eq.trans hsecond.message_eq,
    hfirst.position_eq.trans hsecond.position_eq,
    fun label => (hfirst.mem_iff label).trans (hsecond.mem_iff label)⟩

/-- The same labels in another order. -/
theorem perm {first second : Observation} (hagrees : first.Agrees second) :
    first.expectations.Perm second.expectations :=
  (List.perm_ext_iff_of_nodup first.expectations_nodup second.expectations_nodup).mpr
    hagrees.mem_iff

end Agrees

theorem expectations_perm_of_subset {first second : Observation}
    (hlength : first.expectations.length = second.expectations.length)
    (hsubset : first.expectations ⊆ second.expectations) :
    first.expectations.Perm second.expectations := by
  have hsubperm := List.subperm_of_subset first.expectations_nodup hsubset
  exact hsubperm.perm_of_length_le (Nat.le_of_eq hlength.symm)

theorem beq_iff_agrees {first second : Observation} :
    (first == second) = true ↔ first.Agrees second := by
  have hunfold : (first == second) = true ↔
      (((first.severity = second.severity ∧ first.message = second.message) ∧
        first.position = second.position) ∧
        first.expectations.length = second.expectations.length) ∧
        first.expectations ⊆ second.expectations := by
    simp [BEq.beq, List.subset_def]
  rw [hunfold]
  constructor
  · rintro ⟨⟨⟨⟨hseverity, hmessage⟩, hposition⟩, hlength⟩, hsubset⟩
    have hperm := expectations_perm_of_subset hlength hsubset
    exact ⟨hseverity, hmessage, hposition, fun label => hperm.mem_iff⟩
  · intro hagrees
    have hlength := hagrees.perm.length_eq
    have hsubset := hagrees.perm.subset
    exact ⟨⟨⟨⟨hagrees.severity_eq, hagrees.message_eq⟩, hagrees.position_eq⟩, hlength⟩, hsubset⟩

instance : EquivBEq Observation where
  rfl := beq_iff_agrees.mpr (Agrees.refl _)
  symm hfirst := beq_iff_agrees.mpr (beq_iff_agrees.mp hfirst).symm
  trans hfirst hsecond :=
    beq_iff_agrees.mpr ((beq_iff_agrees.mp hfirst).trans (beq_iff_agrees.mp hsecond))

/-- **Observations are the same when they agree**, whichever way they were made, and
sameness is an equivalence. -/
theorem sameness_is_agreement :
    (∀ first second : Observation, (first == second) = true ↔
        first.severity = second.severity ∧ first.message = second.message ∧
          first.position = second.position ∧
          ∀ label, label ∈ first.expectations ↔ label ∈ second.expectations) ∧
      Equivalence fun first second : Observation => (first == second) = true := by
  constructor
  · intro first second
    rw [beq_iff_agrees]
    constructor
    · intro hagrees
      exact ⟨hagrees.severity_eq, hagrees.message_eq, hagrees.position_eq, hagrees.mem_iff⟩
    · rintro ⟨hseverity, hmessage, hposition, hmem⟩
      exact ⟨hseverity, hmessage, hposition, hmem⟩
  · exact ⟨fun _ => BEq.rfl, BEq.symm, BEq.trans⟩

end ParseOutcome.Observation
