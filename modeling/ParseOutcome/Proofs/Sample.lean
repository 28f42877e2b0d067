import ParseOutcome.Observation.Basic

/-!
# Samples

A general statement says little about any one run.  Where it helps to see one, it is mostly a run
over the few symbols here, with remarks about what is missing among them.
-/

namespace ParseOutcome.Sample

/-- The text `(12`. -/
def bracketed : Source UInt8 :=
  Source.ofBuffer 0 [40, 49, 50]

/-- The beginning of `(12`. -/
def atBracket : Cursor UInt8 :=
  Cursor.origin bracketed

/-- The second place of `(12`. -/
def behindBracket : Cursor UInt8 :=
  atBracket.next

/-- An error about something that is missing, where any of the labels would have done. -/
def missing (item : String) (labels : List String) (hnodup : labels.Nodup) : Observation where
  severity := .error
  message := "no " ++ item
  expectations := labels
  position := none
  message_not_blank := Blank.isBlankText_eq_false_iff.mpr ⟨'n', by simp, by decide⟩
  expectations_nodup := hnodup

/-- An error about something that is missing, where nothing else would have done. -/
def no (item : String) : Observation :=
  missing item [item] (by simp)

@[simp] theorem position_missing (item : String) (labels : List String) (hnodup : labels.Nodup) :
    (missing item labels hnodup).position = none := rfl

@[simp] theorem position_no (item : String) : (no item).position = none := rfl

end ParseOutcome.Sample
