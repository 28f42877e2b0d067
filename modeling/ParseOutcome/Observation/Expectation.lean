/-!
# Expectations

What a parse would have accepted, as a list of labels in the order of their first
mention.  A label may be absent, to any depth of options; an absent label says
nothing.

The list is made by dropping repeated texts, so no label is listed twice
(`nodup_distinct`), nothing is listed but the labels that are present, and all of
them are (`mem_distinct`).
-/

namespace ParseOutcome

/-- Things that may name what was expected. -/
class Label (β : Type) where
  /-- The text of the label, none if it is absent. -/
  text? : β → Option String

instance : Label String where
  text? := some

instance {β : Type} [Label β] : Label (Option β) where
  text? label := label.bind Label.text?

namespace Expectation

variable {β : Type} [Label β]

/-- The labels that are present, each where it is first mentioned. -/
def distinct (labels : List β) : List String :=
  (labels.filterMap Label.text?).eraseDups

theorem mem_distinct {labels : List β} {text : String} :
    text ∈ distinct labels ↔ ∃ label ∈ labels, Label.text? label = some text := by
  simp [distinct, List.mem_eraseDups]

theorem nodup_eraseDups (texts : List String) : texts.eraseDups.Nodup := by
  match texts with
  | [] => simp
  | text :: rest =>
      rw [List.eraseDups_cons, List.nodup_cons]
      have hrest := nodup_eraseDups (rest.filter fun other => !other == text)
      exact ⟨by simp [List.mem_eraseDups], hrest⟩
termination_by texts.length
decreasing_by
  exact Nat.lt_succ_of_le (List.length_filter_le _ _)

theorem nodup_distinct (labels : List β) : (distinct labels).Nodup :=
  nodup_eraseDups _

/-- The labels as a choice: commas between them, and a last "or". -/
def choice : List String → String
  | [] => ""
  | [label] => label
  | [label, last] => label ++ " or " ++ last
  | label :: rest => label ++ ", " ++ choice rest

/-- What is added to a message to say what was expected, if anything was. -/
def clause : List String → String
  | [] => ""
  | labels => " (expected " ++ choice labels ++ ")"

end Expectation

end ParseOutcome
