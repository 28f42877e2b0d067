import ParseOutcome.Observation.Basic
import ParseOutcome.Proofs.Sample

/-!
# What was expected, read from the long form

The long form of an observation tells what was expected, label by label and in order, unless
there are spaces in the labels.  Labels may be empty, and one may be "or": the "or" that joins
the last two labels is known by its place, since it is always the last word but one.  Commas in
a label do no harm either, since it is by its place too that a label has one behind it.

A choice is split at its spaces.  What is found there are the words of the choice: the labels,
all but the last two with a comma behind them, and the "or" (`split_choice`).  Two labels or
more have one word more than there are labels, so the number of the words tells which of them
is what, and the labels are read back (`ofWords_words`).
-/

namespace ParseOutcome

namespace Expectation

/-! ## The words of a choice -/

/-- The words of a choice: its labels, with commas and the last "or". -/
def words : List String → List String
  | [] => []
  | [label] => [label]
  | [label, last] => [label, "or", last]
  | label :: next :: later :: rest => (label ++ ",") :: words (next :: later :: rest)

/-- The labels of a choice with some words. -/
def ofWords : List String → List String
  | [] => []
  | [label] => [label]
  | [label, _, last] => [label, last]
  | word :: rest => String.ofList word.toList.dropLast :: ofWords rest

variable {labels labels' : List String}

theorem length_words (label next : String) (rest : List String) :
    (words (label :: next :: rest)).length = rest.length + 3 := by
  induction rest generalizing label next with
  | nil => rfl
  | cons later rest ih =>
      rw [words, List.length_cons, ih]
      rfl

theorem words_ne_nil (label : String) (rest : List String) : words (label :: rest) ≠ [] := by
  cases rest with
  | nil => simp [words]
  | cons next rest =>
      apply List.ne_nil_of_length_pos
      rw [length_words]
      omega

/-- A word before three others or more is a label with a comma behind it. -/
theorem ofWords_cons (word : String) {rest : List String} (hlength : 3 ≤ rest.length) :
    ofWords (word :: rest) = String.ofList word.toList.dropLast :: ofWords rest := by
  rw [ofWords]
  · rintro rfl
    simp at hlength
  · rintro middle last rfl
    simp at hlength

theorem ofWords_words (labels : List String) : ofWords (words labels) = labels := by
  fun_induction words labels with
  | case1 => rfl
  | case2 label => rfl
  | case3 label last => rfl
  | case4 label next later rest ih =>
      -- Two labels have three words already, so the first word is not one of the last three.
      have hlength : 3 ≤ (words (next :: later :: rest)).length := by
        rw [length_words]
        omega
      rw [ofWords_cons _ hlength, ih]
      simp

/-! ## Splitting a choice -/

theorem choice_eq_intercalate (labels : List String) :
    choice labels = " ".intercalate (words labels) := by
  fun_induction words labels with
  | case1 => rfl
  | case2 label => simp [choice]
  | case3 label last =>
      have hor : " or " = " " ++ ("or" ++ " ") := rfl
      simp only [choice, hor, String.intercalate_cons_cons, String.intercalate_singleton,
        String.append_assoc]
  | case4 label next later rest ih =>
      have hcomma : ", " = "," ++ " " := rfl
      calc choice (label :: next :: later :: rest)
          = label ++ ", " ++ choice (next :: later :: rest) := rfl
        _ = label ++ "," ++ " " ++ " ".intercalate (words (next :: later :: rest)) := by
            rw [ih, hcomma]
            simp only [String.append_assoc]
        _ = " ".intercalate ((label ++ ",") :: words (next :: later :: rest)) :=
            (String.intercalate_cons_of_ne_nil (words_ne_nil _ _)).symm

theorem space_notMem_of_mem_words (hlabels : ∀ label ∈ labels, ' ' ∉ label.toList) :
    ∀ word ∈ words labels, ' ' ∉ word.toList := by
  fun_induction words labels with
  | case1 => simp
  | case2 label => exact hlabels
  | case3 label last =>
      simp only [List.forall_mem_cons] at hlabels ⊢
      exact ⟨hlabels.1, by simp, hlabels.2⟩
  | case4 label next later rest ih =>
      rw [List.forall_mem_cons] at hlabels ⊢
      refine ⟨?_, ih hlabels.2⟩
      simpa using hlabels.1

theorem split_choice (hlabels : ∀ label ∈ labels, ' ' ∉ label.toList) (hsome : labels ≠ []) :
    ((choice labels).split ' ').toList.map String.Slice.copy = words labels := by
  obtain ⟨label, rest, rfl⟩ := List.exists_cons_of_ne_nil hsome
  have hsplit := String.toList_split_intercalate (space_notMem_of_mem_words hlabels)
  rw [if_neg (words_ne_nil label rest)] at hsplit
  rw [choice_eq_intercalate]
  exact hsplit

/-- Labels without spaces are told by the choice between them. -/
theorem eq_of_choice_eq (hlabels : ∀ label ∈ labels, ' ' ∉ label.toList)
    (hlabels' : ∀ label ∈ labels', ' ' ∉ label.toList) (hsome : labels ≠ [])
    (hsome' : labels' ≠ []) (hchoice : choice labels = choice labels') : labels = labels' := by
  calc labels
      = ofWords (((choice labels).split ' ').toList.map String.Slice.copy) := by
        rw [split_choice hlabels hsome, ofWords_words]
    _ = ofWords (((choice labels').split ' ').toList.map String.Slice.copy) := by rw [hchoice]
    _ = labels' := by rw [split_choice hlabels' hsome', ofWords_words]

/-! ## The long form -/

theorem clause_of_ne_nil (hsome : labels ≠ []) :
    clause labels = " (expected " ++ choice labels ++ ")" := by
  cases labels with
  | nil => exact absurd rfl hsome
  | cons label rest => rfl

theorem clause_eq_empty_iff : clause labels = "" ↔ labels = [] := by
  constructor
  · intro hempty
    cases labels with
    | nil => rfl
    | cons label rest => simp [clause] at hempty
  · rintro rfl
    rfl

theorem clause_eq_clause_iff (hlabels : ∀ label ∈ labels, ' ' ∉ label.toList)
    (hlabels' : ∀ label ∈ labels', ' ' ∉ label.toList) :
    clause labels = clause labels' ↔ labels = labels' := by
  constructor
  · intro hclause
    have hnil : labels = [] ↔ labels' = [] := by
      rw [← clause_eq_empty_iff, hclause, clause_eq_empty_iff]
    by_cases hsome : labels = []
    · rw [hsome, hnil.mp hsome]
    · have hsome' : labels' ≠ [] := mt hnil.mpr hsome
      rw [clause_of_ne_nil hsome, clause_of_ne_nil hsome', String.append_left_inj,
        String.append_right_inj] at hclause
      exact eq_of_choice_eq hlabels hlabels' hsome hsome' hclause
  · rintro rfl
    rfl

/-- With a space in it, one label is shown as two labels are. -/
example : clause ["digit or sign"] = clause ["digit", "sign"] := by decide

end Expectation

namespace Observation

/-- **The long form tells what was expected**: where two observations say the same and there
are no spaces in their labels, their long forms are equal just if their expectations are, in
number and order as well. -/
theorem displayLong_eq_iff {first second : Observation}
    (hmessage : first.message = second.message)
    (hfirst : ∀ label ∈ first.expectations, ' ' ∉ label.toList)
    (hsecond : ∀ label ∈ second.expectations, ' ' ∉ label.toList) :
    first.displayLong = second.displayLong ↔ first.expectations = second.expectations := by
  rw [displayLong, displayLong, hmessage, String.append_right_inj]
  exact Expectation.clause_eq_clause_iff hfirst hsecond

/-- A remark that expects the empty label before the label "or". -/
def emptyThenOr : Observation :=
  Sample.missing "operator" ["", "or"] (by decide)

/-- A remark that expects them in the other order. -/
def orThenEmpty : Observation :=
  Sample.missing "operator" ["or", ""] (by decide)

/-- Two labels that are nothing but what joins labels are told apart by their long forms,
`no operator (expected  or or)` and `no operator (expected or or )`. -/
theorem displayLong_of_emptyThenOr :
    emptyThenOr.message = orThenEmpty.message ∧
      (∀ label ∈ emptyThenOr.expectations, ' ' ∉ label.toList) ∧
      (∀ label ∈ orThenEmpty.expectations, ' ' ∉ label.toList) ∧
      emptyThenOr.displayLong ≠ orThenEmpty.displayLong := by
  have hmessage : emptyThenOr.message = orThenEmpty.message := rfl
  have hfirst : ∀ label ∈ emptyThenOr.expectations, ' ' ∉ label.toList := by
    simp [emptyThenOr, Sample.missing]
  have hsecond : ∀ label ∈ orThenEmpty.expectations, ' ' ∉ label.toList := by
    simp [orThenEmpty, Sample.missing]
  refine ⟨hmessage, hfirst, hsecond, ?_⟩
  intro hdisplay
  exact absurd ((displayLong_eq_iff hmessage hfirst hsecond).mp hdisplay) (by decide)

end Observation

end ParseOutcome
