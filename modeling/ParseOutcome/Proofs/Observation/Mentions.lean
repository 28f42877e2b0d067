import Mathlib.Data.List.Induction
import Mathlib.Data.List.Nodup
import ParseOutcome.Proofs.Observation.Sameness

/-!
# What an observation expects

The expectations of an observation list what its labels say: every text that some label says,
once, at the place of its first mention.  An absent label says nothing.  This leaves one list
only.  So a label that says nothing new may be put in or left out, an observation that is made
from the expectations of another has the same ones, and labels in another order make an
observation that is the same.

The labels are read one by one, and a text goes to the end of the list unless it is there
already (`distinct_append`).  The invariant is `FirstMentions`, with the mentions counted in the
labels that have been read: one more label keeps the first mention of every listed text where it
was, and a new text is mentioned later than all of them (`FirstMentions.extend`).  No other list
has the invariant (`firstMentions_iff`).
-/

namespace ParseOutcome

namespace Expectation

variable {β : Type} [Label β]

/-- Whether some label says a text. -/
def Said (labels : List β) (text : String) : Prop :=
  ∃ label ∈ labels, Label.text? label = some text

/-- The index of the first label that says a text, or the number of labels if none does. -/
def firstMention (labels : List β) (text : String) : Nat :=
  labels.findIdx fun label => decide (Label.text? label = some text)

/-- The texts are those that the labels say, each once, in the order of first mention. -/
structure FirstMentions (labels : List β) (texts : List String) : Prop where
  nodup : texts.Nodup
  mem_iff : ∀ text, text ∈ texts ↔ Said labels text
  in_order : texts.Pairwise fun first second =>
    firstMention labels first < firstMention labels second

/-- The texts listed so far, and that of one more label if it is new. -/
def extend (texts : List String) (label : β) : List String :=
  match Label.text? label with
  | none => texts
  | some text => if text ∈ texts then texts else texts ++ [text]

variable {labels more : List β} {label : β} {text : String} {texts texts' : List String}

/-! ## Reading one more label -/

theorem extend_of_listed (hlisted : ∀ text, Label.text? label = some text → text ∈ texts) :
    extend texts label = texts := by
  unfold extend
  cases htext : Label.text? label with
  | none => rfl
  | some text => exact if_pos (hlisted text htext)

theorem extend_of_new (htext : Label.text? label = some text) (hnew : text ∉ texts) :
    extend texts label = texts ++ [text] := by
  simp only [extend, htext]
  exact if_neg hnew

theorem eraseDups_concat (texts : List String) (text : String) :
    (texts ++ [text]).eraseDups =
      if text ∈ texts then texts.eraseDups else texts.eraseDups ++ [text] := by
  rw [List.eraseDups_append]
  split
  next hmem => simp [List.removeAll, hmem]
  next hnew => simp [List.removeAll, hnew, List.eraseDups_cons]

theorem distinct_concat (labels : List β) (label : β) :
    distinct (labels ++ [label]) = extend (distinct labels) label := by
  cases htext : Label.text? label with
  | none => simp [distinct, extend, htext]
  | some text =>
      have hsaid : (labels ++ [label]).filterMap Label.text? =
          labels.filterMap Label.text? ++ [text] := by
        simp [htext]
      have hlisted : text ∈ distinct labels ↔ text ∈ labels.filterMap Label.text? :=
        List.mem_eraseDups
      simp only [extend, htext, hlisted]
      rw [distinct, hsaid, eraseDups_concat]
      rfl

/-- The distinct labels are gathered by reading one label after another. -/
theorem distinct_append (labels more : List β) :
    distinct (labels ++ more) = more.foldl extend (distinct labels) := by
  induction more generalizing labels with
  | nil => simp
  | cons label more ih =>
      rw [List.foldl_cons, ← distinct_concat, ← ih, List.append_assoc]
      rfl

theorem foldl_extend_of_listed
    (hlisted : ∀ label ∈ more, ∀ text, Label.text? label = some text → text ∈ texts) :
    more.foldl extend texts = texts := by
  induction more with
  | nil => rfl
  | cons label more ih =>
      rw [List.foldl_cons, extend_of_listed (hlisted label List.mem_cons_self)]
      exact ih fun later hlater => hlisted later (List.mem_cons_of_mem _ hlater)

/-! ## First mentions -/

theorem firstMention_lt_length_iff :
    firstMention labels text < labels.length ↔ Said labels text := by
  simp [firstMention, Said, List.findIdx_lt_length]

theorem firstMention_append_of_said (hsaid : Said labels text) :
    firstMention (labels ++ more) text = firstMention labels text := by
  have hlt := firstMention_lt_length_iff.mpr hsaid
  unfold firstMention at hlt ⊢
  rw [List.findIdx_append, if_pos hlt]

theorem length_le_firstMention_append (hunsaid : ¬ Said labels text) :
    labels.length ≤ firstMention (labels ++ more) text := by
  have hge := firstMention_lt_length_iff.not.mpr hunsaid
  unfold firstMention at hge ⊢
  rw [List.findIdx_append, if_neg hge]
  exact Nat.le_add_left _ _

theorem said_concat : Said (labels ++ [label]) text ↔
    Said labels text ∨ Label.text? label = some text := by
  simp [Said, or_and_right, exists_or]

/-- One more label does not disturb the order of the texts listed so far. -/
theorem FirstMentions.in_order_concat (hmentions : FirstMentions labels texts) (label : β) :
    texts.Pairwise fun first second =>
      firstMention (labels ++ [label]) first < firstMention (labels ++ [label]) second := by
  refine hmentions.in_order.imp_of_mem ?_
  intro first second hfirst hsecond hlt
  rwa [firstMention_append_of_said ((hmentions.mem_iff first).mp hfirst),
    firstMention_append_of_said ((hmentions.mem_iff second).mp hsecond)]

/-- A label that says nothing new adds nothing. -/
theorem FirstMentions.concat_of_listed (hmentions : FirstMentions labels texts)
    (hlisted : ∀ text, Label.text? label = some text → text ∈ texts) :
    FirstMentions (labels ++ [label]) texts := by
  refine ⟨hmentions.nodup, ?_, hmentions.in_order_concat label⟩
  intro text
  rw [said_concat, hmentions.mem_iff]
  constructor
  · exact Or.inl
  · rintro (hsaid | htext)
    · exact hsaid
    · exact (hmentions.mem_iff text).mp (hlisted text htext)

/-- A new text goes to the end of the list. -/
theorem FirstMentions.concat_of_new (hmentions : FirstMentions labels texts)
    (htext : Label.text? label = some text) (hnew : text ∉ texts) :
    FirstMentions (labels ++ [label]) (texts ++ [text]) := by
  have hunsaid : ¬ Said labels text := (hmentions.mem_iff text).not.mp hnew
  refine ⟨?_, ?_, ?_⟩
  · rw [← List.concat_eq_append]
    exact hmentions.nodup.concat hnew
  · intro other
    rw [List.mem_append, hmentions.mem_iff, said_concat, htext, Option.some.injEq,
      List.mem_singleton, eq_comm]
  · -- no label before the last says the new text, so it comes after all that are listed
    refine List.pairwise_append.mpr
      ⟨hmentions.in_order_concat label, List.pairwise_singleton _ _, ?_⟩
    intro listed hlisted added hadded
    obtain rfl := List.mem_singleton.mp hadded
    have hsaid := (hmentions.mem_iff listed).mp hlisted
    calc firstMention (labels ++ [label]) listed
        = firstMention labels listed := firstMention_append_of_said hsaid
      _ < labels.length := firstMention_lt_length_iff.mpr hsaid
      _ ≤ firstMention (labels ++ [label]) added := length_le_firstMention_append hunsaid

/-- **One more label keeps the invariant.** -/
theorem FirstMentions.extend (hmentions : FirstMentions labels texts) (label : β) :
    FirstMentions (labels ++ [label]) (extend texts label) := by
  by_cases hlisted : ∀ text, Label.text? label = some text → text ∈ texts
  · rw [extend_of_listed hlisted]
    exact hmentions.concat_of_listed hlisted
  · push Not at hlisted
    obtain ⟨text, htext, hnew⟩ := hlisted
    rw [extend_of_new htext hnew]
    exact hmentions.concat_of_new htext hnew

theorem firstMentions_distinct (labels : List β) : FirstMentions labels (distinct labels) := by
  induction labels using List.reverseRecOn with
  | nil => exact ⟨nodup_distinct _, by simp [distinct, Said], by simp [distinct]⟩
  | append_singleton labels label ih =>
      rw [distinct_concat]
      exact ih.extend label

theorem FirstMentions.unique (hfirst : FirstMentions labels texts)
    (hsecond : FirstMentions labels texts') : texts = texts' := by
  have hperm : texts.Perm texts' := by
    rw [List.perm_ext_iff_of_nodup hfirst.nodup hsecond.nodup]
    intro text
    rw [hfirst.mem_iff, hsecond.mem_iff]
  -- the order of first mention is strict, so it leaves one arrangement of the texts
  refine hperm.eq_of_pairwise ?_ hfirst.in_order hsecond.in_order
  intro first second _ _ hlt hgt
  exact absurd hlt (Nat.lt_asymm hgt)

/-- **The distinct labels are the one list of first mentions.** -/
theorem firstMentions_iff : FirstMentions labels texts ↔ texts = distinct labels := by
  constructor
  · intro hmentions
    exact hmentions.unique (firstMentions_distinct labels)
  · rintro rfl
    exact firstMentions_distinct labels

/-! ## What makes no difference -/

/-- Labels that say nothing that has not been said before them change nothing. -/
theorem distinct_of_said {before added after : List β}
    (hsaid : ∀ label ∈ added, ∀ text, Label.text? label = some text → Said before text) :
    distinct (before ++ added ++ after) = distinct (before ++ after) := by
  have hadded : distinct (before ++ added) = distinct before := by
    rw [distinct_append]
    apply foldl_extend_of_listed
    intro label hlabel text htext
    exact mem_distinct.mpr (hsaid label hlabel text htext)
  rw [distinct_append, hadded, ← distinct_append]

/-- A list of texts without repeats says itself. -/
theorem distinct_of_nodup (hnodup : texts.Nodup) : distinct texts = texts := by
  induction texts using List.reverseRecOn with
  | nil => rfl
  | append_singleton texts text ih =>
      obtain ⟨hbefore, -, hnew⟩ := List.nodup_append.mp hnodup
      have hfresh : text ∉ texts := fun hmem => hnew text hmem text List.mem_cons_self rfl
      rw [distinct_concat, ih hbefore]
      exact extend_of_new rfl hfresh

end Expectation

namespace Observation

open Expectation

variable {β : Type} [Label β]

theorem exists_ofSeverity {message : String} (hmessage : Blank.isBlankText message = false)
    (severity : Severity) (labels : List β) :
    ∃ observation, ofSeverity severity message labels = .ok observation ∧
      observation.severity = severity ∧ observation.message = message ∧
      observation.expectations = distinct labels ∧ observation.position = none := by
  refine ⟨⟨severity, message, distinct labels, none, hmessage, nodup_distinct labels⟩, ?_⟩
  simp [ofSeverity_eq_ok_iff]

theorem ofSeverity_congr {γ : Type} [Label γ] {labels : List β} {labels' : List γ}
    (hdistinct : distinct labels = distinct labels') (severity : Severity) (message : String) :
    ofSeverity severity message labels = ofSeverity severity message labels' := by
  unfold ofSeverity
  split
  · rfl
  · simp [hdistinct]

/-- Labels in another order make an observation that is the same. -/
theorem beq_of_perm {labels labels' : List β} (hperm : labels.Perm labels')
    {first second : Observation} (hseverity : first.severity = second.severity)
    (hmessage : first.message = second.message) (hposition : first.position = second.position)
    (hfirst : first.expectations = distinct labels)
    (hsecond : second.expectations = distinct labels') : (first == second) = true := by
  refine beq_iff_agrees.mpr ⟨hseverity, hmessage, hposition, ?_⟩
  intro label
  rw [hfirst, hsecond, mem_distinct, mem_distinct]
  simp only [hperm.mem_iff]

/-- **An observation expects what its labels say, by first mention.**  For every message that is
not blank, at every severity (`error`, `warning` and `info` are the three), the expectations are
the one list that has each text some label says, once, in the order of first mention.  So absent
labels may be put in anywhere, and labels may be repeated anywhere later on; an observation made
from the expectations of another has the same ones; and labels in another order make an
observation that is the same. -/
theorem expectations_by_first_mention {message : String}
    (notBlank : ∃ c ∈ message.toList, Blank.isBlank c = false) (severity : Severity) :
    (∀ labels : List β, ∃ observation, ofSeverity severity message labels = .ok observation ∧
        ∀ texts, FirstMentions labels texts ↔ texts = observation.expectations) ∧
      (∀ before absent after : List β, (∀ label ∈ absent, Label.text? label = none) →
        ofSeverity severity message (before ++ absent ++ after) =
          ofSeverity severity message (before ++ after)) ∧
      (∀ before repeated after : List β,
        (∀ label ∈ repeated, ∃ earlier ∈ before, Label.text? earlier = Label.text? label) →
        ofSeverity severity message (before ++ repeated ++ after) =
          ofSeverity severity message (before ++ after)) ∧
      (∀ observation : Observation, ∃ again,
        ofSeverity severity message observation.expectations = .ok again ∧
          again.expectations = observation.expectations) ∧
      ∀ labels labels' : List β, labels.Perm labels' →
        ∃ first second, ofSeverity severity message labels = .ok first ∧
          ofSeverity severity message labels' = .ok second ∧ (first == second) = true := by
  have hmessage := Blank.isBlankText_eq_false_iff.mpr notBlank
  refine ⟨?_, ?_, ?_, ?_, ?_⟩
  · intro labels
    obtain ⟨observation, hmade, -, -, hlabels, -⟩ := exists_ofSeverity hmessage severity labels
    refine ⟨observation, hmade, ?_⟩
    intro texts
    rw [firstMentions_iff, hlabels]
  · -- absent labels say nothing
    intro before absent after habsent
    apply ofSeverity_congr
    apply distinct_of_said
    intro label hlabel text htext
    exact absurd (htext.symm.trans (habsent label hlabel)) (Option.some_ne_none text)
  · -- repeated labels say nothing new
    intro before repeated after hrepeated
    apply ofSeverity_congr
    apply distinct_of_said
    intro label hlabel text htext
    obtain ⟨earlier, hearlier, hsame⟩ := hrepeated label hlabel
    exact ⟨earlier, hearlier, hsame.trans htext⟩
  · intro observation
    obtain ⟨again, hmade, -, -, hlabels, -⟩ :=
      exists_ofSeverity hmessage severity observation.expectations
    exact ⟨again, hmade, hlabels.trans (distinct_of_nodup observation.expectations_nodup)⟩
  · intro labels labels' hperm
    obtain ⟨first, hfirst, hseverity, htext, hlabels, hposition⟩ :=
      exists_ofSeverity hmessage severity labels
    obtain ⟨second, hsecond, hseverity', htext', hlabels', hposition'⟩ :=
      exists_ofSeverity hmessage severity labels'
    refine ⟨first, second, hfirst, hsecond, ?_⟩
    exact beq_of_perm hperm (hseverity.trans hseverity'.symm) (htext.trans htext'.symm)
      (hposition.trans hposition'.symm) hlabels hlabels'

/-- Labels that are absent at one depth or another, and one that is repeated. -/
def nestedLabels : List (Option (Option String)) :=
  [some (some "digit"), none, some (some "sign"), some none, some (some "digit")]

theorem expectations_of_nestedLabels :
    (∃ c ∈ " no number".toList, Blank.isBlank c = false) ∧
      (∃ observation, ofSeverity .info " no number" nestedLabels = .ok observation ∧
        observation.expectations = ["digit", "sign"]) ∧
      ofSeverity .info " no number" nestedLabels =
        ofSeverity .info " no number" [some (some "digit"), none, some (some "sign")] := by
  have notBlank : ∃ c ∈ " no number".toList, Blank.isBlank c = false :=
    ⟨'n', by decide, by decide⟩
  obtain ⟨hmade, habsent, hrepeated, -, -⟩ :=
    @expectations_by_first_mention (Option (Option String)) _ _ notBlank .info
  refine ⟨notBlank, ?_, ?_⟩
  · obtain ⟨observation, hobservation, hmentions⟩ := hmade nestedLabels
    refine ⟨observation, hobservation, Eq.symm ((hmentions _).mp ?_)⟩
    exact firstMentions_iff.mpr rfl
  · calc ofSeverity .info " no number" nestedLabels
        = ofSeverity .info " no number"
            ([some (some "digit"), none, some (some "sign")] ++ [some (some "digit")]) :=
          habsent [some (some "digit"), none, some (some "sign")] [some none] _ (by decide)
      _ = ofSeverity .info " no number" ([some (some "digit"), none, some (some "sign")] ++ []) :=
          hrepeated [some (some "digit"), none, some (some "sign")] [some (some "digit")] []
            (by decide)

end Observation

end ParseOutcome
