import Mathlib.Data.List.Induction
import ParseOutcome.Observation.Basic
import ParseOutcome.Proofs.Sample

/-!
# Revising an observation

An observation is revised by giving it another severity, by pinning it, and by detaching it to
a remainder, in any order and as often as one likes.  The last severity given is the one that
is kept.  A pin replaces whatever position there is and a detachment only fills in a position
that is lacking, so the last pin decides, and the first detachment if nothing is pinned.  What
the observation says and expects stays as it was made.

What one revision does is an equation between observations (`apply_eq`), and so is what a run of
them does (`revise_eq`).  The position in the middle of a run is told by the last pin so far, the
position at the beginning and the first detachment so far, in this order of precedence.  That is
what one more revision at the end preserves: a pin comes in front of all of these, and a
detachment behind them.  Nothing is left in the equation but the order among revisions of one
kind (`revise_congr`).
-/

namespace ParseOutcome.Observation

/-- A revision of an observation. -/
inductive Revision : Type 1 where
  | withSeverity (severity : Severity)
  | pin (position : Nat)
  | detach {α : Type} (remainder : Cursor α)

namespace Revision

def apply (observation : Observation) : Revision → Observation
  | withSeverity severity => observation.withSeverity severity
  | pin position => observation.pin position
  | detach remainder => observation.detach remainder

/-- The severity that a revision gives. -/
def severity? : Revision → Option Severity
  | withSeverity severity => some severity
  | pin _ | detach _ => none

/-- The position at which a revision pins. -/
def pinned? : Revision → Option Nat
  | pin position => some position
  | withSeverity _ | detach _ => none

/-- The position of the remainder to which a revision detaches. -/
def detached? : Revision → Option Nat
  | detach remainder => some remainder.position
  | withSeverity _ | pin _ => none

end Revision

/-- An observation after some revisions, one after another. -/
def revise (observation : Observation) (revisions : List Revision) : Observation :=
  revisions.foldl Revision.apply observation

variable {observation : Observation} {revisions revisions' : List Revision}

/-! ## One revision -/

theorem eq_of_data_eq {first second : Observation} (hseverity : first.severity = second.severity)
    (hmessage : first.message = second.message)
    (hexpectations : first.expectations = second.expectations)
    (hposition : first.position = second.position) : first = second := by
  cases first
  cases second
  simp_all

theorem apply_eq (observation : Observation) (revision : Revision) :
    revision.apply observation =
      { observation with
        severity := revision.severity?.getD observation.severity
        position := revision.pinned?.or (observation.position.or revision.detached?) } := by
  cases revision with
  | withSeverity severity =>
      refine eq_of_data_eq rfl rfl rfl ?_
      exact Option.or_none.symm
  | pin position => rfl
  | detach remainder =>
      apply eq_of_data_eq
      · exact severity_detach observation remainder
      · exact message_detach observation remainder
      · exact expectations_detach observation remainder
      · refine (position_detach observation remainder).trans ?_
        cases observation.position <;> rfl

/-! ## A run of revisions -/

theorem revise_concat (observation : Observation) (revisions : List Revision)
    (revision : Revision) :
    observation.revise (revisions ++ [revision]) =
      revision.apply (observation.revise revisions) := by
  simp [revise]

theorem revise_append (observation : Observation) (before after : List Revision) :
    observation.revise (before ++ after) = (observation.revise before).revise after :=
  List.foldl_append

section Concat

variable {β γ : Type*} (f : β → Option γ) (items : List β) (item : β)

theorem getLast?_filterMap_concat :
    ((items ++ [item]).filterMap f).getLast? = (f item).or (items.filterMap f).getLast? := by
  rw [List.filterMap_append, List.getLast?_append]
  cases hitem : f item <;> simp [hitem]

theorem head?_filterMap_concat :
    ((items ++ [item]).filterMap f).head? = (items.filterMap f).head?.or (f item) := by
  rw [List.filterMap_append, List.head?_append]
  cases hitem : f item <;> simp [hitem]

end Concat

/-- **The last severity given is kept, and the last pin decides the position**; without a pin
the position stays what it was, and if there was none, the first detachment decides. -/
theorem revise_eq (observation : Observation) (revisions : List Revision) :
    observation.revise revisions =
      { observation with
        severity := (revisions.filterMap Revision.severity?).getLast?.getD observation.severity
        position := (revisions.filterMap Revision.pinned?).getLast?.or
          (observation.position.or (revisions.filterMap Revision.detached?).head?) } := by
  -- from the end, since a revision finds what those before it have left
  induction revisions using List.reverseRecOn with
  | nil => simp [revise]
  | append_singleton revisions revision ih =>
      rw [revise_concat, ih, apply_eq]
      simp only [getLast?_filterMap_concat, head?_filterMap_concat, Option.getD_or,
        Option.or_assoc]

/-- Only the order among revisions of one kind makes a difference. -/
theorem revise_congr (observation : Observation)
    (hseverity : revisions.filterMap Revision.severity? = revisions'.filterMap Revision.severity?)
    (hpinned : revisions.filterMap Revision.pinned? = revisions'.filterMap Revision.pinned?)
    (hdetached : revisions.filterMap Revision.detached? =
      revisions'.filterMap Revision.detached?) :
    observation.revise revisions = observation.revise revisions' := by
  simp only [revise_eq, hseverity, hpinned, hdetached]

/-- Detaching does not move an observation that has a position. -/
theorem position_revise_of_not_pinned {position : Nat}
    (hposition : observation.position = some position)
    (hrevisions : ∀ revision ∈ revisions, revision.pinned? = none) :
    (observation.revise revisions).position = some position := by
  have hpinned : revisions.filterMap Revision.pinned? = [] :=
    List.filterMap_eq_nil_iff.mpr hrevisions
  rw [revise_eq, hpinned]
  simp [hposition]

/-- **What an observation comes to when it is revised.**  However severities, pins and
detachments follow on each other after an observation has been made, it has the last severity
given, or else that of its making; the position of the last pin, or else that of the first
detachment, or else none; and the message and the expectations with which it was made.  So a
position is not moved by any number of detachments, and revisions of different kinds may
change places. -/
theorem revisions_by_kind {β : Type} [Label β] {severity : Severity} {message : String}
    {labels : List β} (made : ofSeverity severity message labels = .ok observation) :
    (∀ revisions : List Revision,
        (observation.revise revisions).severity =
            (revisions.filterMap Revision.severity?).getLast?.getD severity ∧
          (observation.revise revisions).position =
            (revisions.filterMap Revision.pinned?).getLast?.or
              (revisions.filterMap Revision.detached?).head? ∧
          (observation.revise revisions).message = message ∧
          (observation.revise revisions).expectations = Expectation.distinct labels) ∧
      (∀ (before after : List Revision) (position : Nat),
        (observation.revise before).position = some position →
        (∀ revision ∈ after, revision.pinned? = none) →
          (observation.revise (before ++ after)).position = some position) ∧
      ∀ revisions revisions' : List Revision,
        revisions.filterMap Revision.severity? = revisions'.filterMap Revision.severity? →
        revisions.filterMap Revision.pinned? = revisions'.filterMap Revision.pinned? →
        revisions.filterMap Revision.detached? = revisions'.filterMap Revision.detached? →
          observation.revise revisions = observation.revise revisions' := by
  obtain ⟨hseverity, hmessage, hexpectations, hposition⟩ := ofSeverity_eq_ok_iff.mp made
  refine ⟨?_, ?_, ?_⟩
  · intro revisions
    rw [revise_eq, hseverity, hposition, Option.none_or]
    exact ⟨rfl, rfl, hmessage, hexpectations⟩
  · intro before after position hbefore hafter
    rw [revise_append]
    exact position_revise_of_not_pinned hbefore hafter
  · intro revisions revisions' hsame hpinned hdetached
    exact revise_congr observation hsame hpinned hdetached

/-- Two detachments, the second to the end of the source, with a severity in between. -/
def detachedTwice : List Revision :=
  [.detach Sample.behindBracket, .withSeverity .info, .detach Sample.behindBracket.next.next]

/-- Of two detachments the first counts, of two pins the second, and a severity may be given
before a pin as well as after it. -/
theorem revisions_of_detachedTwice :
    ∃ observation, ofSeverity .warning "no digit" ["digit"] = .ok observation ∧
      (observation.revise detachedTwice).severity = .info ∧
      (observation.revise detachedTwice).position = some 1 ∧
      (observation.revise
          (detachedTwice ++ [.pin 7, .detach Sample.behindBracket, .pin 0])).position =
        some 0 ∧
      (observation.revise ([.pin 7] ++ detachedTwice)).position = some 7 ∧
      observation.revise [.pin 7, .withSeverity .info] =
        observation.revise [.withSeverity .info, .pin 7] := by
  let observation : Observation :=
    ⟨.warning, "no digit", ["digit"], none, by decide, by decide⟩
  have made : ofSeverity .warning "no digit" ["digit"] = .ok observation :=
    ofSeverity_eq_ok_iff.mpr ⟨rfl, rfl, rfl, rfl⟩
  obtain ⟨hrevised, hkept, hexchanged⟩ := revisions_by_kind made
  obtain ⟨hseverity, hposition, -, -⟩ := hrevised detachedTwice
  refine ⟨observation, made, hseverity, hposition, (hrevised _).2.1, ?_, ?_⟩
  · exact hkept [.pin 7] detachedTwice 7 rfl (by simp [detachedTwice, Revision.pinned?])
  · exact hexchanged _ _ rfl rfl rfl

end ParseOutcome.Observation
