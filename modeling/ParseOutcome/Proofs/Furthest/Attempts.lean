import ParseOutcome.Outcome.Basic
import ParseOutcome.Proofs.Furthest.Basic
import ParseOutcome.Proofs.Sample

/-!
# The furthest of several attempts

When alternatives have been attempted, each observation is detached to the remainder of
the attempt that made it, and all of them are collected in order.  The furthest of the
collection is the first of the deepest remarks: a remark is as deep as its observation
was pinned, or else as the remainder of its attempt.  If nothing was pinned beforehand,
it is the first observation of the first attempt that came furthest, among those that
made any.

A remark keeps the attempt beside the observation, so the collection is an image of
the list of remarks (`collected_eq`), and what leads the one leads the other.  Where
nothing is pinned, all remarks of one attempt are equally deep.  Then the attempt is
itself selected by `Furthest.byPosition?`, this time from the list of attempts, and its
first remark leads all remarks.
-/

namespace ParseOutcome

variable {α T : Type}

/-- An observation, and the attempt that made it. -/
structure Remark (α T : Type) where
  attempt : Outcome α T
  observation : Observation

namespace Remark

/-- The position of the observation, or else of the remainder of the attempt. -/
def depth (remark : Remark α T) : Nat :=
  remark.observation.position.getD remark.attempt.remainder.position

def detached (remark : Remark α T) : Observation :=
  remark.observation.detach remark.attempt.remainder

theorem position_detached (remark : Remark α T) :
    remark.detached.position = some remark.depth :=
  Observation.position_detach remark.observation remark.attempt.remainder

end Remark

/-- The remarks of several attempts, in order. -/
def remarks (attempts : List (Outcome α T)) : List (Remark α T) :=
  attempts.flatMap fun attempt => attempt.observations.map (Remark.mk attempt)

/-- The observations of several attempts, each detached to the remainder of its own. -/
def collected (attempts : List (Outcome α T)) : List Observation :=
  attempts.flatMap Outcome.detached

theorem collected_eq (attempts : List (Outcome α T)) :
    collected attempts = (remarks attempts).map Remark.detached := by
  unfold collected remarks
  rw [List.map_flatMap]
  simp only [List.map_map]
  rfl

theorem mem_remarks {attempts : List (Outcome α T)} {remark : Remark α T} :
    remark ∈ remarks attempts ↔
      remark.attempt ∈ attempts ∧ remark.observation ∈ remark.attempt.observations := by
  obtain ⟨attempt, observation⟩ := remark
  simp only [remarks, List.mem_flatMap, List.mem_map, Remark.mk.injEq]
  constructor
  · rintro ⟨_, hattempt, _, hobservation, rfl, rfl⟩
    exact ⟨hattempt, hobservation⟩
  · rintro ⟨hattempt, hobservation⟩
    exact ⟨attempt, hattempt, observation, hobservation, rfl, rfl⟩

/-! ## The deepest remark -/

theorem furthest?_collected_eq_none_iff {attempts : List (Outcome α T)} :
    Observation.furthest? (collected attempts) = none ↔
      ∀ attempt ∈ attempts, attempt.observations = [] := by
  rw [Furthest.furthest?_eq_none_iff, collected_eq, List.forall_mem_map]
  constructor
  · intro hnone attempt hattempt
    refine List.eq_nil_iff_forall_not_mem.mpr fun observation hobservation => ?_
    have hposition := hnone ⟨attempt, observation⟩ (mem_remarks.mpr ⟨hattempt, hobservation⟩)
    simp [Remark.position_detached] at hposition
  · intro hempty remark hremark
    obtain ⟨hattempt, hobservation⟩ := mem_remarks.mp hremark
    rw [hempty _ hattempt] at hobservation
    exact absurd hobservation List.not_mem_nil

theorem furthest?_collected_eq_some_iff {attempts : List (Outcome α T)}
    {selected : Observation} {place : Nat} :
    Observation.furthest? (collected attempts) = some (selected, place) ↔
      ∃ before remark after, remarks attempts = before ++ remark :: after ∧
        remark.detached = selected ∧ before.length = place ∧
        (∀ earlier ∈ before, earlier.depth < remark.depth) ∧
        ∀ later ∈ after, later.depth ≤ remark.depth := by
  have hleads : ∀ (before : List (Remark α T)) (remark : Remark α T) (after : List (Remark α T)),
      Furthest.Leads Observation.position (before.map Remark.detached) remark.detached
          (after.map Remark.detached) ↔
        (∀ earlier ∈ before, earlier.depth < remark.depth) ∧
          ∀ later ∈ after, later.depth ≤ remark.depth := by
    intro before remark after
    rw [Furthest.leads_map]
    simp [Furthest.Leads, Remark.position_detached]
  rw [Furthest.furthest?_eq_some_iff, collected_eq]
  constructor
  · rintro ⟨_, _, hsplit, rfl, hselected⟩
    obtain ⟨before, _, hremarks, rfl, htail⟩ := List.map_eq_append_iff.mp hsplit
    obtain ⟨remark, after, rfl, rfl, rfl⟩ := List.map_eq_cons_iff.mp htail
    obtain ⟨hbefore, hafter⟩ := (hleads before remark after).mp hselected
    exact ⟨before, remark, after, hremarks, rfl, by simp, hbefore, hafter⟩
  · rintro ⟨before, remark, after, hremarks, rfl, rfl, hbefore, hafter⟩
    refine ⟨before.map Remark.detached, after.map Remark.detached, ?_, by simp,
      (hleads before remark after).mpr ⟨hbefore, hafter⟩⟩
    rw [hremarks, List.map_append, List.map_cons]

/-! ## Attempts that pin nothing -/

/-- Whether no observation had a position of its own beforehand. -/
def Unpinned (attempts : List (Outcome α T)) : Prop :=
  ∀ attempt ∈ attempts, ∀ observation ∈ attempt.observations, observation.position = none

/-- The position of the remainder, for an attempt that made observations. -/
def reach? (attempt : Outcome α T) : Option Nat :=
  attempt.observations.head?.map fun _ => attempt.remainder.position

theorem reach?_eq_some_iff {attempt : Outcome α T} {reach : Nat} :
    reach? attempt = some reach ↔
      attempt.observations ≠ [] ∧ attempt.remainder.position = reach := by
  cases hobservations : attempt.observations <;> simp [reach?, hobservations]

theorem reach?_of_mem_remarks {attempts : List (Outcome α T)} (unpinned : Unpinned attempts)
    {remark : Remark α T} (hremark : remark ∈ remarks attempts) :
    reach? remark.attempt = some remark.depth := by
  obtain ⟨hattempt, hobservation⟩ := mem_remarks.mp hremark
  refine reach?_eq_some_iff.mpr ⟨List.ne_nil_of_mem hobservation, ?_⟩
  rw [Remark.depth, unpinned _ hattempt _ hobservation, Option.getD_none]

theorem leads_reach?_iff {before after : List (Outcome α T)} {attempt : Outcome α T} :
    Furthest.Leads reach? before attempt after ↔
      attempt.observations ≠ [] ∧
        (∀ earlier ∈ before, earlier.observations ≠ [] →
          earlier.remainder.position < attempt.remainder.position) ∧
        ∀ later ∈ after, later.observations ≠ [] →
          later.remainder.position ≤ attempt.remainder.position := by
  simp only [Furthest.Leads, reach?_eq_some_iff]
  constructor
  · rintro ⟨_, ⟨hattempt, rfl⟩, hbefore, hafter⟩
    exact ⟨hattempt, fun earlier hmem hmade => hbefore earlier hmem _ ⟨hmade, rfl⟩,
      fun later hmem hmade => hafter later hmem _ ⟨hmade, rfl⟩⟩
  · rintro ⟨hattempt, hbefore, hafter⟩
    refine ⟨_, ⟨hattempt, rfl⟩, ?_, ?_⟩
    · rintro earlier hmem _ ⟨hmade, rfl⟩
      exact hbefore earlier hmem hmade
    · rintro later hmem _ ⟨hmade, rfl⟩
      exact hafter later hmem hmade

/-- The first remark of the attempt that leads the attempts leads the remarks. -/
theorem furthest?_of_leads {before after : List (Outcome α T)} {attempt : Outcome α T}
    (unpinned : Unpinned (before ++ attempt :: after))
    (hleads : Furthest.Leads reach? before attempt after) {first : Observation}
    {rest : List Observation} (hobservations : attempt.observations = first :: rest) :
    Observation.furthest? (collected (before ++ attempt :: after)) =
      some (first.detach attempt.remainder, (collected before).length) := by
  obtain ⟨depth, hdepth, hbefore, hafter⟩ := hleads
  have hremarks : remarks (before ++ attempt :: after) =
      remarks before ++ ⟨attempt, first⟩ ::
        (rest.map (Remark.mk attempt) ++ remarks after) := by
    simp [remarks, hobservations]
  -- nothing is pinned, so a remark is as deep as its attempt went
  have hreach : ∀ remark ∈ remarks before ++ ⟨attempt, first⟩ ::
      (rest.map (Remark.mk attempt) ++ remarks after),
      reach? remark.attempt = some remark.depth := by
    rw [← hremarks]
    exact fun remark hremark => reach?_of_mem_remarks unpinned hremark
  obtain rfl : depth = (Remark.mk attempt first).depth := by
    have hfirst := hreach ⟨attempt, first⟩ (by simp)
    exact Option.some.inj (hdepth.symm.trans hfirst)
  refine furthest?_collected_eq_some_iff.mpr ⟨_, _, _, hremarks, rfl, ?_, ?_, ?_⟩
  · rw [collected_eq, List.length_map]
  · intro earlier hearlier
    have hearlierReach := hreach earlier (List.mem_append_left _ hearlier)
    exact hbefore _ (mem_remarks.mp hearlier).1 _ hearlierReach
  · intro later hlater
    have hlaterReach :=
      hreach later (List.mem_append_right _ (List.mem_cons_of_mem _ hlater))
    rcases List.mem_append.mp hlater with hlater | hlater
    · -- a later remark of the attempt itself is just as deep
      obtain ⟨_, -, rfl⟩ := List.mem_map.mp hlater
      exact Nat.le_of_eq (Option.some.inj (hlaterReach.symm.trans hdepth))
    · exact hafter _ (mem_remarks.mp hlater).1 _ hlaterReach

/-- **The furthest of several attempts** is the first of the deepest remarks, and there
is none just where no attempt made any.  If nothing was pinned, it is the first remark
of the attempt that came furthest, of those that made any, and of several such attempts
the first. -/
theorem furthest_of_attempts (attempts : List (Outcome α T)) :
    (Observation.furthest? (collected attempts) = none ↔
        ∀ attempt ∈ attempts, attempt.observations = []) ∧
      (∀ selected place, Observation.furthest? (collected attempts) = some (selected, place) ↔
        ∃ before remark after, remarks attempts = before ++ remark :: after ∧
          remark.detached = selected ∧ before.length = place ∧
          (∀ earlier ∈ before, earlier.depth < remark.depth) ∧
          ∀ later ∈ after, later.depth ≤ remark.depth) ∧
      (Unpinned attempts →
        ∀ selected place, Observation.furthest? (collected attempts) = some (selected, place) ↔
          ∃ before attempt after first rest, attempts = before ++ attempt :: after ∧
            attempt.observations = first :: rest ∧ first.detach attempt.remainder = selected ∧
            (collected before).length = place ∧
            (∀ earlier ∈ before, earlier.observations ≠ [] →
              earlier.remainder.position < attempt.remainder.position) ∧
            ∀ later ∈ after, later.observations ≠ [] →
              later.remainder.position ≤ attempt.remainder.position) := by
  refine ⟨furthest?_collected_eq_none_iff,
    fun selected place => furthest?_collected_eq_some_iff, fun unpinned selected place => ?_⟩
  constructor
  · intro hselected
    cases hattempt : Furthest.byPosition? reach? attempts with
    | none =>
        -- then no attempt made any observation, and none can be selected
        have hempty : ∀ attempt ∈ attempts, attempt.observations = [] := by
          intro attempt hmem
          have hnone := Furthest.byPosition?_eq_none_iff.mp hattempt attempt hmem
          simpa [reach?] using hnone
        rw [furthest?_collected_eq_none_iff.mpr hempty] at hselected
        exact absurd hselected (by simp)
    | some attempt =>
        obtain ⟨before, after, rfl, hleads⟩ := Furthest.byPosition?_eq_some_iff.mp hattempt
        obtain ⟨hmade, hbefore, hafter⟩ := leads_reach?_iff.mp hleads
        obtain ⟨first, rest, hobservations⟩ := List.exists_cons_of_ne_nil hmade
        rw [furthest?_of_leads unpinned hleads hobservations] at hselected
        obtain ⟨hfirst, hplace⟩ := Prod.mk.inj (Option.some.inj hselected)
        exact ⟨before, attempt, after, first, rest, rfl, hobservations, hfirst, hplace, hbefore,
          hafter⟩
  · rintro ⟨before, attempt, after, first, rest, rfl, hobservations, rfl, rfl, hbefore, hafter⟩
    have hmade : attempt.observations ≠ [] := by simp [hobservations]
    have hleads := leads_reach?_iff.mpr ⟨hmade, hbefore, hafter⟩
    exact furthest?_of_leads unpinned hleads hobservations

/-! ## Four attempts at one place of a text -/

/-- An attempt at `(12` that failed after so many symbols. -/
def attemptAt (count : Nat) (labels : List String) : Outcome UInt8 Unit :=
  .failed (Sample.atBracket.advance count) (labels.map Sample.no)

def attemptsAtBracket : List (Outcome UInt8 Unit) :=
  [attemptAt 0 ["digit"], attemptAt 3 [], attemptAt 3 ["digit", "')'"], attemptAt 3 ["','"]]

/-- Three of the attempts reach the end, and the first of them made no observation. -/
theorem furthest_of_attemptsAtBracket :
    Unpinned attemptsAtBracket ∧
      Observation.furthest? (collected attemptsAtBracket) =
        some ((Sample.no "digit").pin 3, 1) := by
  have unpinned : Unpinned attemptsAtBracket := by
    simp [Unpinned, attemptsAtBracket, attemptAt, Outcome.observations]
  refine ⟨unpinned, ((furthest_of_attempts attemptsAtBracket).2.2 unpinned _ _).mpr
    ⟨[attemptAt 0 ["digit"], attemptAt 3 []], attemptAt 3 ["digit", "')'"], [attemptAt 3 ["','"]],
      Sample.no "digit", [Sample.no "')'"], rfl, rfl, rfl, rfl, ?_, ?_⟩⟩
  · have hmoves :
        (Sample.atBracket.advance 0).position < (Sample.atBracket.advance 3).position := by
      decide
    simpa [attemptAt, Outcome.observations, Outcome.remainder] using hmoves
  · simp [attemptAt, Outcome.observations, Outcome.remainder]

end ParseOutcome
