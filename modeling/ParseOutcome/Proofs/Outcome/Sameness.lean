import Mathlib.Data.List.Forall2
import ParseOutcome.Outcome.Continuation
import ParseOutcome.Proofs.Furthest.Basic
import ParseOutcome.Proofs.Observation.Sameness
import ParseOutcome.Proofs.Outcome.Locality

/-!
# When outcomes are the same

`==` on outcomes is coarser than equality: the values are compared in their own way, and of
what was expected the order is left out.  Nothing that this library reads off an outcome, or
makes from it, brings the difference out again.

Outcomes that are the same agree in three things (`beq_iff_agrees`): their values, their
remainders, and their observations one by one.  Everything else is made from these.  Texts
come from the messages, and the furthest observation is found by positions; both are equal
where observations agree, since only the order of the labels is free.
-/

namespace ParseOutcome

variable {α T U : Type}

/-! ## Lists of observations -/

namespace Observation

variable {first second : List Observation}

theorem list_beq_iff :
    (first == second) = true ↔ List.Forall₂ Observation.Agrees first second := by
  induction first generalizing second with
  | nil => cases second <;> simp
  | cons observation rest ih =>
      cases second with
      | nil => simp
      | cons observation' rest' =>
          rw [List.cons_beq_cons, Bool.and_eq_true, beq_iff_agrees, ih, List.forall₂_cons]

/-- What is equal where two observations agree, is equal throughout lists that do. -/
theorem map_eq_of_agrees {β : Type} {f : Observation → β}
    (hf : ∀ {observation observation' : Observation},
      observation.Agrees observation' → f observation = f observation')
    (hagrees : List.Forall₂ Observation.Agrees first second) : first.map f = second.map f := by
  induction hagrees with
  | nil => rfl
  | cons hhead _ ih => rw [List.map_cons, List.map_cons, hf hhead, ih]

theorem filter_isError_agrees (hagrees : List.Forall₂ Observation.Agrees first second) :
    List.Forall₂ Observation.Agrees (first.filter isError) (second.filter isError) := by
  refine List.rel_filter (fun observation observation' hhead => ?_) hagrees
  -- errors are told by their severity alone
  have herror : observation.isError = observation'.isError :=
    congrArg (fun severity => decide (severity = Severity.error)) hhead.severity_eq
  show observation.isError = true ↔ observation'.isError = true
  rw [herror]

theorem Agrees.detach {observation observation' : Observation}
    (hagrees : observation.Agrees observation') (remainder : Cursor α) :
    (observation.detach remainder).Agrees (observation'.detach remainder) where
  severity_eq := by simpa using hagrees.severity_eq
  message_eq := by simpa using hagrees.message_eq
  position_eq := by simp [hagrees.position_eq]
  mem_iff := by simpa using hagrees.mem_iff

/-- The place of the furthest observation is found by the positions alone. -/
theorem furthest?_place_eq (observations : List Observation) :
    (Observation.furthest? observations).map Prod.snd =
      (Furthest.byPosition? Prod.fst (observations.map Observation.position).zipIdx).map
        Prod.snd := by
  rw [List.zipIdx_map, Furthest.byPosition?_map, Option.map_map]
  rfl

theorem furthest?_place_congr (hagrees : List.Forall₂ Observation.Agrees first second) :
    (Observation.furthest? first).map Prod.snd = (Observation.furthest? second).map Prod.snd := by
  rw [furthest?_place_eq, furthest?_place_eq, map_eq_of_agrees Agrees.position_eq hagrees]

theorem agrees_symm (hagrees : List.Forall₂ Observation.Agrees first second) :
    List.Forall₂ Observation.Agrees second first :=
  (hagrees.imp fun _ _ hhead => hhead.symm).flip

theorem agrees_trans {third : List Observation}
    (hfirst : List.Forall₂ Observation.Agrees first second)
    (hsecond : List.Forall₂ Observation.Agrees second third) :
    List.Forall₂ Observation.Agrees first third := by
  induction hfirst generalizing third with
  | nil => exact hsecond
  | cons hhead _ ih =>
      cases hsecond with
      | cons hhead' hrest' => exact List.Forall₂.cons (hhead.trans hhead') (ih hrest')

end Observation

/-! ## Outcomes that agree -/

namespace Outcome

/-- Two outcomes agree when both succeeded or both failed, with the same value, at one
remainder, and with observations that agree one by one. -/
inductive Agrees [BEq T] : Outcome α T → Outcome α T → Prop
  | succeeded {value value' : T} {remainder : Cursor α} {observations observations' :
      List Observation} (hvalue : (value == value') = true)
      (hobservations : List.Forall₂ Observation.Agrees observations observations') :
      Agrees (.succeeded value remainder observations) (.succeeded value' remainder observations')
  | failed {remainder : Cursor α} {observations observations' : List Observation}
      (hobservations : List.Forall₂ Observation.Agrees observations observations') :
      Agrees (.failed remainder observations) (.failed remainder observations')

theorem succeeded_beq_succeeded [DecidableEq α] [BEq T] {value value' : T}
    {remainder remainder' : Cursor α} {observations observations' : List Observation} :
    (Outcome.succeeded value remainder observations ==
        Outcome.succeeded value' remainder' observations') =
      (value == value' && decide (remainder = remainder') && observations == observations') :=
  rfl

theorem failed_beq_failed [DecidableEq α] [BEq T] {remainder remainder' : Cursor α}
    {observations observations' : List Observation} :
    ((Outcome.failed remainder observations : Outcome α T) ==
        Outcome.failed remainder' observations') =
      (decide (remainder = remainder') && observations == observations') :=
  rfl

theorem beq_iff_agrees [DecidableEq α] [BEq T] {first second : Outcome α T} :
    (first == second) = true ↔ first.Agrees second := by
  constructor
  · intro hsame
    cases first with
    | succeeded value remainder observations =>
        cases second with
        | succeeded value' remainder' observations' =>
            rw [succeeded_beq_succeeded, Bool.and_eq_true, Bool.and_eq_true,
              decide_eq_true_eq] at hsame
            obtain ⟨⟨hvalue, rfl⟩, hobservations⟩ := hsame
            exact .succeeded hvalue (Observation.list_beq_iff.mp hobservations)
        | failed remainder' observations' => exact absurd hsame Bool.false_ne_true
    | failed remainder observations =>
        cases second with
        | succeeded value' remainder' observations' => exact absurd hsame Bool.false_ne_true
        | failed remainder' observations' =>
            rw [failed_beq_failed, Bool.and_eq_true, decide_eq_true_eq] at hsame
            obtain ⟨rfl, hobservations⟩ := hsame
            exact .failed (Observation.list_beq_iff.mp hobservations)
  · intro hagrees
    cases hagrees with
    | succeeded hvalue hobservations =>
        rw [succeeded_beq_succeeded, hvalue, decide_eq_true rfl,
          Observation.list_beq_iff.mpr hobservations]
        rfl
    | failed hobservations =>
        rw [failed_beq_failed, decide_eq_true rfl, Observation.list_beq_iff.mpr hobservations]
        rfl

namespace Agrees

variable [BEq T] {first second : Outcome α T}

theorem refl [ReflBEq T] (outcome : Outcome α T) : outcome.Agrees outcome := by
  have hobservations : ∀ observations : List Observation,
      List.Forall₂ Observation.Agrees observations observations :=
    fun observations => List.forall₂_same.mpr fun observation _ => Observation.Agrees.refl _
  cases outcome with
  | succeeded value remainder observations => exact .succeeded BEq.rfl (hobservations _)
  | failed remainder observations => exact .failed (hobservations _)

theorem symm [PartialEquivBEq T] (hagrees : first.Agrees second) : second.Agrees first := by
  cases hagrees with
  | succeeded hvalue hobservations =>
      exact .succeeded (BEq.symm hvalue) (Observation.agrees_symm hobservations)
  | failed hobservations => exact .failed (Observation.agrees_symm hobservations)

theorem trans [PartialEquivBEq T] {third : Outcome α T} (hfirst : first.Agrees second)
    (hsecond : second.Agrees third) : first.Agrees third := by
  cases hfirst with
  | succeeded hvalue hobservations =>
      cases hsecond with
      | succeeded hvalue' hobservations' =>
          exact .succeeded (BEq.trans hvalue hvalue')
            (Observation.agrees_trans hobservations hobservations')
  | failed hobservations =>
      cases hsecond with
      | failed hobservations' =>
          exact .failed (Observation.agrees_trans hobservations hobservations')

theorem remainder_eq (hagrees : first.Agrees second) : first.remainder = second.remainder := by
  cases hagrees <;> rfl

theorem observations_agree (hagrees : first.Agrees second) :
    List.Forall₂ Observation.Agrees first.observations second.observations := by
  cases hagrees with
  | succeeded _ hobservations => exact hobservations
  | failed hobservations => exact hobservations

/-! ### What is read off -/

theorem headline_eq [Symbol α] [ToString T]
    (hshown : ∀ value value' : T, (value == value') = true → toString value = toString value')
    (hagrees : first.Agrees second) : first.headline = second.headline := by
  cases hagrees with
  | succeeded hvalue _ => rw [headline_of_value? rfl, headline_of_value? rfl, hshown _ _ hvalue]
  | failed _ => rfl

theorem display_eq [Symbol α] [ToString T]
    (hshown : ∀ value value' : T, (value == value') = true → toString value = toString value')
    (hagrees : first.Agrees second) : first.display = second.display := by
  refine display_congr (hagrees.headline_eq hshown) ?_
  exact Observation.map_eq_of_agrees Observation.Agrees.message_eq hagrees.observations_agree

/-! ### What is made -/

theorem map [BEq U] {f : T → U}
    (hf : ∀ value value', (value == value') = true → (f value == f value') = true)
    (hagrees : first.Agrees second) : (first.map f).Agrees (second.map f) := by
  cases hagrees with
  | succeeded hvalue hobservations => exact .succeeded (hf _ _ hvalue) hobservations
  | failed hobservations => exact .failed hobservations

theorem withObservation {observation observation' : Observation}
    (hagrees : first.Agrees second) (hadded : observation.Agrees observation') :
    (first.withObservation observation).Agrees (second.withObservation observation') := by
  have hsingle := List.Forall₂.cons hadded List.Forall₂.nil
  cases hagrees with
  | succeeded hvalue hobservations =>
      exact .succeeded hvalue (List.rel_append hobservations hsingle)
  | failed hobservations => exact .failed (List.rel_append hobservations hsingle)

theorem onSuccess [BEq U] {next : Outcome α T → Outcome α U}
    (hnext : ∀ first second : Outcome α T, first.Agrees second →
      (next first).Agrees (next second))
    (hagrees : first.Agrees second) : (first.onSuccess next).Agrees (second.onSuccess next) := by
  cases hagrees with
  | succeeded hvalue hobservations => exact hnext _ _ (.succeeded hvalue hobservations)
  | failed hobservations => exact .failed hobservations

theorem onFailure {next : Outcome α T → Outcome α T}
    (hnext : ∀ first second : Outcome α T, first.Agrees second →
      (next first).Agrees (next second))
    (hagrees : first.Agrees second) : (first.onFailure next).Agrees (second.onFailure next) := by
  cases hagrees with
  | succeeded hvalue hobservations => exact .succeeded hvalue hobservations
  | failed hobservations => exact hnext _ _ (.failed hobservations)

theorem detached (hagrees : first.Agrees second) :
    List.Forall₂ Observation.Agrees first.detached second.detached := by
  rw [Outcome.detached, Outcome.detached, hagrees.remainder_eq, List.forall₂_map_left_iff,
    List.forall₂_map_right_iff]
  exact hagrees.observations_agree.imp fun _ _ hhead => hhead.detach _

end Agrees

/-! ## Nothing tells them apart -/

/-- Whether a function gives the same results for what is the same. -/
def Respectful {A B : Type} [BEq A] [BEq B] (f : A → B) : Prop :=
  ∀ a a' : A, (a == a') = true → (f a == f a') = true

theorem Respectful.agrees [DecidableEq α] [BEq T] [BEq U] {next : Outcome α T → Outcome α U}
    (hnext : Respectful next) (first second : Outcome α T) (hagrees : first.Agrees second) :
    (next first).Agrees (next second) :=
  beq_iff_agrees.mp (hnext first second (beq_iff_agrees.mpr hagrees))

/-- Whether neither what is read off two outcomes nor what is made from them tells them
apart.  Their texts are the same if values that are the same are shown alike. -/
structure Indistinct [DecidableEq α] [Symbol α] [BEq T] [ToString T]
    (first second : Outcome α T) : Prop where
  display_eq : (∀ value value' : T, (value == value') = true →
    toString value = toString value') → first.display = second.display
  report_eq : (∀ value value' : T, (value == value') = true →
    toString value = toString value') → first.report = second.report
  recentlyConsumed_eq : first.recentlyConsumed = second.recentlyConsumed
  location_eq : first.location = second.location
  errors_beq : (first.errors == second.errors) = true
  map_beq : ∀ {U : Type} [BEq U] (f : T → U), Respectful f →
    (first.map f == second.map f) = true
  withObservation_beq : ∀ observation observation' : Observation,
    (observation == observation') = true →
    (first.withObservation observation == second.withObservation observation') = true
  onSuccess_beq : ∀ {U : Type} [BEq U] (next : Outcome α T → Outcome α U), Respectful next →
    (first.onSuccess next == second.onSuccess next) = true
  onFailure_beq : ∀ next : Outcome α T → Outcome α T, Respectful next →
    (first.onFailure next == second.onFailure next) = true
  furthest_eq : (Observation.furthest? first.observations).map Prod.snd =
    (Observation.furthest? second.observations).map Prod.snd
  furthest_detached_eq : (Observation.furthest? first.detached).map Prod.snd =
    (Observation.furthest? second.detached).map Prod.snd

theorem Agrees.indistinct [DecidableEq α] [Symbol α] [BEq T] [ToString T]
    {first second : Outcome α T} (hagrees : first.Agrees second) :
    Indistinct first second where
  display_eq hshown := hagrees.display_eq hshown
  report_eq hshown := by
    have hlocation : first.location = second.location :=
      congrArg Cursor.location hagrees.remainder_eq
    -- the remainders are equal, so the lines around them are those of one source
    refine report_congr (hagrees.display_eq hshown) hlocation fun number _ _ _ => ?_
    rw [hagrees.remainder_eq]
  recentlyConsumed_eq := by rw [recentlyConsumed_eq, recentlyConsumed_eq, hagrees.remainder_eq]
  location_eq := congrArg Cursor.location hagrees.remainder_eq
  errors_beq := Observation.list_beq_iff.mpr
    (Observation.filter_isError_agrees hagrees.observations_agree)
  map_beq f hf := beq_iff_agrees.mpr (hagrees.map hf)
  withObservation_beq observation observation' hadded :=
    beq_iff_agrees.mpr (hagrees.withObservation (Observation.beq_iff_agrees.mp hadded))
  onSuccess_beq next hnext := beq_iff_agrees.mpr (hagrees.onSuccess hnext.agrees)
  onFailure_beq next hnext := beq_iff_agrees.mpr (hagrees.onFailure hnext.agrees)
  furthest_eq := Observation.furthest?_place_congr hagrees.observations_agree
  furthest_detached_eq := Observation.furthest?_place_congr hagrees.detached

/-- **Sameness of outcomes is a congruence**: outcomes that are the same cannot be told
apart.  And it is an equivalence, if sameness of values is one. -/
theorem sameness_is_congruence [DecidableEq α] [Symbol α] [BEq T] [ToString T] :
    (∀ first second : Outcome α T, (first == second) = true → Indistinct first second) ∧
      ((Equivalence fun value value' : T => (value == value') = true) →
        Equivalence fun first second : Outcome α T => (first == second) = true) := by
  constructor
  · intro first second hsame
    exact (beq_iff_agrees.mp hsame).indistinct
  · intro hvalues
    have hequiv : EquivBEq T :=
      { rfl := hvalues.refl _, symm := hvalues.symm, trans := hvalues.trans }
    refine ⟨fun outcome => ?_, fun hsame => ?_, fun hfirst hsecond => ?_⟩
    · exact beq_iff_agrees.mpr (.refl outcome)
    · exact beq_iff_agrees.mpr (beq_iff_agrees.mp hsame).symm
    · exact beq_iff_agrees.mpr ((beq_iff_agrees.mp hfirst).trans (beq_iff_agrees.mp hsecond))

/-! ## Labels in two orders -/

def failedExpecting (labels : List String) (hnodup : labels.Nodup) : Outcome UInt8 Nat :=
  .failed failedAmidShort.remainder [Sample.missing "digit" labels hnodup]

/-- Two failures that list their labels in two orders are the same, but not equal. -/
theorem indistinct_in_either_order :
    (failedExpecting ["digit", "sign"] (by decide) ==
        failedExpecting ["sign", "digit"] (by decide)) = true ∧
      failedExpecting ["digit", "sign"] (by decide) ≠
        failedExpecting ["sign", "digit"] (by decide) ∧
      Indistinct (failedExpecting ["digit", "sign"] (by decide))
        (failedExpecting ["sign", "digit"] (by decide)) ∧
      Equivalence fun first second : Outcome UInt8 Nat => (first == second) = true := by
  obtain ⟨hcongruence, hequivalence⟩ := @sameness_is_congruence UInt8 Nat _ _ _ _
  have hsame : (failedExpecting ["digit", "sign"] (by decide) ==
      failedExpecting ["sign", "digit"] (by decide)) = true := by decide
  refine ⟨hsame, ?_, hcongruence _ _ hsame, hequivalence ⟨fun _ => BEq.rfl, BEq.symm, BEq.trans⟩⟩
  intro heq
  have hlabels := congrArg (fun outcome => outcome.observations.map Observation.expectations) heq
  exact absurd hlabels (by decide)

end Outcome

end ParseOutcome
