import Mathlib.Algebra.GroupWithZero.Nat
import ParseOutcome.Proofs.Chain.Basic

/-!
# Ordered choice

Alternatives taken after failures stop at the first success, which is passed along
to the end as it is.  Until then each is invoked once, in order, on the failure left
by the one before it; if none succeeds, the last failure remains.

Alternatives that stand next to each other may be grouped, and the groups be grouped
in turn.  A group of two tries its second part on the failure that its first part
has left.  A list of groups covers every way to write a choice of its alternatives,
from all of them in one group to each in a group of its own.

The alternatives of a choice that is grouped in any way are its alternatives in turn
(`choose_eq_inTurn`), so what it comes to is said for these alone.
-/

namespace ParseOutcome.Chain

variable {α T : Type} {m : Type → Type} [Monad m]

/-- How alternatives that stand next to each other are grouped. -/
inductive Grouping where
  | single
  | pair (first second : Grouping)

/-- The number of alternatives in a group. -/
def Grouping.size : Grouping → Nat
  | single => 1
  | pair first second => first.size + second.size

/-- Tries a group on a failure; its alternatives are those from `place` on. -/
def Grouping.run (alternative : Nat → Outcome α T → m (Outcome α T)) :
    Grouping → Nat → Outcome α T → m (Outcome α T)
  | single, place, failed => alternative place failed
  | pair first second, place, failed => do
      (← first.run alternative place failed).onFailureM
        (second.run alternative (place + first.size))

/-- The groups, each taken after a failure of what comes before it; their
alternatives are those from `place` on. -/
def choose (alternative : Nat → Outcome α T → m (Outcome α T)) :
    List Grouping → Nat → Outcome α T → m (Outcome α T)
  | [], _, first => pure first
  | group :: rest, place, first => do
      choose alternative rest (place + group.size)
        (← first.onFailureM (group.run alternative place))

/-- The number of alternatives in a list of groups. -/
def alternatives (groups : List Grouping) : Nat :=
  (groups.map Grouping.size).sum

/-- The first `count` alternatives, each taken after a failure of what comes before
it. -/
def inTurn (alternative : Nat → Outcome α T → m (Outcome α T)) (count : Nat)
    (first : Outcome α T) : m (Outcome α T) :=
  nested (T := fun _ => T) (fun _ => Outcome.onFailureM) alternative count first

/-! ## Every grouping is one computation -/

variable [LawfulMonad m]

theorem inTurn_add (alternative : Nat → Outcome α T → m (Outcome α T)) (before after : Nat)
    (first : Outcome α T) :
    inTurn alternative (before + after) first =
      inTurn alternative before first >>= inTurn (fun i => alternative (before + i)) after := by
  induction after with
  | zero => exact (bind_pure _).symm
  | succ after ih =>
      show (inTurn alternative (before + after) first >>= fun reached =>
        reached.onFailureM (alternative (before + after))) = _
      rw [ih, bind_assoc]
      rfl

/-- A group taken after a failure is its alternatives, one after the other. -/
theorem onFailureM_run (alternative : Nat → Outcome α T → m (Outcome α T)) (group : Grouping)
    (place : Nat) (first : Outcome α T) :
    first.onFailureM (group.run alternative place) =
      inTurn (fun i => alternative (place + i)) group.size first := by
  induction group generalizing place first with
  | single => exact (pure_bind first fun reached => reached.onFailureM (alternative place)).symm
  | pair left right ihleft ihright =>
      calc first.onFailureM ((Grouping.pair left right).run alternative place)
          = first.onFailureM (left.run alternative place) >>= fun reached =>
              reached.onFailureM (right.run alternative (place + left.size)) :=
            (Outcome.onFailureM_assoc first _ _).symm
        _ = inTurn (fun i => alternative (place + i)) left.size first >>=
              inTurn (fun i => alternative (place + left.size + i)) right.size := by
            rw [ihleft]
            congr 1
            funext reached
            exact ihright (place + left.size) reached
        _ = inTurn (fun i => alternative (place + i)) (left.size + right.size) first := by
            rw [inTurn_add]
            simp only [Nat.add_assoc]

/-- **The grouping makes no difference**, whatever the alternatives do on the
side. -/
theorem choose_eq_inTurn (alternative : Nat → Outcome α T → m (Outcome α T))
    (groups : List Grouping) (place : Nat) (first : Outcome α T) :
    choose alternative groups place first =
      inTurn (fun i => alternative (place + i)) (alternatives groups) first := by
  induction groups generalizing place first with
  | nil => rfl
  | cons group rest ih =>
      have hcount : alternatives (group :: rest) = group.size + alternatives rest := by
        simp [alternatives]
      rw [choose, hcount, inTurn_add, onFailureM_run]
      congr 1
      funext reached
      rw [ih]
      simp only [Nat.add_assoc]

/-! ## What a choice comes to -/

/-- **A choice stops at its first success.**  However its alternatives are grouped,
those before `stop` are invoked, where `stop` is the first place at which a success
is reached, if one is: once each, in order, on just the failure left by the one
before.  The choice comes to what is reached there, as it is. -/
theorem choice_stops_at_first_success (alternative : Nat → Outcome α T → Outcome α T)
    (groups : List Grouping) (first : Outcome α T) :
    choose (noted alternative) groups 0 first =
        inTurn (noted alternative) (alternatives groups) first ∧
      ∃ stop ≤ alternatives groups,
        (∀ i < stop, (reached alternative first i).hasValue = false) ∧
        (stop < alternatives groups → (reached alternative first stop).hasValue = true) ∧
        (choose (noted alternative) groups 0 first).run [] =
          (reached alternative first stop, invocations alternative first stop) := by
  have hgrouping : choose (noted alternative) groups 0 first =
      inTurn (noted alternative) (alternatives groups) first := by
    simpa only [Nat.zero_add] using choose_eq_inTurn (noted alternative) groups 0 first
  refine ⟨hgrouping, ?_⟩
  rw [hgrouping]
  obtain ⟨stop, hle, hbefore, hat⟩ := exists_stop
    (fun i => !(reached alternative first i).hasValue) (alternatives groups)
  simp only [Bool.not_eq_true', Bool.not_eq_false'] at hbefore hat
  refine ⟨stop, hle, hbefore, hat, ?_⟩
  -- up to the first success every alternative is invoked, on the failure of the one before it
  have hrun : (inTurn (noted alternative) stop first).run [] =
      (reached alternative first stop, invocations alternative first stop) := by
    refine run_nested_of_goesOn fun i hi next => ?_
    exact Outcome.onFailureM_of_failed (hbefore i hi)
  rcases Nat.lt_or_eq_of_le hle with hlt | heq
  · -- a success was reached, and the alternatives that are left pass it along
    obtain ⟨further, hfurther⟩ := Nat.exists_eq_add_of_le hle
    rw [hfurther]
    refine run_nested_of_passes (T := fun _ => T) (fun _ => reached alternative first stop) hrun
      (fun _ _ => ?_) further
    exact Outcome.onFailureM_of_hasValue (hat hlt)
  · rw [← heq]
    exact hrun

end ParseOutcome.Chain
