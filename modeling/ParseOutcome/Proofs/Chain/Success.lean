import ParseOutcome.Proofs.Chain.Basic

/-!
# Going on after success

A chain whose links are taken after successes stops at the first failure: the links
up to there are invoked once each, in order, on what the one before them came to,
and the failure is passed along to the end with its remainder and observations.
The links may be nested to the left, each chained to the chain before it, or to the
right, each continuing with the chain after it; this makes no difference.

A chain that is nested to the left ends on its last link, and so does one that is nested
to the right once its links have been regrouped (`rightNested_succ`).  The regrouping
holds in every lawful monad, so whatever the links do on the side, they do it in the same
order.  What a chain comes to is then read off the one that is nested to the left.
-/

namespace ParseOutcome.Chain

variable {α : Type} {T : Nat → Type} {m : Type → Type} [Monad m]

/-- The first `count` links, each taken after a success of the chain before it. -/
def leftNested (link : ∀ i, Outcome α (T i) → m (Outcome α (T (i + 1)))) (count : Nat)
    (first : Outcome α (T 0)) : m (Outcome α (T count)) :=
  nested (fun _ => Outcome.onSuccessM) link count first

/-- The first `count` links, each continuing with the chain after it. -/
def rightNested {T : Nat → Type} (link : ∀ i, Outcome α (T i) → m (Outcome α (T (i + 1)))) :
    (count : Nat) → Outcome α (T 0) → m (Outcome α (T count))
  | 0, first => pure first
  | count + 1, first =>
      first.onSuccessM fun before => do
        rightNested (fun i => link (i + 1)) count (← link 0 before)

/-! ## Both nestings are one computation -/

variable [LawfulMonad m]

/-- The last link may be taken off a chain that is nested to the right. -/
theorem rightNested_succ (link : ∀ i, Outcome α (T i) → m (Outcome α (T (i + 1)))) (count : Nat)
    (first : Outcome α (T 0)) :
    rightNested link (count + 1) first =
      rightNested link count first >>= fun before => before.onSuccessM (link count) := by
  -- the first link is taken off on both sides, so the links of the hypothesis are the later ones
  induction count generalizing T with
  | zero =>
      show (first.onSuccessM fun before => link 0 before >>= pure) =
        pure first >>= fun before => before.onSuccessM (link 0)
      simp only [bind_pure, pure_bind]
  | succ count ih =>
      have hlater : ∀ before, rightNested (fun i => link (i + 1)) (count + 1) before =
          rightNested (fun i => link (i + 1)) count before >>= fun last =>
            last.onSuccessM (link (count + 1)) := ih fun i => link (i + 1)
      rw [rightNested, rightNested, Outcome.onSuccessM_assoc]
      simp only [hlater, bind_assoc]

/-- **The nesting makes no difference**, whatever the links do on the side. -/
theorem leftNested_eq_rightNested (link : ∀ i, Outcome α (T i) → m (Outcome α (T (i + 1))))
    (count : Nat) (first : Outcome α (T 0)) :
    leftNested link count first = rightNested link count first := by
  induction count with
  | zero => rfl
  | succ count ih =>
      calc leftNested link (count + 1) first
          = leftNested link count first >>= fun before => before.onSuccessM (link count) := rfl
        _ = rightNested link count first >>= fun before => before.onSuccessM (link count) := by
            rw [ih]
        _ = rightNested link (count + 1) first := (rightNested_succ link count first).symm

/-! ## What a chain comes to -/

/-- **A chain stops at its first failure.**  Of `count` links those before `stop` are
invoked, where `stop` is the first place at which a failure is reached, if one is:
once each, in order, on just what the one before came to.  If no failure keeps a
link from running, the chain comes to what its last link came to, and otherwise to
the failure, with its remainder and observations.  Nested to the right, the chain
is the same computation. -/
theorem success_chain_stops_at_first_failure
    (link : ∀ i, Outcome α (T i) → Outcome α (T (i + 1))) (first : Outcome α (T 0))
    (count : Nat) :
    rightNested (noted link) count first = leftNested (noted link) count first ∧
      ∃ stop ≤ count, ∃ result,
        (∀ i < stop, (reached link first i).hasValue = true) ∧
        (stop < count → (reached link first stop).hasValue = false) ∧
        (leftNested (noted link) count first).run [] =
          (result, invocations link first stop) ∧
        (stop = count → result = reached link first count) ∧
        (stop < count →
          result = .failed (reached link first stop).remainder
            (reached link first stop).observations) := by
  refine ⟨(leftNested_eq_rightNested (noted link) count first).symm, ?_⟩
  obtain ⟨stop, hle, hbefore, hat⟩ :=
    exists_stop (fun i => (reached link first i).hasValue) count
  have hrun : (leftNested (noted link) stop first).run [] =
      (reached link first stop, invocations link first stop) := by
    refine run_nested_of_goesOn fun i hi next => ?_
    exact Outcome.onSuccessM_of_hasValue (hbefore i hi)
  rcases Nat.lt_or_eq_of_le hle with hlt | rfl
  · obtain ⟨further, rfl⟩ := Nat.exists_eq_add_of_le hle
    have hfailed := Outcome.eq_failed_of_hasValue (hat hlt)
    refine ⟨stop, hle, .failed _ _, hbefore, hat, ?_, fun heq => absurd heq (by omega),
      fun _ => rfl⟩
    -- the failure is passed along to the end of the chain, at every type on the way
    refine run_nested_of_passes (fun _ => .failed _ _) ?_ (fun _ _ => rfl) further
    rw [← hfailed]
    exact hrun
  · exact ⟨stop, hle, reached link first stop, hbefore, hat, hrun, fun _ => rfl,
      fun hlt => absurd hlt (Nat.lt_irrefl _)⟩

end ParseOutcome.Chain
