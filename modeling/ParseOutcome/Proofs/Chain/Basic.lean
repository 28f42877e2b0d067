import ParseOutcome.Outcome.Continuation

/-!
# Chains of continuations

A chain begins at an outcome and has links, which are continuations.  Link `i` is
handed an outcome with a value of type `T i` and makes one with a value of type
`T (i + 1)`, so the type of the value may change from link to link.  Between two
links the chain goes on or not: after a success, or after a failure.

What a chain does is told by what it comes to and by its invocations, that is, by
which links were handed which outcomes, in the order of time.  Both are measured
against the outcomes that applying every link in turn would reach.

There is a first place at which a chain does not go on, or none (`exists_stop`).  Up to
there every link is invoked once, on what the one before it came to; from there on, no
link is.
-/

namespace ParseOutcome.Chain

variable {α : Type} {T : Nat → Type} {m : Type → Type}

/-! ## What the links reach -/

/-- What the first `count` links reach when each is applied to what the one before
it came to. -/
def reached (link : ∀ i, Outcome α (T i) → Outcome α (T (i + 1))) (first : Outcome α (T 0)) :
    (count : Nat) → Outcome α (T count)
  | 0 => first
  | count + 1 => link count (reached link first count)

/-- A link that was invoked, and the outcome that it was handed. -/
structure Invocation (α : Type) (T : Nat → Type) where
  index : Nat
  handed : Outcome α (T index)

/-- The invocations of the first `count` links, each on what the one before it came
to. -/
def invocations (link : ∀ i, Outcome α (T i) → Outcome α (T (i + 1)))
    (first : Outcome α (T 0)) (count : Nat) : List (Invocation α T) :=
  (List.range count).map fun i => ⟨i, reached link first i⟩

/-- The links, each of which notes its invocations. -/
def noted (link : ∀ i, Outcome α (T i) → Outcome α (T (i + 1))) (i : Nat)
    (handed : Outcome α (T i)) : StateM (List (Invocation α T)) (Outcome α (T (i + 1))) := do
  modify fun earlier => earlier ++ [⟨i, handed⟩]
  return link i handed

theorem invocations_succ (link : ∀ i, Outcome α (T i) → Outcome α (T (i + 1)))
    (first : Outcome α (T 0)) (count : Nat) :
    invocations link first (count + 1) =
      invocations link first count ++ [⟨count, reached link first count⟩] := by
  simp [invocations, List.range_succ]

/-! ## Chains nested around the first outcome -/

/-- The first `count` links, each chained by `goOn` to the chain before it. -/
def nested [Monad m]
    (goOn : ∀ i, Outcome α (T i) → (Outcome α (T i) → m (Outcome α (T (i + 1)))) →
      m (Outcome α (T (i + 1))))
    (link : ∀ i, Outcome α (T i) → m (Outcome α (T (i + 1)))) :
    (count : Nat) → Outcome α (T 0) → m (Outcome α (T count))
  | 0, first => pure first
  | count + 1, first => do goOn count (← nested goOn link count first) (link count)

section Run

variable
  {goOn : ∀ i, Outcome α (T i) →
    (Outcome α (T i) → StateM (List (Invocation α T)) (Outcome α (T (i + 1)))) →
      StateM (List (Invocation α T)) (Outcome α (T (i + 1)))}
  {link : ∀ i, Outcome α (T i) → Outcome α (T (i + 1))} {first : Outcome α (T 0)}

theorem run_nested_of_goesOn {count : Nat}
    (hgoes : ∀ i < count, ∀ next,
      goOn i (reached link first i) next = next (reached link first i)) :
    (nested goOn (noted link) count first).run [] =
      (reached link first count, invocations link first count) := by
  induction count with
  | zero => rfl
  | succ count ih =>
      have hbefore := ih fun i hi => hgoes i (Nat.lt_succ_of_lt hi)
      have hlast := hgoes count (Nat.lt_succ_self count) (noted link count)
      rw [nested, StateT.run_bind, hbefore, invocations_succ]
      show (goOn count (reached link first count) (noted link count)).run _ = _
      rw [hlast]
      rfl

theorem run_nested_of_passes {stop : Nat} {log : List (Invocation α T)}
    (passed : ∀ further, Outcome α (T (stop + further)))
    (hstop : (nested goOn (noted link) stop first).run [] = (passed 0, log))
    (hpasses : ∀ further next,
      goOn (stop + further) (passed further) next = pure (passed (further + 1)))
    (further : Nat) :
    (nested goOn (noted link) (stop + further) first).run [] = (passed further, log) := by
  induction further with
  | zero => exact hstop
  | succ further ih =>
      show (nested goOn (noted link) (stop + further) first >>= fun before =>
        goOn (stop + further) before (noted link (stop + further))).run [] = _
      rw [StateT.run_bind, ih]
      show (goOn (stop + further) (passed further) (noted link (stop + further))).run _ = _
      rw [hpasses]
      rfl

end Run

theorem exists_stop (goesOn : Nat → Bool) (count : Nat) :
    ∃ stop ≤ count, (∀ i < stop, goesOn i = true) ∧ (stop < count → goesOn stop = false) := by
  induction count with
  | zero => exact ⟨0, Nat.le_refl 0, by simp, by simp⟩
  | succ count ih =>
      obtain ⟨stop, hle, hbefore, hat⟩ := ih
      by_cases hstop : stop < count ∨ goesOn stop = false
      · refine ⟨stop, by omega, hbefore, fun _ => ?_⟩
        exact hstop.elim hat id
      · have hcount : stop = count := by omega
        subst hcount
        refine ⟨stop + 1, Nat.le_refl _, fun i hi => ?_, by simp⟩
        rcases Nat.lt_succ_iff_lt_or_eq.mp hi with hlt | rfl
        · exact hbefore i hlt
        · simpa using hstop

end ParseOutcome.Chain
