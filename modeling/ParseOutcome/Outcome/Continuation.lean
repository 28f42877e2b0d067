import ParseOutcome.Outcome.Basic

/-!
# Continuing from an outcome

Two primitives chain the steps of a parse: one goes on only after a success, the
other only after a failure, and each hands the whole outcome to what comes next.
Whatever is not gone on from is passed along with its cursor and observations
untouched, so the last step that ran is the one whose remarks are kept.

Each comes in two forms.  In the plain form what comes next is a function.  In
the form whose name ends in `M` it may also act in a monad: it may write a log,
keep count, or run out of fuel; and it acts at most once, or not at all where it
is not called.
-/

namespace ParseOutcome.Outcome

variable {α T U : Type} {m : Type → Type}

/-- Goes on with `next` after a success; a failure stays what it is. -/
def onSuccess (outcome : Outcome α T) (next : Outcome α T → Outcome α U) : Outcome α U :=
  match outcome with
  | succeeded value remainder observations => next (succeeded value remainder observations)
  | failed remainder observations => failed remainder observations

/-- Goes on with `next` after a failure; a success stays what it is. -/
def onFailure (outcome : Outcome α T) (next : Outcome α T → Outcome α T) : Outcome α T :=
  match outcome with
  | succeeded value remainder observations => succeeded value remainder observations
  | failed remainder observations => next (failed remainder observations)

/-- Replaces the value, if there is one, by its image. -/
def map (outcome : Outcome α T) (f : T → U) : Outcome α U :=
  match outcome with
  | succeeded value remainder observations => succeeded (f value) remainder observations
  | failed remainder observations => failed remainder observations

/-! ## What a map changes -/

@[simp] theorem value?_map (outcome : Outcome α T) (f : T → U) :
    (outcome.map f).value? = outcome.value?.map f := by
  cases outcome <;> rfl

@[simp] theorem remainder_map (outcome : Outcome α T) (f : T → U) :
    (outcome.map f).remainder = outcome.remainder := by
  cases outcome <;> rfl

@[simp] theorem observations_map (outcome : Outcome α T) (f : T → U) :
    (outcome.map f).observations = outcome.observations := by
  cases outcome <;> rfl

/-! ## Continuations that act -/

/-- Goes on with `next`, which may act, after a success; a failure stays what it
is, and `next` does nothing. -/
def onSuccessM [Pure m] (outcome : Outcome α T) (next : Outcome α T → m (Outcome α U)) :
    m (Outcome α U) :=
  match outcome with
  | succeeded value remainder observations => next (succeeded value remainder observations)
  | failed remainder observations => pure (failed remainder observations)

/-- Goes on with `next`, which may act, after a failure; a success stays what it
is, and `next` does nothing. -/
def onFailureM [Pure m] (outcome : Outcome α T) (next : Outcome α T → m (Outcome α T)) :
    m (Outcome α T) :=
  match outcome with
  | succeeded value remainder observations => pure (succeeded value remainder observations)
  | failed remainder observations => next (failed remainder observations)

/-- Replaces the value, if there is one, by its image under `f`, which may act. -/
def mapM [Monad m] (outcome : Outcome α T) (f : T → m U) : m (Outcome α U) :=
  match outcome with
  | succeeded value remainder observations => do
      return succeeded (← f value) remainder observations
  | failed remainder observations => pure (failed remainder observations)

/-- The plain form is the form that acts, where there is nothing to do. -/
theorem onSuccessM_pure [Pure m] (outcome : Outcome α T) (next : Outcome α T → Outcome α U) :
    outcome.onSuccessM (fun reached => (pure (next reached) : m (Outcome α U))) =
      pure (outcome.onSuccess next) := by
  cases outcome <;> rfl

theorem onFailureM_pure [Pure m] (outcome : Outcome α T) (next : Outcome α T → Outcome α T) :
    outcome.onFailureM (fun reached => (pure (next reached) : m (Outcome α T))) =
      pure (outcome.onFailure next) := by
  cases outcome <;> rfl

theorem mapM_pure [Monad m] [LawfulMonad m] (outcome : Outcome α T) (f : T → U) :
    outcome.mapM (fun value => (pure (f value) : m U)) = pure (outcome.map f) := by
  cases outcome with
  | succeeded value remainder observations => simp [mapM, map]
  | failed remainder observations => rfl

/-! ## Which outcomes are gone on from -/

theorem onSuccessM_of_hasValue [Pure m] {outcome : Outcome α T}
    {next : Outcome α T → m (Outcome α U)} (succeeded : outcome.hasValue = true) :
    outcome.onSuccessM next = next outcome := by
  cases outcome with
  | succeeded value remainder observations => rfl
  | failed remainder observations => exact absurd succeeded (by simp [hasValue])

theorem onFailureM_of_hasValue [Pure m] {outcome : Outcome α T}
    {next : Outcome α T → m (Outcome α T)} (succeeded : outcome.hasValue = true) :
    outcome.onFailureM next = pure outcome := by
  cases outcome with
  | succeeded value remainder observations => rfl
  | failed remainder observations => exact absurd succeeded (by simp [hasValue])

theorem onFailureM_of_failed [Pure m] {outcome : Outcome α T}
    {next : Outcome α T → m (Outcome α T)} (failed : outcome.hasValue = false) :
    outcome.onFailureM next = next outcome := by
  rw [eq_failed_of_hasValue failed]
  rfl

/-! ## Regrouping -/

/-- Two steps after a success may be taken one after the other or as one. -/
theorem onSuccessM_assoc {V : Type} [Monad m] [LawfulMonad m] (outcome : Outcome α T)
    (first : Outcome α T → m (Outcome α U)) (second : Outcome α U → m (Outcome α V)) :
    (outcome.onSuccessM first >>= fun middle => middle.onSuccessM second) =
      outcome.onSuccessM fun reached => first reached >>= fun middle =>
        middle.onSuccessM second := by
  cases outcome with
  | succeeded value remainder observations => rfl
  | failed remainder observations => simp [onSuccessM]

/-- Two alternatives to a failure may be tried one after the other or as one. -/
theorem onFailureM_assoc [Monad m] [LawfulMonad m] (outcome : Outcome α T)
    (first second : Outcome α T → m (Outcome α T)) :
    (outcome.onFailureM first >>= fun middle => middle.onFailureM second) =
      outcome.onFailureM fun reached => first reached >>= fun middle =>
        middle.onFailureM second := by
  cases outcome with
  | succeeded value remainder observations => simp [onFailureM]
  | failed remainder observations => rfl

end ParseOutcome.Outcome
