import Mathlib.Data.Finset.Card
import Mathlib.Data.Finset.Prod
import Mathlib.Data.Finset.Range
import Mathlib.Order.Monotone.Basic
import ParseOutcome.Proofs.Grammar.Simulation
import ParseOutcome.Proofs.Sample

/-!
# How deep calls nest

A parse that ends nests its calls to some depth, and `Grammar.run` has a result for every parse
that ends: the depth it allows for is enough.

Call a name and a place answered at a depth if the call has a result with so much depth.  There are
as many names as rules, and as many places from the beginning of the parse on as symbols remain and
one more.  With more depth, what has been answered stays answered.  And if one level more answers
nothing new, no number of levels does, because a call comes to what it comes to by calls at the
places it can reach (`Settled.succ`).  So the answers grow with every level, or have stopped
growing for good, and they cannot grow beyond the number of names and places.  One level more is
needed to begin with, since even a name that stands for nothing is answered only where some depth
is left.
-/

namespace ParseOutcome

variable {α β : Type}

theorem Simulated.trans {σ : Type} {property property' : β → Prop}
    {first second third : StateT σ Option β} (hfirst : Simulated Eq property first second)
    (hsecond : Simulated Eq property' second third) : Simulated Eq property first third := by
  rintro state _ rfl result after hrun
  obtain ⟨holds, _, hbetween, rfl⟩ := hfirst state state rfl result after hrun
  exact ⟨holds, (hsecond state state rfl result after hbetween).2⟩

namespace Grammar

variable [DecidableEq α] [Symbol α] {grammar : Grammar α} {start place : Cursor α} {name : String}
  {depth more : Nat}

/-! ## Calls that are answered -/

/-- Whether a call has a result. -/
def Answered (grammar : Grammar α) (depth : Nat) (name : String) (place : Cursor α) : Prop :=
  ∃ log result, (grammar.call depth name place).run log = some result

theorem call_simulated (hle : depth ≤ more) (place : Cursor α) (name : String) :
    Simulated Eq (Outcome.From (fun _ => True) place) (grammar.call depth name place)
      (grammar.call more name place) := by
  have hcalls : CallsSimulated Eq (fun _ => True) (grammar.call depth) (grammar.call more) place :=
    calls_simulated keptByVisits_eq (fun _ _ => trivial) hle (fun _ _ _ _ => trivial)
  exact hcalls place (.refl place) name

/-- Whether there is a result does not hang on what is in the log. -/
theorem Answered.exists_run (hanswered : grammar.Answered depth name place) (log : List Visit) :
    ∃ result, (grammar.call depth name place).run log = some result := by
  obtain ⟨log', ⟨outcome, after⟩, hrun⟩ := hanswered
  -- side by side with itself, from any two logs
  have hany : Simulated (fun _ _ => True) (Outcome.From (fun _ => True) place)
      (grammar.call depth name place) (grammar.call depth name place) :=
    calls_simulated (fun _ _ _ _ => trivial) (fun _ _ => trivial) (Nat.le_refl depth)
      (fun _ _ _ _ => trivial) place (.refl place) name
  obtain ⟨-, after', hrun', -⟩ := hany log' log trivial outcome after hrun
  exact ⟨_, hrun'⟩

theorem Answered.mono (hanswered : grammar.Answered depth name place) (hle : depth ≤ more) :
    grammar.Answered more name place := by
  obtain ⟨log, ⟨outcome, after⟩, hrun⟩ := hanswered
  obtain ⟨-, _, hrun', -⟩ := call_simulated hle place name log log rfl outcome after hrun
  exact ⟨log, _, hrun'⟩

/-! ## One level more -/

/-- Whether no call from `start` on comes to more with one level more. -/
def Settled (grammar : Grammar α) (start : Cursor α) (depth : Nat) : Prop :=
  CallsSimulated Eq (fun _ => True) (grammar.call (depth + 1)) (grammar.call depth) start

/-- **What is settled stays settled.** -/
theorem Settled.succ (hsettled : grammar.Settled start depth) :
    grammar.Settled start (depth + 1) := by
  intro place hplace name
  unfold Grammar.call
  cases hlookup : grammar.rules.lookup name with
  | none => exact simulated_pure ⟨.refl place, fun _ _ => trivial⟩
  | some step =>
      exact step.run_simulated keptByVisits_eq (fun _ _ => trivial) (fun _ _ _ _ => trivial)
        (CallsSimulated.later hsettled hplace)

theorem Settled.of_le (hsettled : grammar.Settled start depth) (hle : depth ≤ more) :
    CallsSimulated Eq (fun _ => True) (grammar.call more) (grammar.call depth) start := by
  suffices hboth : grammar.Settled start more ∧
      CallsSimulated Eq (fun _ => True) (grammar.call more) (grammar.call depth) start from hboth.2
  induction hle with
  | refl => exact ⟨hsettled, fun place _ name => call_simulated (Nat.le_refl depth) place name⟩
  | step _ ih =>
      obtain ⟨hsettled', hcalls⟩ := ih
      exact ⟨hsettled'.succ, fun place hplace name =>
        (hsettled' place hplace name).trans (hcalls place hplace name)⟩

/-- Calls are settled if no name is answered at a new place.  Names that stand for nothing are
answered alike at all depths but none. -/
theorem settled_succ_of_answered
    (hanswered : ∀ name ∈ grammar.rules.map Prod.fst, ∀ place, start.Precedes place →
      grammar.Answered (depth + 2) name place → grammar.Answered (depth + 1) name place) :
    grammar.Settled start (depth + 1) := by
  intro place hplace name
  cases hlookup : grammar.rules.lookup name with
  | none =>
      unfold Grammar.call
      rw [hlookup]
      exact simulated_pure ⟨.refl place, fun _ _ => trivial⟩
  | some step =>
      have hname : name ∈ grammar.rules.map Prod.fst :=
        List.mem_map_of_mem (mem_of_lookup hlookup)
      rintro log _ rfl outcome after hrun
      obtain ⟨⟨outcome', after'⟩, hrun'⟩ :=
        (hanswered name hname place hplace ⟨log, _, hrun⟩).exists_run log
      -- the deeper call has the result of the other, so the results are one
      obtain ⟨hfrom, _, hdeeper, rfl⟩ :=
        call_simulated (Nat.le_succ (depth + 1)) place name log log rfl outcome' after' hrun'
      obtain ⟨rfl, rfl⟩ := Prod.mk.inj (Option.some.inj (hdeeper.symm.trans hrun))
      exact ⟨hfrom, after', hrun', rfl⟩

/-! ## Counting -/

open Classical in
/-- The names, each with how far on it is called, that are answered at a depth. -/
noncomputable def answered (grammar : Grammar α) (start : Cursor α) (depth : Nat) :
    Finset (String × Nat) :=
  ((grammar.rules.map Prod.fst).toFinset ×ˢ Finset.range (start.remaining + 1)).filter
    fun call => grammar.Answered depth call.1 (start.advance call.2)

theorem mem_answered {call : String × Nat} :
    call ∈ grammar.answered start depth ↔
      (call.1 ∈ grammar.rules.map Prod.fst ∧ call.2 < start.remaining + 1) ∧
        grammar.Answered depth call.1 (start.advance call.2) := by
  simp [answered]

theorem card_answered_le (grammar : Grammar α) (start : Cursor α) (depth : Nat) :
    (grammar.answered start depth).card ≤ grammar.rules.length * (start.remaining + 1) := by
  calc (grammar.answered start depth).card
      ≤ ((grammar.rules.map Prod.fst).toFinset ×ˢ Finset.range (start.remaining + 1)).card := by
        classical exact Finset.card_filter_le _ _
    _ = (grammar.rules.map Prod.fst).toFinset.card * (start.remaining + 1) := by
        rw [Finset.card_product, Finset.card_range]
    _ ≤ grammar.rules.length * (start.remaining + 1) := by
        have hnames := List.toFinset_card_le (grammar.rules.map Prod.fst)
        rw [List.length_map] at hnames
        exact Nat.mul_le_mul_right _ hnames

theorem answered_mono (hle : depth ≤ more) :
    grammar.answered start depth ⊆ grammar.answered start more := by
  intro call hcall
  obtain ⟨hnamed, hanswered⟩ := mem_answered.mp hcall
  exact mem_answered.mpr ⟨hnamed, hanswered.mono hle⟩

/-- Calls are settled just where one level more does not answer more of them. -/
theorem settled_succ_iff :
    grammar.Settled start (depth + 1) ↔
      (grammar.answered start (depth + 1)).card = (grammar.answered start (depth + 2)).card := by
  have hsubset : grammar.answered start (depth + 1) ⊆ grammar.answered start (depth + 2) :=
    answered_mono (Nat.le_succ _)
  constructor
  · intro hsettled
    refine congrArg Finset.card (hsubset.antisymm ?_)
    intro call hcall
    obtain ⟨hnamed, log, ⟨outcome, after⟩, hrun⟩ := mem_answered.mp hcall
    obtain ⟨-, after', hrun', -⟩ :=
      hsettled _ (start.precedes_advance call.2) call.1 log log rfl outcome after hrun
    exact mem_answered.mpr ⟨hnamed, log, _, hrun'⟩
  · intro hcard
    have hsame := Finset.eq_of_subset_of_card_le hsubset (Nat.le_of_eq hcard.symm)
    apply settled_succ_of_answered
    intro name hname place hplace hanswered
    obtain ⟨count, hcount, rfl⟩ := hplace.exists_advance
    have hcall : (name, count) ∈ grammar.answered start (depth + 2) :=
      mem_answered.mpr ⟨⟨hname, hcount⟩, hanswered⟩
    rw [← hsame] at hcall
    exact (mem_answered.mp hcall).2

/-- **At the depth that is allowed for, calls are settled.** -/
theorem settled_depth (grammar : Grammar α) (start : Cursor α) :
    grammar.Settled start (grammar.depth start) := by
  -- the numbers of answers grow, stop growing once they stay the same, and are bounded
  have hmono : Monotone fun depth => (grammar.answered start (depth + 1)).card := by
    intro depth more hle
    exact Finset.card_le_card (answered_mono (Nat.succ_le_succ hle))
  have hstable : ∀ depth, (grammar.answered start (depth + 1)).card =
      (grammar.answered start (depth + 2)).card →
        (grammar.answered start (depth + 2)).card = (grammar.answered start (depth + 3)).card := by
    intro depth hcard
    exact settled_succ_iff.mp (settled_succ_iff.mpr hcard).succ
  have hbound : ∀ depth, (grammar.answered start (depth + 1)).card ≤
      grammar.rules.length * (start.remaining + 1) :=
    fun depth => card_answered_le grammar start (depth + 1)
  exact settled_succ_iff.mpr
    (Nat.stabilises_of_monotone hmono hbound hstable (Nat.le_succ _)).symm

/-! ## Whole runs -/

/-- **`Grammar.run` has every result there is**: that of each run in which calls nest to some
depth, with the same log. -/
theorem result?_run_eq_some_iff {step : Step α} {result : Outcome α Value × List Visit} :
    Run.result? (grammar.run step start) = some result ↔
      ∃ depth, Run.result? (step.run (grammar.call depth) start) = some result := by
  refine ⟨fun hresult => ⟨_, hresult⟩, ?_⟩
  rintro ⟨depth, hresult⟩
  have hcalls : CallsSimulated Eq (fun _ => True) (grammar.call depth)
      (grammar.call (grammar.depth start)) start := by
    rcases Nat.le_total depth (grammar.depth start) with hle | hle
    · exact fun place _ name => call_simulated hle place name
    · exact (grammar.settled_depth start).of_le hle
  have hsimulated := step.run_simulated keptByVisits_eq (fun _ _ => trivial)
    (fun _ _ _ _ => trivial) hcalls
  obtain ⟨⟨outcome, visits⟩, hrun, rfl⟩ := Option.map_eq_some_iff.mp hresult
  obtain ⟨-, _, hrun', rfl⟩ := hsimulated [] [] rfl outcome visits hrun
  exact Option.map_eq_some_iff.mpr ⟨_, hrun', rfl⟩

/-- A name that stands for a call of itself has no result, whatever the depth. -/
example : (Run.result? ((Grammar.mk [("loop", .rule "loop")]).run (.rule "loop")
    Sample.atBracket)).isNone = true := by
  decide

end Grammar

end ParseOutcome
