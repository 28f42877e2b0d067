import Mathlib.Algebra.BigOperators.Group.List.Basic
import Mathlib.Algebra.GroupWithZero.Nat
import Mathlib.Logic.Function.Iterate
import ParseOutcome.Proofs.Sample
import ParseOutcome.Proofs.Words.Place
import ParseOutcome.Session.Execution

/-!
# Advancing again and again

Any number of advances, one after another, come to one advance by the sum of their counts.  The
end of the source stops every advance, and stops none too early: what is cut off at the end by
an advance would have been cut off by those after it.  So only the sum counts, not how it is
divided or in which order its parts come.

A machine of 64-bit words caps every sum at the greatest word before it cuts it off at the end.
Since the end of a source is a word, this takes nothing away either, for counts as great as
words can be.

A script of a session may keep the result of every advance under the same name.  Then only the
last one is kept, and what the other names stand for does not change.
-/

namespace ParseOutcome

variable {α : Type}

namespace Cursor

/-- The cursor after one advance for each of the counts. -/
def advances (cursor : Cursor α) (counts : List Nat) : Cursor α :=
  counts.foldl advance cursor

variable {cursor : Cursor α}

theorem advance_zero (cursor : Cursor α) : cursor.advance 0 = cursor := by
  rw [eq_iff, position_advance]
  exact ⟨rfl, Nat.min_eq_left cursor.position_le_length⟩

/-- **One advance after another is one advance.** -/
theorem advance_advance (cursor : Cursor α) (first second : Nat) :
    (cursor.advance first).advance second = cursor.advance (first + second) := by
  rw [eq_iff]
  refine ⟨rfl, ?_⟩
  simp only [position_advance, source_advance]
  omega

theorem advance_eq_advance_iff {count count' : Nat} :
    cursor.advance count = cursor.advance count' ↔
      min cursor.source.length (cursor.position + count) =
        min cursor.source.length (cursor.position + count') := by
  rw [eq_iff, position_advance, position_advance, Nat.min_comm, Nat.min_comm (cursor.position + _)]
  exact and_iff_right rfl

/-- **Many advances are one**, by the sum of their counts. -/
theorem advances_eq (cursor : Cursor α) (counts : List Nat) :
    cursor.advances counts = cursor.advance counts.sum := by
  induction counts generalizing cursor with
  | nil => exact (advance_zero cursor).symm
  | cons count counts ih =>
      calc (cursor.advance count).advances counts
          = (cursor.advance count).advance counts.sum := ih (cursor.advance count)
        _ = cursor.advance (count + counts.sum) := advance_advance cursor count counts.sum

theorem iterate_next (cursor : Cursor α) (count : Nat) :
    next^[count] cursor = cursor.advance count := by
  induction count generalizing cursor with
  | zero => exact (advance_zero cursor).symm
  | succ count ih =>
      calc next^[count] cursor.next
          = (cursor.advance 1).advance count := ih cursor.next
        _ = cursor.advance (count + 1) := by rw [advance_advance, Nat.add_comm]

end Cursor

/-! ## On a machine -/

/-- The place after one advance for each of the counts. -/
def Place.advances (place : Place α) (counts : List UInt64) : Place α :=
  counts.foldl Place.advance place

theorem Cursor.advances_place {cursor : Cursor α}
    (hlength : cursor.source.symbols.length < UInt64.size) (counts : List UInt64) :
    cursor.place.advances counts = (cursor.advances (counts.map UInt64.toNat)).place := by
  induction counts generalizing cursor with
  | nil => rfl
  | cons count counts ih =>
      show (cursor.place.advance count).advances counts = _
      rw [advance_place hlength]
      exact ih hlength

/-! ## In a session -/

section Session

variable [DecidableEq α] [Symbol α]

/-- Advances from what `name` stands for, each after the one before it, with the result under
`keep`. -/
def advanceScript (keep : String) : String → List Nat → List (Command α)
  | _, [] => []
  | name, count :: counts => .advance name count keep :: advanceScript keep keep counts

variable {session : Session α} {cursor : Cursor α} {keep name : String}

/-- What one advance keeps.  Everything that was kept before is kept on. -/
theorem Session.give_advance (hname : session.cursors.lookup name = some cursor) (count : Nat) :
    session.give (.advance name count keep) =
      (.ok (.cursor (cursor.advance count)),
        { session with cursors := (keep, cursor.advance count) :: session.cursors }) := by
  have hcursor : (Execution.cursor name : Execution α (Cursor α)).run session =
      .ok (cursor, session) := by
    simp [Execution.cursor, Execution.orFault, hname]
    rfl
  have hrun : (Command.execute (.advance name count keep)).run session =
      .ok (.cursor (cursor.advance count),
        { session with cursors := (keep, cursor.advance count) :: session.cursors }) := by
    rw [Command.execute, StateT.run_bind, hcursor]
    rfl
  unfold give
  rw [hrun]

/-- **A script of advances keeps the last cursor and leaves the others**, that with which it
began among them. -/
theorem Session.lookup_after_advanceScript (hname : session.cursors.lookup name = some cursor)
    (counts : List Nat) :
    (∀ other, other ≠ keep →
        (session.after (advanceScript keep name counts)).cursors.lookup other =
          session.cursors.lookup other) ∧
      (counts ≠ [] → (session.after (advanceScript keep name counts)).cursors.lookup keep =
        some (cursor.advances counts)) := by
  -- after the first advance the script goes on from `keep`, so the name varies along with the rest
  induction counts generalizing session name cursor with
  | nil => exact ⟨fun _ _ => rfl, fun hne => absurd rfl hne⟩
  | cons count counts ih =>
      have hcursors : (session.give (.advance name count keep)).2.cursors =
          (keep, cursor.advance count) :: session.cursors := by
        rw [give_advance hname]
      have hkept : (session.give (.advance name count keep)).2.cursors.lookup keep =
          some (cursor.advance count) := by
        rw [hcursors, List.lookup_cons_self]
      obtain ⟨hothers, hlast⟩ := ih hkept
      constructor
      · intro other hother
        have hne : (other == keep) = false := beq_false_of_ne hother
        refine (hothers other hother).trans ?_
        rw [hcursors, List.lookup_cons, hne]
      · intro _
        cases counts with
        | nil => exact hkept
        | cons next counts => exact hlast (List.cons_ne_nil _ _)

end Session

/-! ## What the sum decides -/

/-- **Only the sum of the counts decides** where any number of advances lead, and the end of the
source.  So neither the order of the counts nor how they are grouped makes a difference, an
advance is as many moves to the next place, and two sequences of advances lead to one cursor
exactly if their sums are the same when cut off at the end.

A machine of 64-bit words comes to the same place for all counts that are words, on every source
whose length is a word.  In a session that keeps the results under a name of their own, what the
other names stand for does not change. -/
theorem advances_by_exact_sum (cursor : Cursor α) :
    (∀ counts, (cursor.advances counts).source = cursor.source ∧
        (cursor.advances counts).position =
          min cursor.source.length (cursor.position + counts.sum)) ∧
      (∀ counts counts' : List Nat, counts.Perm counts' →
        cursor.advances counts = cursor.advances counts') ∧
      (∀ groups : List (List Nat),
        cursor.advances groups.flatten = cursor.advances (groups.map List.sum)) ∧
      (∀ count, Cursor.next^[count] cursor = cursor.advance count) ∧
      (∀ counts counts' : List Nat, cursor.advances counts = cursor.advances counts' ↔
        min cursor.source.length (cursor.position + counts.sum) =
          min cursor.source.length (cursor.position + counts'.sum)) ∧
      (cursor.source.length < UInt64.size → ∀ counts : List UInt64,
        cursor.place.advances counts = (cursor.advances (counts.map UInt64.toNat)).place ∧
          (cursor.place.advances counts).position.toNat =
            min cursor.source.length (cursor.position + (counts.map UInt64.toNat).sum)) ∧
      ∀ [DecidableEq α] [Symbol α] (session : Session α) (name keep : String) (counts : List Nat),
        session.cursors.lookup name = some cursor →
        (∀ other, other ≠ keep →
            (session.after (advanceScript keep name counts)).cursors.lookup other =
              session.cursors.lookup other) ∧
          (counts ≠ [] → (session.after (advanceScript keep name counts)).cursors.lookup keep =
            some (cursor.advances counts)) := by
  have hposition : ∀ counts, (cursor.advances counts).position =
      min cursor.source.length (cursor.position + counts.sum) := by
    intro counts
    rw [Cursor.advances_eq, Cursor.position_advance, Nat.min_comm]
  refine ⟨?_, ?_, ?_, ?_, ?_, ?_, ?_⟩
  · intro counts
    refine ⟨?_, hposition counts⟩
    rw [Cursor.advances_eq, Cursor.source_advance]
  · intro counts counts' hperm
    rw [Cursor.advances_eq, Cursor.advances_eq, hperm.sum_nat]
  · intro groups
    rw [Cursor.advances_eq, Cursor.advances_eq, List.sum_flatten]
  · exact Cursor.iterate_next cursor
  · intro counts counts'
    rw [Cursor.advances_eq, Cursor.advances_eq, Cursor.advance_eq_advance_iff]
  · intro hlength counts
    have hplace := Cursor.advances_place hlength counts
    refine ⟨hplace, ?_⟩
    have hsource : (cursor.advances (counts.map UInt64.toNat)).source = cursor.source := by
      rw [Cursor.advances_eq, Cursor.source_advance]
    rw [hplace, Cursor.toNat_position_place (hsource ▸ hlength), hposition]
  · intro _ _ session name keep counts hname
    exact Session.lookup_after_advanceScript hname counts

/-- Two advances by the greatest word end where the source does, and a session that has taken
them still has the cursor where they began. -/
theorem advances_by_greatest_words :
    Sample.atBracket.source.length < UInt64.size ∧
      (Sample.atBracket.place.advances [1, Word.greatest, Word.greatest]).position.toNat = 3 ∧
      ∃ session : Session UInt8, session.cursors.lookup "start" = some Sample.atBracket ∧
        (session.after (advanceScript "stop" "start" [1, 2])).cursors.lookup "start" =
          some Sample.atBracket ∧
        (session.after (advanceScript "stop" "start" [1, 2])).cursors.lookup "stop" =
          some (Sample.atBracket.advances [1, 2]) := by
  have hlength : Sample.atBracket.source.length < UInt64.size := by decide
  obtain ⟨-, -, -, -, -, hwords, hsessions⟩ := advances_by_exact_sum Sample.atBracket
  refine ⟨hlength, ?_, ⟨[], ⟨[]⟩, [("start", Sample.atBracket)], [], []⟩, rfl, ?_⟩
  · exact (hwords hlength [1, Word.greatest, Word.greatest]).2
  · obtain ⟨hothers, hlast⟩ := hsessions ⟨[], ⟨[]⟩, [("start", Sample.atBracket)], [], []⟩
      "start" "stop" [1, 2] rfl
    exact ⟨hothers "start" (by decide), hlast (by decide)⟩

end ParseOutcome
