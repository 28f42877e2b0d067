import ParseOutcome.Misuse
import ParseOutcome.Source.Location
import ParseOutcome.Source.Basic

/-!
# Cursors

A cursor is a place in a source, at most its end.  Advancing gives a new cursor
and leaves the old one as it was, so a kept cursor always serves to try again
from the same place.  Two cursors are equal when they stand at the same position
of the same source.
-/

namespace ParseOutcome

/-- A place in a source: before its symbol at `position`, or at its end. -/
structure Cursor (α : Type) where
  source : Source α
  position : Nat
  position_le_length : position ≤ source.length
deriving DecidableEq

namespace Cursor

variable {α : Type}

/-- The beginning of a source. -/
def origin (source : Source α) : Cursor α :=
  ⟨source, 0, Nat.zero_le _⟩

/-- The place at a given position, refused beyond the end. -/
def ofPosition (source : Source α) (position : Nat) : Except Misuse (Cursor α) :=
  if within : position ≤ source.length then .ok ⟨source, position, within⟩
  else .error (.positionOutOfBounds position source.length)

/-- The place `count` symbols on, or the end if fewer are left. -/
def advance (cursor : Cursor α) (count : Nat) : Cursor α where
  source := cursor.source
  position := min (cursor.position + count) cursor.source.length
  position_le_length := Nat.min_le_right _ _

/-- The place one symbol on; the end stays where it is. -/
def next (cursor : Cursor α) : Cursor α :=
  cursor.advance 1

/-- The symbol at the cursor, none at the end. -/
def value? (cursor : Cursor α) : Option α :=
  cursor.source.symbols[cursor.position]?

/-- Whether the cursor stands at the end. -/
def atEnd (cursor : Cursor α) : Bool :=
  decide (cursor.source.length ≤ cursor.position)

/-- How many symbols are left. -/
def remaining (cursor : Cursor α) : Nat :=
  cursor.source.length - cursor.position

/-- The symbols of the source from `start` up to `stop`, wherever the cursor
stands. -/
def slice (cursor : Cursor α) (start stop : Nat) : List α :=
  cursor.source.slice start stop

/-- The location of the cursor in its source. -/
def location [DecidableEq α] [Symbol α] (cursor : Cursor α) : Location :=
  Location.ofPosition cursor.source.symbols cursor.position

theorem eq_iff {first second : Cursor α} :
    first = second ↔ first.source = second.source ∧ first.position = second.position := by
  cases first
  cases second
  simp

/-! ## Where the operations lead -/

@[simp] theorem source_advance (cursor : Cursor α) (count : Nat) :
    (cursor.advance count).source = cursor.source := rfl

@[simp] theorem position_advance (cursor : Cursor α) (count : Nat) :
    (cursor.advance count).position = min (cursor.position + count) cursor.source.length := rfl

@[simp] theorem source_next (cursor : Cursor α) : cursor.next.source = cursor.source := rfl

@[simp] theorem position_next (cursor : Cursor α) :
    cursor.next.position = min (cursor.position + 1) cursor.source.length := rfl

theorem ofPosition_eq_ok_iff {source : Source α} {position : Nat} {cursor : Cursor α} :
    ofPosition source position = .ok cursor ↔
      cursor.source = source ∧ cursor.position = position := by
  cases cursor with
  | mk source' position' within' =>
      unfold ofPosition
      constructor
      · intro made
        split at made <;> simp_all
      · rintro ⟨rfl, rfl⟩
        simp [within']

theorem ofPosition_eq_error_iff {source : Source α} {position : Nat} {misuse : Misuse} :
    ofPosition source position = .error misuse ↔
      source.length < position ∧ misuse = .positionOutOfBounds position source.length := by
  unfold ofPosition
  split
  next within => simp [Nat.not_lt_of_le within]
  next beyond => simp [Nat.lt_of_not_le beyond, eq_comm]

/-! ## The end -/

theorem atEnd_iff {cursor : Cursor α} :
    cursor.atEnd = true ↔ cursor.position = cursor.source.length := by
  have := cursor.position_le_length
  simp only [atEnd, decide_eq_true_eq]
  omega

theorem value?_eq_none_iff {cursor : Cursor α} :
    cursor.value? = none ↔ cursor.position = cursor.source.length := by
  have := cursor.position_le_length
  simp only [value?, Source.length, List.getElem?_eq_none_iff] at *
  omega

end Cursor

end ParseOutcome
