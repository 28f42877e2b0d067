import ParseOutcome.Proofs.Lines.Basic

/-!
# What a location addresses

A location is counted over what stands before a position, and is meant to be looked up
among the lines of the whole source.  It is one of their numbers, with an offset that is
within the line or just past its last symbol; and going there, past the lines before and
their newlines, leads back to the position.

All of it is read off the cut of the lines at the position.  No other location leads to the
same place, since a line with a lower number has ended, newline included, before any line
with a higher number begins (`extent_take_add_le`).
-/

namespace ParseOutcome

open Context

variable {α : Type} [DecidableEq α] [Symbol α] {symbols : List α} {place : Nat}

/-- Whether a location leads to a place: its line is one of the lines, its offset is on the
line or at its end, the lines before it and the offset come to the place, and what stands
there is the symbol of the line at the offset, or else the newline that ends the line, if
another line follows. -/
structure Location.Addresses (location : Location) (symbols : List α) (place : Nat) : Prop where
  line_pos : 1 ≤ location.line
  line_le : location.line ≤ (lines symbols).length
  offset_le : location.offset ≤ (lines symbols)[location.line - 1].length
  place_eq : place = extent ((lines symbols).take (location.line - 1)) + location.offset
  symbol_eq : symbols[place]? =
    (lines symbols)[location.line - 1][location.offset]?.or
      ((lines symbols)[location.line]?.map fun _ => Symbol.newline)

/-! ## Where a position leads -/

theorem Context.IsCut.addresses {position : Nat} {before after : List (List α)}
    {left right : List α} (cut : IsCut symbols position before left right after) :
    (Location.ofPosition symbols position).Addresses symbols (min position symbols.length) := by
  have hlines := cut.lines_eq
  have hnumber : before.length + 1 - 1 = before.length := Nat.add_sub_cancel ..
  have hlength : (lines symbols).length = before.length + (after.length + 1) := by simp [hlines]
  have hline : ∀ hlt : before.length + 1 - 1 < (lines symbols).length,
      (lines symbols)[before.length + 1 - 1] = left ++ right := by simp [hlines]
  have hoffset : (left ++ right)[left.length]? = right.head? := by
    rw [List.getElem?_append_right (Nat.le_refl _), Nat.sub_self, List.head?_eq_getElem?]
  have hnext : (lines symbols)[before.length + 1]? = after.head? := by
    rw [hlines, List.getElem?_append_right (Nat.le_add_right _ 1), Nat.add_sub_cancel_left,
      List.getElem?_cons_succ, List.head?_eq_getElem?]
  rw [cut.location_eq]
  constructor
  case line_pos => exact Nat.le_add_left _ _
  case line_le =>
    show before.length + 1 ≤ (lines symbols).length
    omega
  case offset_le =>
    rw [hline, List.length_append]
    exact Nat.le_add_right _ _
  case place_eq =>
    rw [cut.min_eq_extent, hnumber, hlines, List.take_left]
  case symbol_eq =>
    rw [cut.getElem?_min_eq, hline, hoffset, hnext]

theorem Location.addresses_ofPosition (symbols : List α) (position : Nat) :
    (Location.ofPosition symbols position).Addresses symbols (min position symbols.length) := by
  obtain ⟨before, left, right, after, cut⟩ := exists_isCut symbols position
  exact cut.addresses

/-! ## No two ways to a place -/

theorem Location.Addresses.line_le_of_same {location other : Location}
    (haddresses : location.Addresses symbols place) (hother : other.Addresses symbols place) :
    location.line ≤ other.line := by
  by_contra hgt
  have hpos := hother.line_pos
  have hbefore := extent_take_add_le (show other.line - 1 < location.line - 1 by omega)
    (show other.line - 1 < (lines symbols).length by have := hother.line_le; omega)
  have hplace := haddresses.place_eq
  have hplace' := hother.place_eq
  have hoffset := hother.offset_le
  omega

theorem Location.Addresses.unique {location other : Location}
    (haddresses : location.Addresses symbols place) (hother : other.Addresses symbols place) :
    location = other := by
  have hline : location.line = other.line :=
    Nat.le_antisymm (haddresses.line_le_of_same hother) (hother.line_le_of_same haddresses)
  have hplace := haddresses.place_eq.symm.trans hother.place_eq
  rw [hline] at hplace
  have hoffset := Nat.add_left_cancel hplace
  show Location.mk location.line location.offset = Location.mk other.line other.offset
  rw [hline, hoffset]

/-- **A location addresses its position among the lines**, for positions past the end the
end of the source, and no other location does. -/
theorem location_addresses_place (symbols : List α) (position : Nat) :
    (Location.ofPosition symbols position).Addresses symbols (min position symbols.length) ∧
      ∀ other : Location, other.Addresses symbols (min position symbols.length) →
        other = Location.ofPosition symbols position := by
  have haddresses := Location.addresses_ofPosition symbols position
  exact ⟨haddresses, fun other hother => hother.unique haddresses⟩

end ParseOutcome
