import ParseOutcome.Symbol

/-!
# Locations

A location names a position in a run of symbols the way a reader counts: by line,
from 1, and by symbols into the line, from 0.  No column is given, since columns
hang on encoding, tabulators and the way the line is shown.
-/

namespace ParseOutcome

/-- The `offset`-th symbol of the `line`-th line. -/
structure Location where
  line : Nat
  offset : Nat
deriving DecidableEq

namespace Location

variable {α : Type} [DecidableEq α] [Symbol α]

/-- Where a run of symbols begins. -/
def origin : Location := ⟨1, 0⟩

/-- The location just past a symbol. -/
def past (location : Location) (symbol : α) : Location :=
  if symbol = Symbol.newline then ⟨location.line + 1, 0⟩
  else ⟨location.line, location.offset + 1⟩

/-- The location of a position.  A position past the end is taken to be the
end. -/
def ofPosition (symbols : List α) (position : Nat) : Location :=
  (symbols.take position).foldl past origin

/-- The text shown for a location. -/
def display (location : Location) : String :=
  "line " ++ toString location.line ++ ", offset " ++ toString location.offset

end Location

end ParseOutcome
