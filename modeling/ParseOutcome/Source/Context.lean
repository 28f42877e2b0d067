import ParseOutcome.Source.Location

/-!
# The lines around a position

A reader is shown the line that holds the position and two lines on either side,
each behind a gutter with its number, and below the line itself a mark under the
symbol.
-/

namespace ParseOutcome.Context

variable {α : Type} [DecidableEq α] [Symbol α]

/-- How many lines are shown on either side. -/
def reach : Nat := 2

/-- The lines of a run of symbols, without the newlines that part them. -/
def lines (symbols : List α) : List (List α) :=
  symbols.splitOn Symbol.newline

/-- What stands before the line with this number; an arrow points out the line
that holds the position. -/
def gutter (number target : Nat) : String :=
  (if number = target then "  > " else "    ") ++ toString number ++ " | "

/-- The row of a line: its gutter and its symbols. -/
def row (target : Nat) (line : List α) (number : Nat) : String :=
  gutter number target ++ Symbol.render line

/-- The mark below the row that holds the location, one place per symbol before
it. -/
def marker (location : Location) : String :=
  String.ofList
      (List.replicate ((gutter location.line location.line).length + location.offset) ' ') ++
    "^--- here"

/-- The numbered lines within reach of the target. -/
def nearby (target : Nat) (symbols : List α) : List (List α × Nat) :=
  ((lines symbols).zipIdx 1).filter fun entry =>
    decide (target - reach ≤ entry.2 ∧ entry.2 ≤ target + reach)

/-- The rows shown for a location, with the mark after its own. -/
def rowsAt (location : Location) (symbols : List α) : List String :=
  (nearby location.line symbols).flatMap fun entry =>
    row location.line entry.1 entry.2 ::
      if entry.2 = location.line then [marker location] else []

/-- The rows shown for a position. -/
def rows (symbols : List α) (position : Nat) : List String :=
  rowsAt (Location.ofPosition symbols position) symbols

end ParseOutcome.Context
