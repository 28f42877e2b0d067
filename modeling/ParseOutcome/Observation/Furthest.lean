import ParseOutcome.Observation.Basic

/-!
# The furthest observation

Of several attempts, the one that came furthest into the source usually explains
best what is wrong with it.  Observations without a position take no part, and
the first wins a tie.
-/

namespace ParseOutcome

namespace Furthest

variable {β : Type}

/-- The better of two positioned items, the first on a tie. -/
def better (best candidate : β × Nat) : β × Nat :=
  if candidate.2 ≤ best.2 then best else candidate

/-- The first of the items at the greatest position. -/
def pick? : List (β × Nat) → Option (β × Nat)
  | [] => none
  | first :: rest => some (rest.foldl better first)

/-- The first of the items whose position is greatest, among those that have
one. -/
def byPosition? (position : β → Option Nat) (items : List β) : Option β :=
  (pick? (items.filterMap fun item => (position item).map (item, ·))).map Prod.fst

end Furthest

/-- The observation at the greatest position, the first of several, and its place
in the list. -/
def Observation.furthest? (observations : List Observation) : Option (Observation × Nat) :=
  Furthest.byPosition? (fun entry => entry.1.position) observations.zipIdx

end ParseOutcome
