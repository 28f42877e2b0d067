/-!
# Sources

A source is a stretch of a buffer.  Which buffer it is, and where in it the
stretch begins, belong to what a source is: two sources with the same symbols
from different buffers, or from different places of one buffer, are different.
So `=` on sources is identity, and equal sources have equal symbols.
-/

namespace ParseOutcome

/-- A stretch of a buffer. -/
structure Source (α : Type) where
  /-- The number of the buffer. -/
  buffer : Nat
  /-- Where in the buffer the stretch begins. -/
  start : Nat
  symbols : List α
deriving DecidableEq

namespace Source

variable {α : Type}

/-- A whole buffer. -/
def ofBuffer (buffer : Nat) (symbols : List α) : Source α :=
  ⟨buffer, 0, symbols⟩

def length (source : Source α) : Nat :=
  source.symbols.length

/-- The symbols from index `start` up to index `stop`, both cut off at the end of
the source. -/
def slice (source : Source α) (start stop : Nat) : List α :=
  (source.symbols.take stop).drop start

/-- The stretch from index `start` up to index `stop`, both cut off at the end of
the source: the same buffer, seen through a smaller window. -/
def view (source : Source α) (start stop : Nat) : Source α where
  buffer := source.buffer
  start := source.start + min start (min stop source.length)
  symbols := source.slice start stop

@[simp] theorem symbols_ofBuffer (buffer : Nat) (symbols : List α) :
    (ofBuffer buffer symbols).symbols = symbols := rfl

@[simp] theorem symbols_view (source : Source α) (start stop : Nat) :
    (source.view start stop).symbols = source.slice start stop := rfl

@[simp] theorem length_slice (source : Source α) (start stop : Nat) :
    (source.slice start stop).length = min stop source.length - start := by
  simp [slice, length]

end Source

end ParseOutcome
