import ParseOutcome.Text.Utf8

/-!
# Symbols

What a source is made of.  A kind of symbol says which symbol ends a line and how
a run of symbols is shown to a reader.  Three kinds are provided: bytes, shown as
UTF-8; characters; and tokens given by their numbers, shown in decimal.
-/

namespace ParseOutcome

/-- A kind of symbol. -/
class Symbol (α : Type) where
  /-- The symbol that ends a line. -/
  newline : α
  /-- The text shown for a run of symbols. -/
  render : List α → String

instance : Symbol UInt8 where
  newline := 10
  render bytes := String.ofList (Utf8.decode bytes)

instance : Symbol Char where
  newline := '\n'
  render := String.ofList

/-- The greatest number stands for the end of a line, and one space parts a token
from the next. -/
instance : Symbol UInt32 where
  newline := 0xFFFFFFFF
  render tokens := " ".intercalate (tokens.map fun token => token.toNat.repr)

variable {α : Type} [DecidableEq α] [Symbol α]

/-- The indices at which a newline stands. -/
def newlineIndices (symbols : List α) : List Nat :=
  (symbols.zipIdx.filter fun entry => decide (entry.1 = Symbol.newline)).map Prod.snd

end ParseOutcome
