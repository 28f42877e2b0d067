/-!
# Values

The values that the steps of a grammar produce, the text each is shown as, and the
ways a grammar may transform one.
-/

namespace ParseOutcome

/-- A value that a step produces. -/
inductive Value where
  | integer (number : Int)
  | truth (holds : Bool)
  | text (content : String)
deriving DecidableEq

namespace Value

/-- The text a value is shown as: a number in decimal, a text as it is. -/
def display : Value → String
  | integer number => toString number
  | truth holds => if holds then "true" else "false"
  | text content => content

instance : ToString Value := ⟨display⟩

/-- A way to turn one value into another: into the text it is shown as, the number
of characters of that text, a fixed value whatever it was, or the text between two
others. -/
inductive Transform where
  | display
  | length
  | constant (value : Value)
  | wrap (before after : String)
deriving DecidableEq

def Transform.apply : Transform → Value → Value
  | .display, value => text value.display
  | .length, value => integer value.display.length
  | .constant result, _ => result
  | .wrap before after, value => text (before ++ value.display ++ after)

end Value

end ParseOutcome
