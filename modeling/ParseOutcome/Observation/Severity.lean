/-!
# Severities

How serious an observation is.  Only errors are told apart by this library; the
other levels are carried for whoever shows the observations.
-/

namespace ParseOutcome

/-- How serious an observation is. -/
inductive Severity where
  | error
  | warning
  | info
deriving DecidableEq

namespace Severity

/-- An observation is an error unless said otherwise. -/
instance : Inhabited Severity := ⟨.error⟩

/-- The severities, from the most serious to the least. -/
def all : List Severity := [.error, .warning, .info]

/-- The word for a severity. -/
def display : Severity → String
  | .error => "error"
  | .warning => "warning"
  | .info => "info"

end Severity

end ParseOutcome
