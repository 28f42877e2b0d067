import ParseOutcome.Outcome.Report
import ParseOutcome.Session.Command

/-!
# Running a session

A command reads what earlier commands have kept, and may keep one thing more.  A
command that has no answer keeps nothing, and the session goes on as if it had not
been given.
-/

namespace ParseOutcome

/-- What is kept, by name, latest first. -/
abbrev Register (β : Type) : Type := List (String × β)

/-- The sources and the grammar of a session, and what its commands have kept. -/
structure Session (α : Type) where
  sources : List (Source α)
  grammar : Grammar α
  cursors : Register (Cursor α) := []
  observations : Register Observation := []
  outcomes : Register (Outcome α Value) := []

/-- A computation that reads and changes a session, and may have no answer. -/
abbrev Execution (α β : Type) : Type := StateT (Session α) (Except Fault) β

namespace Execution

variable {α β : Type}

/-- What there is, or else a fault. -/
def orFault (fault : Fault) (found : Option β) : Execution α β :=
  match found with
  | some thing => pure thing
  | none => throw fault

/-- What was made, or else the misuse that kept it from being made. -/
def made (result : Except Misuse β) : Execution α β :=
  match result with
  | .ok thing => pure thing
  | .error cause => throw (.misuse cause)

def source (index : Nat) : Execution α (Source α) := do
  orFault .noSource (← get).sources[index]?

def cursor (name : String) : Execution α (Cursor α) := do
  orFault .unset ((← get).cursors.lookup name)

def observation (name : String) : Execution α Observation := do
  orFault .unset ((← get).observations.lookup name)

def outcome (name : String) : Execution α (Outcome α Value) := do
  orFault .unset ((← get).outcomes.lookup name)

def keepCursor (name : String) (cursor : Cursor α) : Execution α (Answer α) := do
  modify fun session => { session with cursors := (name, cursor) :: session.cursors }
  return .cursor cursor

def keepObservation (name : String) (observation : Observation) : Execution α (Answer α) := do
  modify fun session =>
    { session with observations := (name, observation) :: session.observations }
  return .observation observation

def keepOutcome (name : String) (outcome : Outcome α Value) : Execution α (Outcome α Value) := do
  modify fun session => { session with outcomes := (name, outcome) :: session.outcomes }
  return outcome

end Execution

variable {α : Type} [DecidableEq α] [Symbol α]

namespace Continuation

/-- Runs a continuation on the outcome it is handed, and notes that it was. -/
def run (grammar : Grammar α) (continuation : Continuation α) (handed : Outcome α Value) :
    StateT (List (Outcome α Value)) Run (Outcome α Value) := do
  modify fun earlier => earlier ++ [handed]
  match continuation with
  | .same => return handed
  | .step inner => grammar.run inner handed.remainder

end Continuation

namespace Command

open Execution

/-- Keeps the result of going on from an outcome, and answers with all that was
noted on the way. -/
def continued (keep : String)
    (computation : StateT (List (Outcome α Value)) Run (Outcome α Value)) :
    Execution α (Answer α) := do
  let ((result, handed), visits) ← orFault .endless (Run.result? (computation.run []))
  return .continued handed visits (← keepOutcome keep result)

/-- Carries out one command. -/
def execute : Command α → Execution α (Answer α)
  | .origin index keep => do keepCursor keep (Cursor.origin (← Execution.source index))
  | .place index position keep => do
      keepCursor keep (← made (Cursor.ofPosition (← Execution.source index) position))
  | .advance name count keep => do keepCursor keep ((← cursor name).advance count)
  | .next name keep => do keepCursor keep (← cursor name).next
  | .lookAt name => do return .cursor (← cursor name)
  | .slice name start stop => do return .symbols ((← cursor name).slice start stop)
  | .equalCursors first second => do
      let left ← cursor first
      let right ← cursor second
      return .equal (decide (left = right))
  | .observe result keep => do keepObservation keep (← made result)
  | .withSeverity name severity keep => do
      keepObservation keep ((← observation name).withSeverity severity)
  | .pin name position keep => do keepObservation keep ((← observation name).pin position)
  | .detach name site keep => do
      let found ← observation name
      keepObservation keep (found.detach (← cursor site))
  | .equalObservations first second => do
      let left ← observation first
      let right ← observation second
      return .equal (left == right)
  | .furthest names => do
      return .furthest (Observation.furthest? (← names.mapM observation))
  | .succeed result site names keep => do
      let stop ← cursor site
      let notices ← names.mapM observation
      return .outcome (← keepOutcome keep (.succeeded result stop notices))
  | .fail site names keep => do
      let stop ← cursor site
      let reasons ← names.mapM observation
      return .outcome (← keepOutcome keep (.failed stop reasons))
  | .onSuccess name continuation keep => do
      let handed ← outcome name
      let goOn ← made continuation
      continued keep (handed.onSuccessM (goOn.run (← get).grammar))
  | .onFailure name continuation keep => do
      let handed ← outcome name
      let goOn ← made continuation
      continued keep (handed.onFailureM (goOn.run (← get).grammar))
  | .map name transform keep => do
      let counted : StateM Nat (Outcome α Value) :=
        (← outcome name).mapM fun content => do
          modify (· + 1)
          return transform.apply content
      let (result, calls) := counted.run 0
      return .mapped calls (← keepOutcome keep result)
  | .withObservation name note keep => do
      let found ← outcome name
      let added ← observation note
      return .outcome (← keepOutcome keep (found.withObservation added))
  | .parse name step keep => do
      let start ← cursor name
      let first ← made step
      let (result, visits) ← orFault .endless (Run.result? ((← get).grammar.run first start))
      return .parsed visits (← keepOutcome keep result)
  | .value name => do return .value (some (← made (← outcome name).value))
  | .valueIfAny name => do return .value (← outcome name).value?
  | .inspect name => do return .inspected (← outcome name)
  | .remainder name keep => do keepCursor keep (← outcome name).remainder
  | .equalOutcomes first second => do
      let left ← outcome first
      let right ← outcome second
      return .equal (left == right)

end Command

namespace Session

/-- Gives a session one command: the answer, and the session after it. -/
def give (session : Session α) (command : Command α) :
    Except Fault (Answer α) × Session α :=
  match (Command.execute command).run session with
  | .ok (answer, after) => (.ok answer, after)
  | .error fault => (.error fault, session)

/-- The session after a script. -/
def after (session : Session α) (commands : List (Command α)) : Session α :=
  commands.foldl (fun before command => (before.give command).2) session

/-- The answers to a script. -/
def answers (session : Session α) : List (Command α) → List (Except Fault (Answer α))
  | [] => []
  | command :: rest => (session.give command).1 :: (session.give command).2.answers rest

end Session

end ParseOutcome
