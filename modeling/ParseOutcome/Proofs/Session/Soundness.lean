import ParseOutcome.Proofs.Session.Record
import ParseOutcome.Session.Execution

/-!
# What holds in every session

Whatever script a session is given, all that it keeps and all that it answers with has been made by
calls, in a history that opens the sources of the session and says what is written in the script
and the grammar.  So what holds of the objects of every history holds of the objects of a session:
cursors are within the sources, messages are not blank, and no label is listed twice.

A command reads what is kept, and makes at most one object of it.  So the step from one command to
the next is the same for all of them (`Session.OnRecord.give`): the object is obtainable from
what has been read.
-/

namespace ParseOutcome

variable {α β γ : Type}

/-! ## Executions -/

namespace Execution

/-- Whatever result an execution has, the property holds of it and of the session after it. -/
def Leads (execution : Execution α β) (session : Session α) (property : β → Session α → Prop) :
    Prop :=
  ∀ result after, execution.run session = .ok (result, after) → property result after

/-- Whatever result an execution has, the property holds of it, and the session is as before. -/
def Reads (execution : Execution α β) (session : Session α) (property : β → Prop) : Prop :=
  execution.Leads session fun result after => after = session ∧ property result

variable {session : Session α}

theorem leads_pure {property : β → Session α → Prop} {result : β}
    (holds : property result session) : Leads (pure result) session property := by
  intro result' after hrun
  obtain ⟨rfl, rfl⟩ := Prod.mk.inj (Except.ok.inj hrun)
  exact holds

theorem reads_pure {property : β → Prop} {result : β} (holds : property result) :
    Reads (pure result : Execution α β) session property :=
  leads_pure ⟨rfl, holds⟩

theorem Reads.bind {property : β → Prop} {property' : γ → Session α → Prop}
    {first : Execution α β} {next : β → Execution α γ} (hfirst : Reads first session property)
    (hnext : ∀ result, property result → Leads (next result) session property') :
    Leads (first >>= next) session property' := by
  intro result after hrun
  rw [StateT.run_bind] at hrun
  cases hread : first.run session with
  | error fault =>
      rw [hread] at hrun
      cases hrun
  | ok reached =>
      rw [hread] at hrun
      obtain ⟨hsame, holds⟩ := hfirst reached.1 reached.2 hread
      have hafter : (next reached.1).run reached.2 = .ok (result, after) := hrun
      rw [hsame] at hafter
      exact hnext reached.1 holds result after hafter

theorem reads_get : Reads (get : Execution α (Session α)) session (· = session) := by
  intro result after hrun
  obtain ⟨rfl, rfl⟩ := Prod.mk.inj (Except.ok.inj hrun)
  exact ⟨rfl, rfl⟩

theorem reads_orFault (fault : Fault) (found : Option β) :
    Reads (orFault fault found : Execution α β) session (· ∈ found) := by
  cases found with
  | none =>
      intro _ _ hrun
      cases hrun
  | some thing => exact reads_pure rfl

theorem reads_made (made? : Except Misuse β) :
    Reads (made made? : Execution α β) session (made? = .ok ·) := by
  cases made? with
  | error cause =>
      intro _ _ hrun
      cases hrun
  | ok thing => exact reads_pure rfl

theorem reads_source (index : Nat) :
    Reads (Execution.source index) session (· ∈ session.sources) := by
  refine reads_get.bind fun _ hsame => ?_
  subst hsame
  intro source after hrun
  obtain ⟨rfl, hsource⟩ := reads_orFault .noSource _ source after hrun
  exact ⟨rfl, List.mem_of_getElem? hsource⟩

end Execution

/-! ## Sessions on record -/

/-- The objects that a session keeps. -/
def Session.objects (session : Session α) : List Object :=
  session.cursors.map (fun entry => .cursor entry.2) ++
    (session.observations.map (fun entry => .observation entry.2) ++
      session.outcomes.map fun entry => .outcome entry.2)

theorem Session.mem_objects (session : Session α) {object : Object} :
    object ∈ session.objects ↔
      (∃ entry ∈ session.cursors, .cursor entry.2 = object) ∨
        (∃ entry ∈ session.observations, .observation entry.2 = object) ∨
          ∃ entry ∈ session.outcomes, .outcome entry.2 = object := by
  rw [Session.objects, List.mem_append, List.mem_append, List.mem_map, List.mem_map, List.mem_map]

/-- All that the session keeps has been obtained in a history that opens the sources of the session
and says what is written. -/
structure Session.OnRecord (session : Session α) (written : List Observation)
    (calls : List Call) : Prop where
  recorded : Recorded session.sources written calls
  kept : session.objects ⊆ obtained calls

/-- The objects that an answer tells of. -/
def Answer.objects : Answer α → List Object
  | .cursor place => [.cursor place]
  | .symbols _ => []
  | .observation remark => [.observation remark]
  | .furthest found => found.toList.map fun selected => .observation selected.1
  | .equal _ => []
  | .outcome reached => [.outcome reached]
  | .continued handed _ result => .outcome result :: handed.map .outcome
  | .mapped _ result => [.outcome result]
  | .parsed _ result => [.outcome result]
  | .value _ => []
  | .inspected reached => [.outcome reached]

/-- From a session on, the record has been carried on to a later session and an answer. -/
def Session.GoesOn (session : Session α) (written : List Observation) (calls : List Call)
    (answer : Answer α) (after : Session α) : Prop :=
  after.sources = session.sources ∧ after.grammar = session.grammar ∧
    ∃ later, calls <:+ later ∧ after.OnRecord written later ∧ answer.objects ⊆ obtained later

variable {session : Session α} {written : List Observation} {calls later : List Call}

/-- Where the session keeps and answers nothing new but one object, it is enough that the object is
obtainable. -/
theorem Session.OnRecord.goesOn (onRecord : session.OnRecord written calls) {object : Object}
    (hobtainable : Obtainable session.sources written calls [object]) {answer : Answer α}
    {after : Session α} (hsources : after.sources = session.sources)
    (hgrammar : after.grammar = session.grammar) (hkept : after.objects ⊆ object :: session.objects)
    (hanswer : answer.objects ⊆ object :: obtained calls) :
    session.GoesOn written calls answer after := by
  obtain ⟨later, hlater, recorded, hobtained⟩ := hobtainable
  have hnew := List.forall_mem_singleton.mp hobtained
  have hearlier := obtained_subset hlater
  refine ⟨hsources, hgrammar, later, hlater, ⟨?_, ?_⟩, ?_⟩
  · rw [hsources]
    exact recorded
  · apply List.Subset.trans hkept
    exact List.cons_subset.mpr ⟨hnew, List.Subset.trans onRecord.kept hearlier⟩
  · apply List.Subset.trans hanswer
    exact List.cons_subset.mpr ⟨hnew, hearlier⟩

namespace Execution

/-! ## Reading what is kept -/

/-- What is looked up in a part of the session is kept there. -/
theorem reads_lookup (name : String) (register : Session α → Register β) :
    Reads (do orFault .unset ((register (← get)).lookup name)) session
      fun thing => (name, thing) ∈ register session := by
  refine reads_get.bind fun _ hsame => ?_
  subst hsame
  intro thing after hrun
  obtain ⟨rfl, hthing⟩ := reads_orFault .unset _ thing after hrun
  exact ⟨rfl, mem_of_lookup hthing⟩

theorem Reads.mono {property property' : β → Prop} {execution : Execution α β}
    (hreads : Reads execution session property)
    (himplies : ∀ result, property result → property' result) :
    Reads execution session property' := by
  intro result after hrun
  obtain ⟨hsame, holds⟩ := hreads result after hrun
  exact ⟨hsame, himplies result holds⟩

theorem reads_cursor (onRecord : session.OnRecord written calls) (name : String) :
    Reads (Execution.cursor name) session (.cursor · ∈ obtained calls) :=
  (reads_lookup name Session.cursors).mono fun _ hmem =>
    onRecord.kept (session.mem_objects.mpr (.inl ⟨_, hmem, rfl⟩))

theorem reads_observation (onRecord : session.OnRecord written calls) (name : String) :
    Reads (Execution.observation name) session (.observation · ∈ obtained calls) :=
  (reads_lookup name Session.observations).mono fun _ hmem =>
    onRecord.kept (session.mem_objects.mpr (.inr (.inl ⟨_, hmem, rfl⟩)))

theorem reads_outcome (onRecord : session.OnRecord written calls) (name : String) :
    Reads (Execution.outcome name) session (.outcome · ∈ obtained calls) :=
  (reads_lookup name Session.outcomes).mono fun _ hmem =>
    onRecord.kept (session.mem_objects.mpr (.inr (.inr ⟨_, hmem, rfl⟩)))

theorem reads_observations (onRecord : session.OnRecord written calls) (names : List String) :
    Reads (names.mapM Execution.observation) session
      fun found => found.map .observation ⊆ obtained calls := by
  induction names with
  | nil => exact reads_pure (List.nil_subset _)
  | cons name names ih =>
      rw [List.mapM_cons]
      refine (reads_observation onRecord name).bind fun observation hobservation => ?_
      refine ih.bind fun observations hobservations => ?_
      exact reads_pure (List.cons_subset.mpr ⟨hobservation, hobservations⟩)

/-! ## Keeping one object more -/

theorem leads_answer (onRecord : session.OnRecord written calls) {answer : Answer α}
    (hobjects : answer.objects ⊆ obtained calls) :
    Leads (pure answer) session (session.GoesOn written calls) :=
  leads_pure ⟨rfl, rfl, calls, List.suffix_refl calls, onRecord, hobjects⟩

theorem leads_keepCursor (onRecord : session.OnRecord written calls) {cursor : Cursor α}
    (hobtainable : Obtainable session.sources written calls [.cursor cursor]) (name : String) :
    Leads (keepCursor name cursor) session (session.GoesOn written calls) := by
  intro result after hrun
  obtain ⟨rfl, rfl⟩ := Prod.mk.inj (Except.ok.inj hrun)
  refine onRecord.goesOn hobtainable (by rfl) (by rfl) ?_ ?_
  · exact List.Subset.refl _
  · simp [Answer.objects]

theorem leads_keepObservation (onRecord : session.OnRecord written calls)
    {observation : Observation}
    (hobtainable : Obtainable session.sources written calls [.observation observation])
    (name : String) :
    Leads (keepObservation name observation) session (session.GoesOn written calls) := by
  intro result after hrun
  obtain ⟨rfl, rfl⟩ := Prod.mk.inj (Except.ok.inj hrun)
  refine onRecord.goesOn hobtainable (by rfl) (by rfl) ?_ ?_
  · exact List.perm_middle.subset
  · simp [Answer.objects]

theorem leads_keepOutcome (onRecord : session.OnRecord written calls) {outcome : Outcome α Value}
    (hobtainable : Obtainable session.sources written calls [.outcome outcome]) (name : String)
    {answer : Outcome α Value → Answer α}
    (hanswer : (answer outcome).objects ⊆ .outcome outcome :: obtained calls) :
    Leads (do return answer (← keepOutcome name outcome)) session
      (session.GoesOn written calls) := by
  intro result after hrun
  obtain ⟨rfl, rfl⟩ := Prod.mk.inj (Except.ok.inj hrun)
  refine onRecord.goesOn hobtainable (by rfl) (by rfl) ?_ hanswer
  unfold Session.objects
  rw [← List.append_assoc, ← List.append_assoc]
  exact List.perm_middle.subset

end Execution

/-! ## Commands -/

theorem Run.result?_map (f : β → γ) (run : Run β) :
    Run.result? (f <$> run) = (Run.result? run).map fun result => (f result.1, result.2) := by
  rw [Run.result?, StateT.run_map]
  cases hrun : StateT.run run [] with
  | none => simp [Run.result?, hrun]
  | some result => simp [Run.result?, hrun]

variable [DecidableEq α] [Symbol α]

/-- The observations that are written in the step of a continuation, if it has one. -/
def Continuation.observations : Continuation α → List Observation
  | .same => []
  | .step inner => inner.observations

/-- The observations that are written in a command. -/
def Command.observations : Command α → List Observation
  | .observe (.ok remark) _ => [remark]
  | .onSuccess _ (.ok continuation) _ => continuation.observations
  | .onFailure _ (.ok continuation) _ => continuation.observations
  | .parse _ (.ok first) _ => first.observations
  | _ => []

theorem Recorded.obtainable_parsed {sources : List (Source α)} {grammar : Grammar α} {step : Step α}
    {start : Cursor α} {outcome : Outcome α Value} {visits : List Visit}
    (recorded : Recorded sources written calls) (hgrammar : grammar.observations ⊆ written)
    (hstep : step.observations ⊆ written) (hstart : .cursor start ∈ obtained calls)
    (hresult : Run.result? (grammar.run step start) = some (outcome, visits)) :
    Obtainable sources written calls [.outcome outcome] := by
  apply recorded.obtainable_outcome hstart
  refine Grammar.from_of_result? ?_ (detachable_drawn written start) hresult
  intro observation hobservation
  exact drawn_of_mem observation (List.append_subset.mpr ⟨hstep, hgrammar⟩ hobservation)

/-- What a continuation comes to, on an outcome that has been obtained. -/
theorem Recorded.obtainable_continued {sources : List (Source α)} {grammar : Grammar α}
    {continuation : Continuation α} {outcome result : Outcome α Value}
    {handed : List (Outcome α Value)} {visits : List Visit}
    (recorded : Recorded sources written calls) (hgrammar : grammar.observations ⊆ written)
    (hcontinuation : continuation.observations ⊆ written)
    (houtcome : .outcome outcome ∈ obtained calls)
    (hresult : Run.result? ((continuation.run grammar outcome).run []) =
      some ((result, handed), visits)) :
    handed = [outcome] ∧ Obtainable sources written calls [.outcome result] := by
  cases continuation with
  | same =>
      obtain ⟨hpair, -⟩ := Prod.mk.inj (Option.some.inj hresult)
      obtain ⟨rfl, rfl⟩ := Prod.mk.inj hpair
      exact ⟨rfl, recorded.obtainable_of_mem houtcome⟩
  | step inner =>
      have hrun : Run.result? (((Continuation.step inner).run grammar outcome).run []) =
          (Run.result? (grammar.run inner outcome.remainder)).map fun parsed =>
            ((parsed.1, [outcome]), parsed.2) := by
        -- the note is made first, then the step runs as it would by itself
        have hlift : ((Continuation.step inner).run grammar outcome).run [] =
            (fun parsed => (parsed, [outcome])) <$> grammar.run inner outcome.remainder := by
          rfl
        rw [hlift, Run.result?_map]
      rw [hrun] at hresult
      obtain ⟨⟨parsed, visits'⟩, hparsed, hnoted⟩ := Option.map_eq_some_iff.mp hresult
      obtain ⟨hpair, -⟩ := Prod.mk.inj hnoted
      obtain ⟨rfl, rfl⟩ := Prod.mk.inj hpair
      refine ⟨rfl, ?_⟩
      have hremainder : Obtainable sources written calls [.cursor outcome.remainder] :=
        recorded.derive (.remainder outcome) rfl (by simpa [Call.takes] using houtcome) rfl rfl
      obtain ⟨later, hlater, hrecorded, hobtained⟩ := hremainder
      refine (hrecorded.obtainable_parsed hgrammar hcontinuation ?_ hparsed).of_later hlater
      exact List.forall_mem_singleton.mp hobtained

open Execution

/-- Going on from an outcome, or staying with it, keeps one outcome more. -/
theorem leads_continued (onRecord : session.OnRecord written calls)
    (hgrammar : session.grammar.observations ⊆ written) {continuation : Continuation α}
    (hcontinuation : continuation.observations ⊆ written) {outcome : Outcome α Value}
    (houtcome : .outcome outcome ∈ obtained calls)
    {computation : StateT (List (Outcome α Value)) Run (Outcome α Value)}
    (heither : computation = pure outcome ∨
      computation = continuation.run session.grammar outcome) (keep : String) :
    Leads (Command.continued keep computation) session (session.GoesOn written calls) := by
  refine (reads_orFault _ _).bind ?_
  rintro ⟨⟨result, handed⟩, visits⟩ hresult
  -- the outcome is passed along, or handed to the continuation
  rcases heither with rfl | rfl
  · obtain ⟨hpair, -⟩ := Prod.mk.inj (Option.some.inj hresult)
    obtain ⟨rfl, rfl⟩ := Prod.mk.inj hpair
    exact leads_keepOutcome onRecord (onRecord.recorded.obtainable_of_mem houtcome) keep
      (by simp [Answer.objects])
  · obtain ⟨rfl, hobtainable⟩ :=
      onRecord.recorded.obtainable_continued hgrammar hcontinuation houtcome hresult
    exact leads_keepOutcome onRecord hobtainable keep (by simp [Answer.objects, houtcome])

theorem Session.OnRecord.execute (onRecord : session.OnRecord written calls)
    {command : Command α} (hcommand : command.observations ⊆ written)
    (hgrammar : session.grammar.observations ⊆ written) :
    Leads command.execute session (session.GoesOn written calls) := by
  have recorded := onRecord.recorded
  cases command with
  | origin index keep =>
      refine (reads_source index).bind fun source hsource => leads_keepCursor onRecord ?_ keep
      refine recorded.call (.origin source) rfl (List.nil_subset _) ?_ ?_
      · simpa [Call.opened] using hsource
      · simp [Call.said]
  | place index position keep =>
      refine (reads_source index).bind fun source hsource => ?_
      refine (reads_made _).bind fun cursor hmade => leads_keepCursor onRecord ?_ keep
      refine recorded.call (.place source position) ?_ (List.nil_subset _) ?_ ?_
      · rw [Call.result, hmade]
        rfl
      · simpa [Call.opened] using hsource
      · simp [Call.said]
  | advance name count keep =>
      refine (reads_cursor onRecord name).bind fun cursor hcursor => ?_
      refine leads_keepCursor onRecord (recorded.derive (.advance cursor count) rfl ?_ rfl rfl) keep
      simpa [Call.takes] using hcursor
  | next name keep =>
      refine (reads_cursor onRecord name).bind fun cursor hcursor => ?_
      refine leads_keepCursor onRecord (recorded.derive (.next cursor) rfl ?_ rfl rfl) keep
      simpa [Call.takes] using hcursor
  | lookAt name =>
      refine (reads_cursor onRecord name).bind fun cursor hcursor => leads_answer onRecord ?_
      simpa [Answer.objects] using hcursor
  | slice name start stop =>
      exact (reads_cursor onRecord name).bind fun cursor _ =>
        leads_answer onRecord (List.nil_subset _)
  | equalCursors first second =>
      refine (reads_cursor onRecord first).bind fun _ _ => ?_
      exact (reads_cursor onRecord second).bind fun _ _ =>
        leads_answer onRecord (List.nil_subset _)
  | observe made? keep =>
      refine (reads_made _).bind fun observation hmade => ?_
      refine leads_keepObservation onRecord (recorded.obtainable_written ?_) keep
      subst hmade
      exact hcommand List.mem_cons_self
  | withSeverity name severity keep =>
      refine (reads_observation onRecord name).bind fun observation hobservation => ?_
      refine leads_keepObservation onRecord
        (recorded.derive (.withSeverity observation severity) rfl ?_ rfl rfl) keep
      simpa [Call.takes] using hobservation
  | pin name position keep =>
      refine (reads_observation onRecord name).bind fun observation hobservation => ?_
      refine leads_keepObservation onRecord
        (recorded.derive (.pin observation position) rfl ?_ rfl rfl) keep
      simpa [Call.takes] using hobservation
  | detach name site keep =>
      refine (reads_observation onRecord name).bind fun observation hobservation => ?_
      refine (reads_cursor onRecord site).bind fun cursor hcursor => ?_
      refine leads_keepObservation onRecord
        (recorded.derive (.detach observation cursor) rfl ?_ rfl rfl) keep
      simp [Call.takes, hobservation, hcursor]
  | equalObservations first second =>
      refine (reads_observation onRecord first).bind fun _ _ => ?_
      exact (reads_observation onRecord second).bind fun _ _ =>
        leads_answer onRecord (List.nil_subset _)
  | furthest names =>
      refine (reads_observations onRecord names).bind fun found hfound => leads_answer onRecord ?_
      intro object hobject
      obtain ⟨selected, hselected, rfl⟩ := List.mem_map.mp hobject
      apply hfound
      exact List.mem_map_of_mem (Furthest.mem_of_furthest? (Option.mem_toList.mp hselected))
  | succeed result site names keep =>
      refine (reads_cursor onRecord site).bind fun stop hstop => ?_
      refine (reads_observations onRecord names).bind fun notices hnotices => ?_
      refine leads_keepOutcome onRecord (recorded.derive (.succeed result stop notices) rfl ?_ rfl
        rfl) keep (by simp [Answer.objects])
      exact List.cons_subset.mpr ⟨hstop, hnotices⟩
  | fail site names keep =>
      refine (reads_cursor onRecord site).bind fun stop hstop => ?_
      refine (reads_observations onRecord names).bind fun reasons hreasons => ?_
      refine leads_keepOutcome onRecord (recorded.derive (.fail Value stop reasons) rfl ?_ rfl
        rfl) keep (by simp [Answer.objects])
      exact List.cons_subset.mpr ⟨hstop, hreasons⟩
  | onSuccess name made? keep =>
      refine (reads_outcome onRecord name).bind fun outcome houtcome => ?_
      refine (reads_made _).bind fun continuation hmade => ?_
      subst hmade
      refine reads_get.bind fun _ hsame => ?_
      subst hsame
      refine leads_continued onRecord hgrammar hcommand houtcome ?_ keep
      cases outcome with
      | succeeded value remainder observations => exact .inr rfl
      | failed remainder observations => exact .inl rfl
  | onFailure name made? keep =>
      refine (reads_outcome onRecord name).bind fun outcome houtcome => ?_
      refine (reads_made _).bind fun continuation hmade => ?_
      subst hmade
      refine reads_get.bind fun _ hsame => ?_
      subst hsame
      refine leads_continued onRecord hgrammar hcommand houtcome ?_ keep
      cases outcome with
      | succeeded value remainder observations => exact .inl rfl
      | failed remainder observations => exact .inr rfl
  | map name transform keep =>
      refine (reads_outcome onRecord name).bind fun outcome houtcome => ?_
      have hmapped := recorded.derive (.map outcome transform.apply) rfl
        (by simpa [Call.takes] using houtcome) rfl rfl
      cases outcome with
      | succeeded value remainder observations =>
          exact leads_keepOutcome onRecord hmapped keep (by simp [Answer.objects])
      | failed remainder observations =>
          exact leads_keepOutcome onRecord hmapped keep (by simp [Answer.objects])
  | withObservation name note keep =>
      refine (reads_outcome onRecord name).bind fun outcome houtcome => ?_
      refine (reads_observation onRecord note).bind fun observation hobservation => ?_
      refine leads_keepOutcome onRecord (recorded.derive (.withObservation outcome observation) rfl
        ?_ rfl rfl) keep (by simp [Answer.objects])
      simp [Call.takes, houtcome, hobservation]
  | parse name made? keep =>
      refine (reads_cursor onRecord name).bind fun start hstart => ?_
      refine (reads_made _).bind fun step hmade => ?_
      subst hmade
      refine reads_get.bind fun _ hsame => ?_
      subst hsame
      refine (reads_orFault _ _).bind fun parsed hparsed => ?_
      have hobtainable := recorded.obtainable_parsed hgrammar hcommand hstart hparsed
      exact leads_keepOutcome onRecord hobtainable keep (by simp [Answer.objects])
  | value name =>
      refine (reads_outcome onRecord name).bind fun _ _ => ?_
      exact (reads_made _).bind fun _ _ => leads_answer onRecord (List.nil_subset _)
  | valueIfAny name =>
      exact (reads_outcome onRecord name).bind fun _ _ => leads_answer onRecord (List.nil_subset _)
  | inspect name =>
      refine (reads_outcome onRecord name).bind fun outcome houtcome => leads_answer onRecord ?_
      simpa [Answer.objects] using houtcome
  | remainder name keep =>
      refine (reads_outcome onRecord name).bind fun outcome houtcome => ?_
      refine leads_keepCursor onRecord (recorded.derive (.remainder outcome) rfl ?_ rfl rfl) keep
      simpa [Call.takes] using houtcome
  | equalOutcomes first second =>
      refine (reads_outcome onRecord first).bind fun _ _ => ?_
      exact (reads_outcome onRecord second).bind fun _ _ =>
        leads_answer onRecord (List.nil_subset _)

/-! ## One command, and a whole script -/

/-- Whatever a command comes to, the session after it is on record.  A command without an answer
leaves the session as it is, so the record too. -/
theorem Session.OnRecord.give (onRecord : session.OnRecord written calls)
    {command : Command α} (hcommand : command.observations ⊆ written)
    (hgrammar : session.grammar.observations ⊆ written) :
    (session.give command).2.sources = session.sources ∧
      (session.give command).2.grammar = session.grammar ∧
      ∃ later, calls <:+ later ∧ (session.give command).2.OnRecord written later ∧
        ∀ answer, (session.give command).1 = .ok answer → answer.objects ⊆ obtained later := by
  rw [Session.give]
  cases hrun : command.execute.run session with
  | error fault =>
      refine ⟨rfl, rfl, calls, List.suffix_refl calls, onRecord, ?_⟩
      intro answer hanswer
      cases hanswer
  | ok reached =>
      obtain ⟨hsources, hgrammar', later, hlater, onRecord', hobjects⟩ :=
        onRecord.execute hcommand hgrammar reached.1 reached.2 hrun
      refine ⟨hsources, hgrammar', later, hlater, onRecord', ?_⟩
      intro answer hanswer
      obtain rfl := Except.ok.inj hanswer
      exact hobjects

/-- By induction on the script: the record is carried on with every command, and the sources and
the grammar stay. -/
theorem Session.OnRecord.after (onRecord : session.OnRecord written calls)
    {commands : List (Command α)}
    (hcommands : ∀ command ∈ commands, command.observations ⊆ written)
    (hgrammar : session.grammar.observations ⊆ written) :
    (session.after commands).sources = session.sources ∧
      ∃ later, calls <:+ later ∧ (session.after commands).OnRecord written later ∧
        ∀ answer, .ok answer ∈ session.answers commands → answer.objects ⊆ obtained later := by
  induction commands generalizing session calls with
  | nil =>
      refine ⟨rfl, calls, List.suffix_refl calls, onRecord, ?_⟩
      intro answer hanswer
      cases hanswer
  | cons command rest ih =>
      obtain ⟨hcommand, hrest⟩ := List.forall_mem_cons.mp hcommands
      obtain ⟨hsources, hsame, middle, hmiddle, onRecord', hfirst⟩ :=
        onRecord.give hcommand hgrammar
      obtain ⟨hsources', later, hlater, onRecord'', hlast⟩ :=
        ih onRecord' hrest (by rwa [hsame])
      refine ⟨hsources'.trans hsources, later, hmiddle.trans hlater, onRecord'', ?_⟩
      intro answer hanswer
      rcases List.mem_cons.mp hanswer with hgiven | hanswer
      · exact List.Subset.trans (hfirst answer hgiven.symm) (obtained_subset hlater)
      · exact hlast answer hanswer

/-- The observations that are written in a grammar or in a script. -/
def Grammar.writtenWith (grammar : Grammar α) (commands : List (Command α)) :
    List Observation :=
  grammar.observations ++ commands.flatMap Command.observations

/-- **Every session is a history.**  What a session keeps and what it answers, from its start on,
has been made by calls, which open the sources of the session and say what is written. -/
theorem Session.exists_history (sources : List (Source α)) (grammar : Grammar α)
    (commands : List (Command α)) :
    ∃ calls, Recorded sources (grammar.writtenWith commands) calls ∧
      (Session.after { sources, grammar } commands).objects ⊆ obtained calls ∧
      ∀ answer, .ok answer ∈ Session.answers { sources, grammar } commands →
        answer.objects ⊆ obtained calls := by
  have onRecord : Session.OnRecord { sources, grammar } (grammar.writtenWith commands) [] := by
    refine ⟨⟨trivial, ?_, ?_⟩, List.nil_subset _⟩ <;> exact List.forall_mem_nil _
  have hcommands : ∀ command ∈ commands,
      command.observations ⊆ grammar.writtenWith commands := by
    intro command hcommand observation hobservation
    apply List.mem_append_right
    exact List.mem_flatMap.mpr ⟨command, hcommand, hobservation⟩
  obtain ⟨hsources, calls, -, onRecord', hanswers⟩ :=
    onRecord.after hcommands (List.subset_append_left _ _)
  have recorded := onRecord'.recorded
  rw [hsources] at recorded
  exact ⟨calls, recorded, onRecord'.kept, hanswers⟩

/-- **Whatever a session answers is well formed**: a cursor is within one of the sources, and an
observation says what one that is written says, which is not blank, with no label twice. -/
theorem Session.answer_sound {sources : List (Source α)} {grammar : Grammar α}
    {commands : List (Command α)} {answer : Answer α}
    (hanswer : .ok answer ∈ Session.answers { sources, grammar } commands)
    {object : Object} (hobject : object ∈ answer.objects) :
    (∀ cursor ∈ object.cursors, cursor.2.position ≤ cursor.2.source.length ∧
        ∃ source ∈ sources, cursor.source = ⟨α, source⟩) ∧
      ∀ observation ∈ object.observations,
        (∃ c ∈ observation.message.toList, Blank.isBlank c = false) ∧
          observation.expectations.Nodup ∧
          ∃ original ∈ grammar.writtenWith commands,
            observation.message = original.message ∧
              observation.expectations = original.expectations := by
  obtain ⟨calls, recorded, -, hanswers⟩ := Session.exists_history sources grammar commands
  have hsound := isSound_of_mem_obtained recorded.isHistory (hanswers answer hanswer hobject)
  constructor
  · intro cursor hcursor
    obtain ⟨call, hcall, -, hopened⟩ := hsound.source_given cursor hcursor
    exact ⟨hsound.position_le_length cursor hcursor, recorded.opened call hcall _ hopened⟩
  · intro observation hobservation
    obtain ⟨call, hcall, -, hsaid⟩ := hsound.text_given observation hobservation
    obtain ⟨original, hwritten, hsame⟩ := recorded.said call hcall _ hsaid
    exact ⟨hsound.message_not_blank observation hobservation,
      hsound.expectations_nodup observation hobservation, original, hwritten,
      Prod.mk.inj hsame⟩

end ParseOutcome
