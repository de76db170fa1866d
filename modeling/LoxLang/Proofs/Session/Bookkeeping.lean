import LoxLang.Proofs.Session.Bench

/-!
The books of a session.  What happens to errors is a list of events: a static or a runtime
error is reported, the errors that wait are printed, everything is cleared.  The error
flags, the errors that wait and the errors that were printed are functions of the events so
far, whatever stages and runs they came from.
-/

namespace LoxLang

/-- What happens to the errors of a session. -/
inductive Event where
  | rejected (diagnostic : Diagnostic)
  | failed (error : RuntimeError)
  /-- The static errors that wait are printed. -/
  | printed
  | cleared
deriving DecidableEq

namespace Event

@[simp]
def diagnostic? : Event → Option Diagnostic
  | .rejected diagnostic => some diagnostic
  | _ => none

@[simp]
def error? : Event → Option RuntimeError
  | .failed error => some error
  | _ => none

/-- Whether no static error waits after the event. -/
def settles : Event → Bool
  | .printed | .cleared => true
  | .rejected _ | .failed _ => false

section Select

variable {α : Type} (name : Event → Option α)

/-- What is named, in order, by the events that are followed by wanted ones. -/
def select (wanted : List Event → Bool) : List Event → List α
  | [] => []
  | event :: later =>
      (if wanted later then (name event).toList else []) ++ select wanted later

theorem select_concat (wanted : List Event → Bool) (events : List Event) (event : Event) :
    select name wanted (events ++ [event]) =
      select name (fun later => wanted (later ++ [event])) events ++
        if wanted [] then (name event).toList else [] := by
  induction events with
  | nil => simp [select]
  | cons first rest inductionHypothesis => simp [select, inductionHypothesis]

theorem select_eq_nil {wanted : List Event → Bool} (never : ∀ later, wanted later = false)
    (events : List Event) : select name wanted events = [] := by
  induction events with
  | nil => rfl
  | cons first rest inductionHypothesis => simp [select, never, inductionHypothesis]

/-- What is named by the events since the last clearing. -/
def sinceCleared (events : List Event) : List α :=
  select name (fun later => !later.contains .cleared) events

@[simp]
theorem sinceCleared_concat (events : List Event) (event : Event) :
    sinceCleared name (events ++ [event]) =
      if event = .cleared then (name event).toList
      else sinceCleared name events ++ (name event).toList := by
  unfold sinceCleared
  rw [select_concat]
  by_cases clearing : event = .cleared
  · rw [if_pos clearing, select_eq_nil]
    · simp
    · simp [clearing]
  · simp [clearing, Ne.symm clearing]

end Select

/-- The static errors reported since the last clearing. -/
def rejections (events : List Event) : List Diagnostic :=
  sinceCleared diagnostic? events

/-- The runtime errors reported since the last clearing. -/
def failures (events : List Event) : List RuntimeError :=
  sinceCleared error? events

/-- The static errors reported since the last printing or clearing. -/
def waiting (events : List Event) : List Diagnostic :=
  select diagnostic? (fun later => later.find? settles == none) events

/-- The static errors that are printed: after their report a printing comes before any
clearing. -/
def shown (events : List Event) : List Diagnostic :=
  select diagnostic? (fun later => later.find? settles == some .printed) events

@[simp]
theorem waiting_concat (events : List Event) (event : Event) :
    waiting (events ++ [event]) =
      if event.settles then [] else waiting events ++ event.diagnostic?.toList := by
  unfold waiting
  rw [select_concat]
  cases event <;> simp [settles, select_eq_nil]

theorem shown_cons (event : Event) (later : List Event) :
    shown (event :: later) =
      (if later.find? settles = some .printed then event.diagnostic?.toList else []) ++
        shown later := by
  simp [shown, select]

theorem shown_eq_nil {events : List Event} (unsettled : events.find? settles = none) :
    shown events = [] := by
  induction events with
  | nil => rfl
  | cons first rest inductionHypothesis =>
      have later : rest.find? settles = none := by
        rw [List.find?_eq_none] at unsettled ⊢
        exact fun event member => unsettled event (List.mem_cons_of_mem first member)
      simp [shown_cons, later, inductionHypothesis later]

/-- A printing adds the errors that wait, which were reported after all printed ones. -/
@[simp]
theorem shown_concat (events : List Event) (event : Event) :
    shown (events ++ [event]) =
      shown events ++ if event = .printed then waiting events else [] := by
  induction events with
  | nil => cases event <;> rfl
  | cons first rest inductionHypothesis =>
      have found : (rest ++ [event]).find? settles =
          (rest.find? settles).or (if event.settles then some event else none) := by
        rw [List.find?_append, List.find?_singleton]
      rw [List.cons_append, shown_cons, shown_cons, inductionHypothesis, found]
      cases later : rest.find? settles with
      | none => cases event <;> simp [waiting, select, settles, later, shown_eq_nil later]
      | some event => simp [waiting, select, later]

end Event

/-- The static error that a report is about. -/
@[simp]
def Report.diagnostic? : Report → Option Diagnostic
  | .rejected diagnostic => some diagnostic
  | .failed _ => none

/-- The report that an entry of the log is about. -/
@[simp]
def LogEntry.event? : LogEntry → Option Event
  | .rejected diagnostic => some (.rejected diagnostic)
  | .failed error => some (.failed error)
  | _ => none

namespace Session

/-- What a session holds of its errors is what the events so far make of them, and its log
has the reports among them. -/
structure KeepsBooks (session : Session) (events : List Event) : Prop where
  hadError : session.hadError = true ↔ Event.rejections events ≠ []
  hadRuntimeError : session.hadRuntimeError = true ↔ Event.failures events ≠ []
  runtimeError : session.runtimeError = (Event.failures events).getLast?
  pending : session.pending = Event.waiting events
  printed : session.reports.filterMap Report.diagnostic? = Event.shown events
  noted : session.log.filterMap LogEntry.event? = events.filter fun event => !event.settles

namespace KeepsBooks

variable {session : Session} {events : List Event}

theorem initial (input : Bytes) (clock : Nat → Float) :
    (Session.initial input clock).KeepsBooks [] := by
  constructor <;> simp [Session.initial, Event.rejections, Event.failures, Event.sinceCleared,
    Event.waiting, Event.shown, Event.select]

theorem rejectOne (books : session.KeepsBooks events) (diagnostic : Diagnostic) :
    (session.reject [diagnostic]).KeepsBooks (events ++ [Event.rejected diagnostic]) := by
  obtain ⟨hadError, hadRuntimeError, runtimeError, pending, printed, noted⟩ := books
  constructor <;> simp_all [Session.reject, Event.rejections, Event.failures, Event.settles]

theorem reject (books : session.KeepsBooks events) (errors : List Diagnostic) :
    (session.reject errors).KeepsBooks (events ++ errors.map .rejected) := by
  induction errors generalizing session events with
  | nil => simpa [Session.reject] using books
  | cons first rest inductionHypothesis =>
      have parted : session.reject (first :: rest) = (session.reject [first]).reject rest := by
        simp [Session.reject]
      rw [parted, List.map_cons, List.append_cons]
      exact inductionHypothesis (books.rejectOne first)

theorem fail (books : session.KeepsBooks events) (error : RuntimeError) :
    (session.fail error).KeepsBooks (events ++ [Event.failed error]) := by
  obtain ⟨hadError, hadRuntimeError, runtimeError, pending, printed, noted⟩ := books
  constructor <;> simp_all [Session.fail, Event.rejections, Event.failures, Event.settles]

theorem printErrors (books : session.KeepsBooks events) :
    session.printErrors.2.KeepsBooks (events ++ [Event.printed]) := by
  obtain ⟨hadError, hadRuntimeError, runtimeError, pending, printed, noted⟩ := books
  have named : (Event.waiting events).filterMap (Report.diagnostic? ∘ Report.rejected) =
      Event.waiting events := List.filterMap_some
  constructor <;>
    simp_all [Session.printErrors, Event.rejections, Event.failures, Event.settles]

theorem clear (books : session.KeepsBooks events) :
    session.clear.KeepsBooks (events ++ [Event.cleared]) := by
  obtain ⟨hadError, hadRuntimeError, runtimeError, pending, printed, noted⟩ := books
  constructor <;> simp_all [Session.clear, Event.rejections, Event.failures, Event.settles]

/-- A note that is no report changes no books. -/
theorem note (books : session.KeepsBooks events) {entry : LogEntry}
    (other : entry.event? = none) : (session.note entry).KeepsBooks events :=
  { books with
    noted := by
      rw [Session.note, List.filterMap_append, List.filterMap_cons_none other]
      simpa using books.noted }

theorem scan (books : session.KeepsBooks events) (source : Bytes) :
    (session.scan source).2.KeepsBooks
      (events ++ (LoxLang.scan source).errors.map .rejected) :=
  (books.reject _).note rfl

theorem parse (books : session.KeepsBooks events) (tokens : List Token) :
    (session.parse tokens).2.KeepsBooks
      (events ++ (LoxLang.parse tokens session.nextId).errors.map .rejected) := by
  have numbered : { session with
      nextId := (LoxLang.parse tokens session.nextId).nextId }.KeepsBooks events :=
    { books with }
  exact (numbered.reject _).note rfl

theorem resolve (books : session.KeepsBooks events) (statements : List Stmt) :
    (session.resolve statements).KeepsBooks
      (events ++ (LoxLang.resolve statements session.table).2.map .rejected) := by
  have recorded : { session with
      table := (LoxLang.resolve statements session.table).1 }.KeepsBooks events :=
    { books with }
  exact (recorded.reject _).note rfl

end KeepsBooks

variable (session : Session)

/-- What happens when statements are executed: at most one runtime error, and no static
one. -/
def executionEvents (fuel : Nat) (statements : List Stmt) (interactive : Bool) : List Event :=
  match Eval.interpret ⟨session.table, .recorded⟩ fuel interactive statements session.machine with
  | .error (.fault error) _ => [.failed error]
  | _ => []

/-- What happens when source is read: its lexical and syntax errors are reported, and the
errors that wait are printed. -/
def readingEvents (source : Bytes) : List Event :=
  (LoxLang.scan source).errors.map .rejected ++ (session.parsed source).errors.map .rejected ++
    [Event.printed]

/-- What happens when the scopes of source are resolved. -/
def checkingEvents (source : Bytes) : List Event :=
  (LoxLang.resolve (session.parsed source).statements session.table).2.map .rejected ++ [Event.printed]

/-- What happens in the static stages of a run.  No scope is resolved while a static error
is not cleared. -/
def staticEvents (past : List Event) (source : Bytes) : List Event :=
  if Event.rejections (past ++ session.readingEvents source) = [] then
    session.readingEvents source ++ session.checkingEvents source
  else session.readingEvents source

/-- What happens in a run.  Nothing is executed while a static error is not cleared. -/
def runEvents (past : List Event) (fuel : Nat) (source : Bytes) (interactive : Bool) :
    List Event :=
  session.staticEvents past source ++
    if Event.rejections (past ++ session.staticEvents past source) = [] then
      (session.screened source).executionEvents fuel (session.parsed source).statements interactive
    else []

/-- A run executes its statements exactly if no error flag is up after its static stages. -/
theorem run_eq_screened (fuel : Nat) (source : Bytes) (interactive : Bool) :
    session.run fuel source interactive =
      if (session.screened source).hadError then (.finished false, session.screened source)
      else (session.screened source).interpret fuel (session.parsed source).statements
        interactive := by
  rw [run_eq, screened]
  by_cases raised : (session.read source).hadError = true
  · simp only [if_pos raised]
  · simp only [if_neg raised]

/-- A static error that was not cleared before a run stands after its static stages. -/
theorem hadError_screened {session : Session} (raised : session.hadError = true)
    (source : Bytes) : (session.screened source).hadError = true := by
  unfold screened
  split
  case isTrue raisedRead => exact raisedRead
  case isFalse silent =>
    obtain ⟨earlier, -⟩ := silent_of_read (eq_false_of_ne_true silent)
    rw [raised] at earlier
    cases earlier

theorem machine_screened (source : Bytes) :
    (session.screened source).machine = session.machine := by
  unfold screened
  split <;> rfl

theorem pending_screened (source : Bytes) : (session.screened source).pending = [] := by
  unfold screened
  split <;> rfl

theorem pending_interpret (fuel : Nat) (statements : List Stmt) (interactive : Bool) :
    (session.interpret fuel statements interactive).2.pending = session.pending := by
  rw [interpret_eq]
  unfold conclude
  split <;> rfl

/-- No static error waits after a run. -/
theorem pending_run (fuel : Nat) (source : Bytes) (interactive : Bool) :
    (session.run fuel source interactive).2.pending = [] := by
  rw [run_eq_screened]
  split
  · exact session.pending_screened source
  · rw [pending_interpret, pending_screened]

namespace KeepsBooks

variable {session : Session} {events : List Event}

theorem hadError_eq_false (books : session.KeepsBooks events) :
    session.hadError = false ↔ Event.rejections events = [] := by
  rw [← Bool.not_eq_true, books.hadError, not_not]

theorem interpret (books : session.KeepsBooks events) (fuel : Nat) (statements : List Stmt)
    (interactive : Bool) :
    (session.interpret fuel statements interactive).2.KeepsBooks
      (events ++ session.executionEvents fuel statements interactive) := by
  rw [interpret_eq, executionEvents]
  have noted : (session.note (.interpreting statements.length interactive)).KeepsBooks events :=
    books.note rfl
  cases Eval.interpret ⟨session.table, .recorded⟩ fuel interactive statements session.machine with
  | ok _ machine =>
      rw [List.append_nil]
      exact { noted with }
  | error stop machine =>
      have stopped : { session.note (.interpreting statements.length interactive) with
          machine := machine }.KeepsBooks events := { noted with }
      cases stop with
      | fault error => exact stopped.fail error
      | desync _ | outOfFuel =>
          rw [List.append_nil]
          exact stopped

theorem read (books : session.KeepsBooks events) (source : Bytes) :
    (session.read source).KeepsBooks (events ++ session.readingEvents source) := by
  rw [readingEvents, ← List.append_assoc, ← List.append_assoc]
  exact ((books.scan source).parse (LoxLang.scan source).tokens).printErrors

theorem checked {source : Bytes} (books : (session.read source).KeepsBooks events) :
    (session.checked source).KeepsBooks (events ++ session.checkingEvents source) := by
  rw [checkingEvents, ← List.append_assoc]
  exact (books.resolve (session.parsed source).statements).printErrors

theorem screened (books : session.KeepsBooks events) (source : Bytes) :
    (session.screened source).KeepsBooks (events ++ session.staticEvents events source) := by
  unfold Session.screened staticEvents
  have read := books.read source
  by_cases raised : (session.read source).hadError = true
  · rw [if_pos raised, if_neg (read.hadError.mp raised)]
    exact read
  · rw [if_neg raised, if_pos (read.hadError_eq_false.mp (eq_false_of_ne_true raised)),
      ← List.append_assoc]
    exact read.checked

theorem run (books : session.KeepsBooks events) (fuel : Nat) (source : Bytes)
    (interactive : Bool) :
    (session.run fuel source interactive).2.KeepsBooks
      (events ++ session.runEvents events fuel source interactive) := by
  have screened := books.screened source
  rw [run_eq_screened, runEvents, ← List.append_assoc]
  by_cases raised : (session.screened source).hadError = true
  · rw [if_pos raised, if_neg (screened.hadError.mp raised), List.append_nil]
    exact screened
  · rw [if_neg raised, if_pos (screened.hadError_eq_false.mp (eq_false_of_ne_true raised))]
    exact screened.interpret fuel _ interactive

end KeepsBooks

end Session

namespace Bench

/-- What happens to errors in a step, after what happened before. -/
def events (past : List Event) (bench : Bench) (fuel : Nat) : Step → List Event
  | .run source interactive => bench.session.runEvents past fuel source interactive
  | .scan source => (LoxLang.scan source).errors.map .rejected
  | .parse => (LoxLang.parse bench.tokens bench.session.nextId).errors.map .rejected
  | .resolve => (LoxLang.resolve bench.statements bench.session.table).2.map .rejected
  | .interpret interactive => bench.session.executionEvents fuel bench.statements interactive
  | .printErrors => [.printed]
  | .clear => [.cleared]
  | .tree | .pending => []

/-- A bench after steps, each with a bound of its own, and what happened to errors so
far. -/
def performAll : List (Nat × Step) → Bench → List Event → Bench × List Event
  | [], bench, past => (bench, past)
  | (fuel, step) :: rest, bench, past =>
      performAll rest (bench.step fuel step).2 (past ++ bench.events past fuel step)

theorem keepsBooks_step {bench : Bench} {past : List Event}
    (books : bench.session.KeepsBooks past) (fuel : Nat) (step : Step) :
    (bench.step fuel step).2.session.KeepsBooks (past ++ bench.events past fuel step) := by
  cases step with
  | run source interactive => exact books.run fuel source interactive
  | scan source => exact books.scan source
  | parse => exact books.parse bench.tokens
  | resolve => exact books.resolve bench.statements
  | interpret interactive => exact books.interpret fuel bench.statements interactive
  | printErrors => exact books.printErrors
  | clear => exact books.clear
  | tree | pending =>
      rw [events, List.append_nil]
      exact books

theorem keepsBooks_performAll (steps : List (Nat × Step)) {bench : Bench} {past : List Event}
    (books : bench.session.KeepsBooks past) :
    (performAll steps bench past).1.session.KeepsBooks (performAll steps bench past).2 := by
  induction steps generalizing bench past with
  | nil => exact books
  | cons first rest inductionHypothesis =>
      exact inductionHypothesis (keepsBooks_step books first.1 first.2)

end Bench

/-- After any steps of a session its error flags stand for the static and runtime errors
reported since the last clearing, the runtime error it names is the latest of those, the
static errors that wait are those reported since the last printing or clearing, and the
printed ones are, in the order of their reports, those that a printing followed before any
clearing.  A run leaves no error waiting.  It executes its statements exactly if there is no
static error that was not cleared after its static stages, so an earlier one that was not
cleared makes it return false with the machine as it was. -/
theorem session_keepsBooks (input : Bytes) (clock : Nat → Float) (steps : List (Nat × Step)) :
    let bench := (Bench.performAll steps (.initial input clock) []).1
    let events := (Bench.performAll steps (.initial input clock) []).2
    bench.session.KeepsBooks events ∧
    ∀ (fuel : Nat) (source : Bytes) (interactive : Bool),
      let screened := bench.session.screened source
      let ran := bench.session.run fuel source interactive
      ran.2.pending = [] ∧
      screened.KeepsBooks (events ++ bench.session.staticEvents events source) ∧
      screened.machine = bench.session.machine ∧
      (screened.hadError = false →
        ran = screened.interpret fuel (bench.session.parsed source).statements interactive) ∧
      (screened.hadError = true → ran = (.finished false, screened)) ∧
      (Event.rejections events ≠ [] →
        ran.1 = .finished false ∧ ran.2.machine = bench.session.machine) := by
  intro bench events
  have books : bench.session.KeepsBooks events :=
    Bench.keepsBooks_performAll steps (.initial input clock)
  refine ⟨books, fun fuel source interactive => ?_⟩
  intro screened ran
  have stopped (raised : screened.hadError = true) : ran = (.finished false, screened) := by
    rw [← if_pos (t := (Outcome.finished false, screened)) raised]
    exact bench.session.run_eq_screened fuel source interactive
  refine ⟨bench.session.pending_run fuel source interactive, books.screened source,
    bench.session.machine_screened source, fun silent => ?_, stopped, fun standing => ?_⟩
  · have eq := bench.session.run_eq_screened fuel source interactive
    rwa [if_neg (by rw [silent]; exact Bool.false_ne_true)] at eq
  · rw [stopped (Session.hadError_screened (books.hadError.mpr standing) source)]
    exact ⟨rfl, bench.session.machine_screened source⟩

/-- An error of a single stage is printed by the next printing point, a run of other source,
and stops that run and the one after it.  After a clearing the same source is executed. -/
theorem session_keepsBooks_standing :
    let source := Bytes.ofString "print nil;"
    let steps := [(20, Step.scan (Bytes.ofString "#")), (20, .run source false)]
    let bench := (Bench.performAll steps (.initial [] fun _ => 0) []).1
    let ran := bench.session.run 20 source false
    let cleared := (Bench.performAll (steps ++ [(20, .clear)]) (.initial [] fun _ => 0) []).1
    let allowed := cleared.session.run 20 source false
    (Event.rejections (Bench.performAll steps (.initial [] fun _ => 0) []).2 ≠ [] ∧
      bench.session.reports = [.rejected ⟨.unexpectedCharacter, 1, .unnamed⟩] ∧
        ran.1 = .finished false ∧ ran.2.machine = bench.session.machine) ∧
    (cleared.session.screened source).hadError = false ∧
      allowed = (cleared.session.screened source).interpret 20
        (cleared.session.parsed source).statements false ∧
      allowed.1 = .finished true ∧ allowed.2.output = Bytes.ofString "nil\n" := by
  intro source steps bench ran cleared allowed
  have standing : Event.rejections (Bench.performAll steps (.initial [] fun _ => 0) []).2 =
      [⟨.unexpectedCharacter, 1, .unnamed⟩] := by decide +kernel
  have reports : bench.session.reports = [.rejected ⟨.unexpectedCharacter, 1, .unnamed⟩] := by
    decide +kernel
  have silent : (cleared.session.screened source).hadError = false := by decide +kernel
  have executed : (allowed.1, allowed.2.output) =
      (Outcome.finished true, Bytes.ofString "nil\n") := by decide +kernel
  obtain ⟨-, runs⟩ := session_keepsBooks [] (fun _ => 0) steps
  obtain ⟨-, -, -, -, -, stopped⟩ := runs 20 source false
  obtain ⟨-, runsCleared⟩ := session_keepsBooks [] (fun _ => 0) (steps ++ [(20, .clear)])
  obtain ⟨-, -, -, executes, -⟩ := runsCleared 20 source false
  have refused := stopped (by rw [standing]; simp)
  exact ⟨⟨by rw [standing]; simp, reports, refused⟩, silent, executes silent,
    congrArg Prod.fst executed, congrArg Prod.snd executed⟩

end LoxLang
