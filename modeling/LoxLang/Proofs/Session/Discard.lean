import LoxLang.Program.Printer
import LoxLang.Proofs.Scope.Relabel
import LoxLang.Proofs.Session.Bench

/-!
A rejected source leaves no trace.  It uses up identities, and some of them may have
records by the time its errors are seen.  Later sources are numbered past them, so a
session that met the rejected source and one that did not go on in the same way, with
identities that differ by a fixed amount.
-/

namespace LoxLang

/-- An entry of the log without the size of the record. -/
def LogEntry.withoutSize : LogEntry → LogEntry
  | .resolved _ => .resolved 0
  | entry => entry

namespace Session

/-- Another session with the identities renamed.  The sizes of the records need not
be the same. -/
structure Renumbers (ids : RefId → RefId) (session other : Session) : Prop where
  distinct : ∀ {first second : RefId}, ids first = ids second → first = second
  successive : ∀ id, session.nextId ≤ id → ids (id + 1) = ids id + 1
  nextId : other.nextId = ids session.nextId
  machine : session.machine.Alike (.plain Eq fun id image => image = ids id) other.machine
  table : ∀ id, other.table[ids id]? = session.table[id]?
  pending : other.pending = session.pending
  hadError : other.hadError = session.hadError
  hadRuntimeError : other.hadRuntimeError = session.hadRuntimeError
  runtimeError : other.runtimeError = session.runtimeError
  reports : other.reports = session.reports
  log : other.log.map LogEntry.withoutSize = session.log.map LogEntry.withoutSize

namespace Renumbers

variable {ids : RefId → RefId} {session other : Session}

theorem reject (same : Renumbers ids session other) (errors : List Diagnostic) :
    Renumbers ids (session.reject errors) (other.reject errors) :=
  { same with
    pending := congrArg (· ++ errors) same.pending
    hadError := congrArg (· || !errors.isEmpty) same.hadError
    log := by simp only [Session.reject, List.map_append, same.log] }

theorem note (same : Renumbers ids session other) {entry otherEntry : LogEntry}
    (entries : otherEntry.withoutSize = entry.withoutSize) :
    Renumbers ids (session.note entry) (other.note otherEntry) :=
  { same with
    log := by simp only [Session.note, List.map_append, same.log, List.map_singleton, entries] }

theorem scan (same : Renumbers ids session other) (source : Bytes) :
    Renumbers ids (session.scan source).2 (other.scan source).2 :=
  (same.reject _).note rfl

theorem parse (same : Renumbers ids session other) (tokens : List Token) :
    Renumbers ids (session.parse tokens).2 (other.parse tokens).2 ∧
      (other.parse tokens).1 = Stmt.relabelAll (.renumber ids) (session.parse tokens).1 := by
  have parsed := parse_renumber same.successive tokens
  unfold Session.parse
  rw [same.nextId, parsed]
  refine ⟨Renumbers.note (Renumbers.reject ?_ _) (by simp only [Stmt.length_relabelAll]), rfl⟩
  exact { same with
    successive := fun id later =>
      same.successive id (Nat.le_trans (Parser.nextId_le_parse tokens session.nextId) later)
    nextId := rfl }

theorem resolve (same : Renumbers ids session other) (statements : List Stmt) :
    Renumbers ids (session.resolve statements)
      (other.resolve (Stmt.relabelAll (.renumber ids) statements)) := by
  obtain ⟨table, errors⟩ := @resolve_relabel (.renumber ids) same.distinct statements
    session.table other.table same.table
  have unchanged : (Relabelling.renumber ids).diagnostic = id := rfl
  rw [unchanged, List.map_id] at errors
  have recorded : Renumbers ids
      { session with table := (LoxLang.resolve statements session.table).1 }
      { other with
        table := (LoxLang.resolve (Stmt.relabelAll (.renumber ids) statements) other.table).1 } :=
    { same with table := table }
  unfold Session.resolve
  dsimp only
  rw [errors]
  exact (recorded.reject _).note rfl

theorem printErrors (same : Renumbers ids session other) :
    Renumbers ids session.printErrors.2 other.printErrors.2 :=
  { same with
    pending := rfl
    reports := by simp only [Session.printErrors, same.reports, same.pending] }

theorem clear (same : Renumbers ids session other) : Renumbers ids session.clear other.clear :=
  { same with pending := rfl, hadError := rfl, hadRuntimeError := rfl, runtimeError := rfl }

theorem drain (same : Renumbers ids session other) : Renumbers ids session.drain other.drain :=
  { same with machine := same.machine.drain, reports := rfl, log := rfl }

theorem fail (same : Renumbers ids session other) (error : RuntimeError) :
    Renumbers ids (session.fail error) (other.fail error) :=
  { same with
    machine := same.machine.global
    hadRuntimeError := rfl
    runtimeError := rfl
    reports := congrArg (· ++ [Report.failed error]) same.reports
    log := by simp only [Session.fail, List.map_append, same.log] }

theorem conclude (same : Renumbers ids session other)
    {result otherResult : EStateM.Result Stop Machine Unit}
    (ends : Machine.EndsAlike (.plain Eq fun id image => image = ids id) result otherResult) :
    (other.conclude otherResult).1 = (session.conclude result).1 ∧
      Renumbers ids (session.conclude result).2 (other.conclude otherResult).2 := by
  cases ends with
  | ok alike => exact ⟨rfl, { same with machine := alike }⟩
  | @error _ stop machine otherMachine stops alike =>
      have stopped : Renumbers ids { session with machine := machine }
          { other with machine := otherMachine } := { same with machine := alike }
      obtain rfl := stops.eq
      cases stop with
      | fault error => exact ⟨rfl, stopped.fail error⟩
      | desync cause => exact ⟨rfl, stopped⟩
      | outOfFuel => exact ⟨rfl, stopped⟩

theorem interpret (same : Renumbers ids session other) (statements : List Stmt) (fuel : Nat)
    (interactive : Bool) :
    (other.interpret fuel (Stmt.relabelAll (.renumber ids) statements) interactive).1 =
        (session.interpret fuel statements interactive).1 ∧
      Renumbers ids (session.interpret fuel statements interactive).2
        (other.interpret fuel (Stmt.relabelAll (.renumber ids) statements) interactive).2 := by
  have agrees : (Likeness.plain Eq fun id image => image = ids id).Agrees session.table
      other.table := Likeness.plain_agrees fun {id _} link => by rw [link, same.table id]
  have admits : (Likeness.plain Eq fun id image => image = ids id).Admits (.renumber ids)
      (Stmt.tokensAll statements) (Stmt.referencesAll statements) :=
    Likeness.plain_admits (fun _ _ => rfl) fun _ _ => rfl
  rw [interpret_eq, interpret_eq, Stmt.length_relabelAll]
  exact (same.note rfl).conclude
    (same.machine.interpret agrees (Stmt.alikeAll_relabelAll statements admits) fuel interactive)

theorem read (same : Renumbers ids session other) (source : Bytes) :
    Renumbers ids (session.read source) (other.read source) :=
  ((same.scan source).parse _).1.printErrors

theorem parsed (same : Renumbers ids session other) (source : Bytes) :
    (other.parsed source).statements =
      Stmt.relabelAll (.renumber ids) (session.parsed source).statements :=
  ((same.scan source).parse _).2

theorem checked (same : Renumbers ids session other) (source : Bytes) :
    Renumbers ids (session.checked source) (other.checked source) := by
  unfold Session.checked
  rw [same.parsed source]
  exact ((same.read source).resolve _).printErrors

theorem run (same : Renumbers ids session other) (fuel : Nat) (source : Bytes)
    (interactive : Bool) :
    (other.run fuel source interactive).1 = (session.run fuel source interactive).1 ∧
      Renumbers ids (session.run fuel source interactive).2
        (other.run fuel source interactive).2 := by
  rw [run_eq, run_eq, (same.read source).hadError, (same.checked source).hadError,
    same.parsed source]
  split
  · exact ⟨rfl, same.read source⟩
  · split
    · exact ⟨rfl, same.checked source⟩
    · exact (same.checked source).interpret _ fuel interactive

end Renumbers

/-- Identities from the first on are moved up, past those that were given out in
between. -/
def pastIds (first next id : Nat) : Nat :=
  if id < first then id else id + (next - first)

theorem pastIds_of_lt {first next id : Nat} (below : id < first) : pastIds first next id = id :=
  if_pos below

theorem pastIds_of_le {first next id : Nat} (above : first ≤ id) :
    pastIds first next id = id + (next - first) :=
  if_neg (Nat.not_lt.mpr above)

theorem pastIds_first {first next : Nat} (later : first ≤ next) :
    pastIds first next first = next := by
  rw [pastIds_of_le (Nat.le_refl first)]
  omega

theorem pastIds_injective {first next id other : Nat}
    (same : pastIds first next id = pastIds first next other) : id = other := by
  unfold pastIds at same
  split at same <;> split at same <;> omega

theorem pastIds_succ {first next id : Nat} (above : first ≤ id) :
    pastIds first next (id + 1) = pastIds first next id + 1 := by
  rw [pastIds_of_le above, pastIds_of_le (Nat.le_succ_of_le above)]
  omega

/-- Past the first identity all images are past the next one. -/
theorem le_pastIds {first next id : Nat} (later : first ≤ next) (above : first ≤ id) :
    next ≤ pastIds first next id := by
  rw [pastIds_of_le above]
  omega

/-- A session that gave out identities, and has records at most for these beside
those of another session, goes on like the other one. -/
theorem IsNumbered.renumbers {session other : Session} (numbered : session.IsNumbered)
    (later : session.nextId ≤ other.nextId) (machine : other.machine = session.machine)
    (kept : ∀ id, id < session.nextId ∨ other.nextId ≤ id →
      other.table[id]? = session.table[id]?) :
    Renumbers (pastIds session.nextId other.nextId) session.clear.drain other.clear.drain where
  distinct := pastIds_injective
  successive _ := pastIds_succ
  nextId := (pastIds_first later).symm
  machine := by
    have carried : session.machine.Alike
        (.plain Eq fun id image => image = pastIds session.nextId other.nextId id)
        other.machine := by
      rw [machine]
      exact numbered.code.imp fun _ _ => Likeness.plain_carries
        (fun link => link.1.trans (pastIds_of_lt link.2).symm) fun _ _ _ same => same
    exact carried.drain
  table id := by
    change other.table[pastIds _ _ id]? = session.table[id]?
    rcases Nat.lt_or_ge id session.nextId with below | above
    · rw [pastIds_of_lt below]
      exact kept id (.inl below)
    · -- what is given out from here on skips the records of the rejected tree
      have past := le_pastIds later above
      rw [kept _ (.inr past), numbered.fresh id above]
      exact numbered.fresh _ (Nat.le_trans later past)
  pending := rfl
  hadError := rfl
  hadRuntimeError := rfl
  runtimeError := rfl
  reports := rfl
  log := rfl

/-- Execution reports runtime errors only. -/
theorem reports_conclude (session : Session) (result : EStateM.Result Stop Machine Unit) :
    ∃ errors : List RuntimeError,
      (session.conclude result).2.reports = session.reports ++ errors.map .failed := by
  unfold conclude
  split
  case h_2 error _ => exact ⟨[error], rfl⟩
  all_goals exact ⟨[], (List.append_nil _).symm⟩

/-- A run that reports a static error stops where it is seen. -/
theorem IsNumbered.run_of_rejected {session : Session} (numbered : session.IsNumbered)
    {fuel : Nat} {source : Bytes} {interactive : Bool} {diagnostic : Diagnostic}
    (reported : .rejected diagnostic ∈
      (session.run fuel source interactive).2.reports.drop session.reports.length) :
    session.run fuel source interactive = (.finished false, session.read source) ∨
      session.run fuel source interactive = (.finished false, session.checked source) := by
  rw [run_eq] at reported ⊢
  by_cases raisedRead : (session.read source).hadError = true
  · exact .inl (if_pos raisedRead)
  rw [if_neg raisedRead] at reported ⊢
  by_cases raised : (session.checked source).hadError = true
  · exact .inr (if_pos raised)
  -- Execution starts only without static errors, and then the run reports none.
  rw [if_neg raised] at reported
  have silent := (silent_of_read (eq_false_of_ne_true raisedRead)).1
  have flagged : session.IsFlagged :=
    ⟨numbered.raised, fun raised => absurd (silent.symm.trans raised) (by decide)⟩
  have reports := flagged.reports_checked (eq_false_of_ne_true raised)
  rw [interpret_eq] at reported
  obtain ⟨errors, added⟩ := reports_conclude
    ((session.checked source).note (.interpreting _ interactive)) _
  rw [added] at reported
  change _ ∈ ((session.checked source).reports ++ errors.map Report.failed).drop _ at reported
  rw [reports, List.drop_left] at reported
  simp at reported

/-- A run that reports a static error returns false, changes nothing in the machine,
and records nothing beside the identities that it gave out. -/
theorem IsNumbered.run_rejected {session : Session} (numbered : session.IsNumbered)
    {fuel : Nat} {source : Bytes} {interactive : Bool} {diagnostic : Diagnostic}
    (reported : .rejected diagnostic ∈
      (session.run fuel source interactive).2.reports.drop session.reports.length) :
    (session.run fuel source interactive).1 = .finished false ∧
      (session.run fuel source interactive).2.machine = session.machine ∧
        ∀ id, id < session.nextId ∨ (session.run fuel source interactive).2.nextId ≤ id →
          (session.run fuel source interactive).2.table[id]? = session.table[id]? := by
  rcases numbered.run_of_rejected reported with stopped | stopped
  · rw [stopped]
    exact ⟨rfl, rfl, fun _ _ => rfl⟩
  · rw [stopped]
    refine ⟨rfl, rfl, fun id outside => resolve_getElem?_of_avoids _ fun reference member => ?_⟩
    have range := parse_range _ _ reference member
    rcases outside with below | above
    · exact Nat.ne_of_gt (Nat.lt_of_lt_of_le below range.1)
    · exact Nat.ne_of_lt (Nat.lt_of_lt_of_le range.2 above)

end Session

theorem Stmt.echo?_relabel (labels : Relabelling) (statement : Stmt) :
    (statement.relabel labels).echo? = statement.echo? := by
  cases statement with
  | branch _ _ alternative => cases alternative <;> rfl
  | _ => rfl

theorem Stmt.map_relabelAll {α : Type} (labels : Relabelling) {view : Stmt → α}
    (same : ∀ statement : Stmt, view (statement.relabel labels) = view statement)
    (statements : List Stmt) :
    (Stmt.relabelAll labels statements).map view = statements.map view := by
  induction statements with
  | nil => rfl
  | cons first rest inductionHypothesis =>
      simp only [Stmt.relabelAll, List.map_cons, same, inductionHypothesis]

/-- The answer to a step as it is shown: references with their distances, trees as
they are written. -/
inductive Step.Answer where
  | outcome (outcome : Outcome)
  | count (number : Nat)
  | references (places : List (Reference.Form × Name × Option Nat))
  | tree (text : Bytes) (echoes : List (Option Bool))
  | pending (errors : List Diagnostic)
  | flag (value : Bool)
  | nothing
deriving DecidableEq

def Step.Result.answer : Step.Result → Step.Answer
  | .outcome reached => .outcome reached
  | .count number => .count number
  | .references table statements =>
      .references ((Stmt.referencesAll statements).map fun reference =>
        (reference.form, reference.name, table[reference.id]?))
  | .tree statements => .tree (renderProgram statements) (statements.map Stmt.echo?)
  | .pending errors => .pending errors
  | .flag value => .flag value
  | .nothing => .nothing

/-- What can be seen of a step: its answer, what it printed, reported and noted, and
the error state after it. -/
structure Observation where
  answer : Step.Answer
  output : Bytes
  reports : List Report
  log : List LogEntry
  hadError : Bool
  hadRuntimeError : Bool
  runtimeError : Option RuntimeError
deriving DecidableEq

namespace Bench

/-- The observations of a series of steps, without the sizes of the record. -/
def observe (fuel : Nat) : List Step → Bench → List Observation
  | [], _ => []
  | step :: rest, bench =>
      let (result, after) := bench.drain.step fuel step
      ⟨result.answer, after.session.output, after.session.reports,
        after.session.log.map .withoutSize, after.session.hadError,
        after.session.hadRuntimeError, after.session.runtimeError⟩ :: observe fuel rest after

/-- Another bench with the identities renamed. -/
structure Renumbers (ids : RefId → RefId) (bench other : Bench) : Prop where
  session : Session.Renumbers ids bench.session other.session
  tokens : other.tokens = bench.tokens
  statements : other.statements = Stmt.relabelAll (.renumber ids) bench.statements

namespace Renumbers

variable {ids : RefId → RefId} {bench other : Bench}

theorem answer_references {table otherTable : Resolution} (statements : List Stmt)
    (records : ∀ id, otherTable[ids id]? = table[id]?) :
    (Step.Result.references otherTable (Stmt.relabelAll (.renumber ids) statements)).answer =
      (Step.Result.references table statements).answer := by
  simp only [Step.Result.answer]
  rw [Stmt.referencesAll_relabelAll, List.map_map]
  congr 1
  apply List.map_congr_left
  intro reference _
  exact congrArg (fun record => (reference.form, reference.name, record)) (records reference.id)

theorem answer_tree (statements : List Stmt) :
    (Step.Result.tree (Stmt.relabelAll (.renumber ids) statements)).answer =
      (Step.Result.tree statements).answer := by
  simp only [Step.Result.answer, renderProgram]
  rw [List.flatMap_def, List.flatMap_def, Stmt.map_relabelAll _ (Stmt.echo?_relabel _),
    Stmt.map_relabelAll _ fun statement => by rw [statement.render_relabel]]

/-- A step answers the same, and leaves benches that differ in their identities
only. -/
theorem step (same : Renumbers ids bench other) (fuel : Nat) (step : Step) :
    (other.step fuel step).1.answer = (bench.step fuel step).1.answer ∧
      Renumbers ids (bench.step fuel step).2 (other.step fuel step).2 := by
  obtain ⟨session, tokens, statements⟩ := same
  cases step with
  | run source interactive =>
      obtain ⟨outcome, after⟩ := session.run fuel source interactive
      exact ⟨congrArg Step.Answer.outcome outcome, after, tokens, statements⟩
  | scan source => exact ⟨rfl, session.scan source, rfl, statements⟩
  | parse =>
      obtain ⟨after, trees⟩ := session.parse bench.tokens
      simp only [Bench.step, tokens, trees, Step.Result.answer, Stmt.length_relabelAll]
      exact ⟨trivial, after, rfl, rfl⟩
  | resolve =>
      have after := session.resolve bench.statements
      simp only [Bench.step, statements]
      exact ⟨answer_references bench.statements after.table, after, tokens, rfl⟩
  | interpret interactive =>
      obtain ⟨outcome, after⟩ := session.interpret bench.statements fuel interactive
      simp only [Bench.step, statements]
      exact ⟨congrArg Step.Answer.outcome outcome, after, tokens, rfl⟩
  | tree =>
      simp only [Bench.step, statements]
      exact ⟨answer_tree bench.statements, session, tokens, statements⟩
  | pending => exact ⟨congrArg Step.Answer.pending session.pending, session, tokens, statements⟩
  | printErrors =>
      exact ⟨congrArg Step.Answer.flag session.hadError, session.printErrors, tokens, statements⟩
  | clear => exact ⟨rfl, session.clear, tokens, statements⟩

/-- The same steps are observed alike. -/
theorem observe (fuel : Nat) : ∀ (steps : List Step) {bench other : Bench},
    Renumbers ids bench.drain other.drain → other.observe fuel steps = bench.observe fuel steps
  | [], _, _, _ => rfl
  | step :: rest, bench, other, same => by
      obtain ⟨answer, after⟩ := same.step fuel step
      have later := observe fuel rest
        ⟨after.session.drain, after.tokens, after.statements⟩
      have output : (other.drain.step fuel step).2.session.output =
          (bench.drain.step fuel step).2.session.output := by
        unfold Session.output
        rw [after.session.machine.printed]
      simp only [Bench.observe, answer, output, later, after.session.reports, after.session.log,
        after.session.hadError, after.session.hadRuntimeError, after.session.runtimeError]

end Renumbers

end Bench

/-- A statically wrong source leaves no trace.  Whatever was done before, a run that
reports a lexical, syntax or resolver error returns false and leaves the machine as it
is: what was printed, the input, all frames with the globals, all instances and the
call depth.  Every series of steps after the run and a clearing of the errors is
observed as after the clearing alone. -/
theorem rejected_run_leaves_no_trace {bench : Bench} (reachable : bench.Reachable) {fuel : Nat}
    {source : Bytes} {interactive : Bool} {diagnostic : Diagnostic}
    (reported : .rejected diagnostic ∈
      (bench.session.run fuel source interactive).2.reports.drop bench.session.reports.length) :
    (bench.session.run fuel source interactive).1 = .finished false ∧
      (bench.session.run fuel source interactive).2.machine = bench.session.machine ∧
        ∀ (bound : Nat) (steps : List Step),
          ((bench.step fuel (.run source interactive)).2.step fuel .clear).2.observe bound steps =
            (bench.step fuel .clear).2.observe bound steps := by
  have numbered := reachable.isNumbered
  obtain ⟨outcome, machine, kept⟩ := numbered.session.run_rejected reported
  refine ⟨outcome, machine, fun bound steps => ?_⟩
  have later := bench.session.nextId_le_run fuel source interactive
  apply Bench.Renumbers.observe bound steps
  refine ⟨numbered.session.renumbers later machine kept, rfl, ?_⟩
  exact (Stmt.relabelAll_eq_self bench.statements fun reference member =>
    Session.pastIds_of_lt (numbered.statements reference member)).symm

/-- A source whose references are recorded before its redeclaration is seen, between
two sources that share a function. -/
theorem rejected_run_leaves_no_trace_redeclared :
    let bench := ((Bench.initial [] fun _ => 0).step 60
      (.run (Bytes.ofString "fun f(){{var a=nil;print a;}}") false)).2
    let source := Bytes.ofString "{var a;{print a;}var a;}"
    let steps := [Step.run (Bytes.ofString "f();print b;") true, .pending, .tree]
    bench.Reachable ∧ (bench.session.run 60 source false).1 = .finished false ∧
      ((bench.step 60 (.run source false)).2.step 60 .clear).2.observe 60 steps =
        (bench.step 60 .clear).2.observe 60 steps := by
  intro bench source steps
  have reachable : bench.Reachable := .step (.initial [] fun _ => 0) 60 _
  have reported : Report.rejected ⟨.alreadyDeclared, 1, .atLexeme (Bytes.ofString "a")⟩ ∈
      (bench.session.run 60 source false).2.reports.drop bench.session.reports.length := by
    decide +kernel
  obtain ⟨outcome, -, same⟩ := rejected_run_leaves_no_trace reachable reported
  exact ⟨reachable, outcome, same 60 steps⟩

end LoxLang
