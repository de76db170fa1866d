import LoxLang.Eval.Basic
import LoxLang.Program.Parser
import LoxLang.Token.Scan

/-!
Sessions.  Source goes through scanning, parsing, resolution and execution on
one machine, so later sources see what earlier ones declared.  Static errors
wait until they are printed, and an error flag stays set until it is cleared.
-/

namespace LoxLang

/-- What a session writes to its error channel. -/
inductive Report where
  | rejected (diagnostic : Diagnostic)
  | failed (error : RuntimeError)
deriving DecidableEq

/-- What a session notes about its work. -/
inductive LogEntry where
  | scanned (tokens : Nat)
  | parsed (statements : Nat)
  | resolved (locals : Nat)
  | interpreting (statements : Nat) (interactive : Bool)
  | rejected (diagnostic : Diagnostic)
  | failed (error : RuntimeError)
deriving DecidableEq

namespace LogEntry

inductive Detail where
  | number (value : Nat)
  | flag (value : Bool)
  | text (value : Bytes)
deriving DecidableEq, Repr

def message : LogEntry → Bytes
  | .scanned _ => Bytes.ofString "scanned source"
  | .parsed _ => Bytes.ofString "parsed tokens"
  | .resolved _ => Bytes.ofString "resolved statements"
  | .interpreting _ _ => Bytes.ofString "interpreting"
  | .rejected diagnostic => Bytes.ofString diagnostic.cause.message
  | .failed error => error.fault.message

def details : LogEntry → List (String × Detail)
  | .scanned tokens => [("tokens", .number tokens)]
  | .parsed statements => [("statements", .number statements)]
  | .resolved locals => [("locals", .number locals)]
  | .interpreting statements interactive =>
      [("statements", .number statements), ("interactive", .flag interactive)]
  | .rejected diagnostic =>
      [("line", .number diagnostic.line), ("where", .text diagnostic.place.text)]
  | .failed error => [("line", .number error.token.line), ("lexeme", .text error.token.lexeme)]

end LogEntry

/-- What a session does on its error channel. -/
inductive Notice where
  | printed (report : Report)
  | noted (entry : LogEntry)
deriving DecidableEq

structure Session where
  machine : Machine
  /-- The record of every resolution so far. -/
  table : Resolution
  nextId : RefId
  /-- Static errors that were not printed yet. -/
  pending : List Diagnostic
  hadError : Bool
  hadRuntimeError : Bool
  runtimeError : Option RuntimeError
  reports : List Report
  log : List LogEntry

/-- How an execution ends for its session. -/
inductive Outcome where
  /-- It ran to its end, or stopped on an error that was reported. -/
  | finished (succeeded : Bool)
  | desync (cause : Desync)
  | outOfFuel
deriving DecidableEq, Repr

namespace Session

def initial (input : Bytes) (clock : Nat → Float) : Session where
  machine := .initial (.ofBytes input) clock
  table := {}
  nextId := 0
  pending := []
  hadError := false
  hadRuntimeError := false
  runtimeError := none
  reports := []
  log := []

def note (session : Session) (entry : LogEntry) : Session :=
  { session with log := session.log ++ [entry] }

/-- Take in static errors in the order of their report. -/
def reject (session : Session) (errors : List Diagnostic) : Session :=
  { session with
    pending := session.pending ++ errors
    hadError := session.hadError || !errors.isEmpty
    log := session.log ++ errors.map .rejected }

def scan (session : Session) (source : Bytes) : List Token × Session :=
  let scanned := LoxLang.scan source
  (scanned.tokens, (session.reject scanned.errors).note (.scanned scanned.tokens.length))

/-- Turn tokens into statements.  Statements with a syntax error are left
out. -/
def parse (session : Session) (tokens : List Token) : List Stmt × Session :=
  let parsed := LoxLang.parse tokens session.nextId
  let session := { session with nextId := parsed.nextId }
  (parsed.statements,
    (session.reject parsed.errors).note (.parsed parsed.statements.length))

/-- Record the scope distances of statements. -/
def resolve (session : Session) (statements : List Stmt) : Session :=
  let (table, errors) := LoxLang.resolve statements session.table
  ({ session with table := table }.reject errors).note (.resolved table.size)

/-- Report a runtime error.  The global frame is active again after it. -/
def fail (session : Session) (error : RuntimeError) : Session :=
  { session with
    machine := { session.machine with active := Heap.globals }
    hadRuntimeError := true
    runtimeError := some error
    reports := session.reports ++ [.failed error]
    log := session.log ++ [.failed error] }

def interpret (session : Session) (fuel : Nat) (statements : List Stmt) (interactive : Bool) :
    Outcome × Session :=
  let session := session.note (.interpreting statements.length interactive)
  match Eval.interpret ⟨session.table, .recorded⟩ fuel interactive statements session.machine with
  | .ok () machine => (.finished true, { session with machine := machine })
  | .error (.fault error) machine =>
      (.finished false, { session with machine := machine }.fail error)
  | .error (.desync cause) machine => (.desync cause, { session with machine := machine })
  | .error .outOfFuel machine => (.outOfFuel, { session with machine := machine })

/-- Print the static errors that wait.  The answer tells whether any static
error was reported since the last clearing, printed now or before. -/
def printErrors (session : Session) : Bool × Session :=
  (session.hadError,
    { session with
      pending := []
      reports := session.reports ++ session.pending.map .rejected })

def clear (session : Session) : Session :=
  { session with
    pending := []
    hadError := false
    hadRuntimeError := false
    runtimeError := none }

/-- Take source through every stage.  A static error stops it before
execution. -/
def run (session : Session) (fuel : Nat) (source : Bytes) (interactive : Bool) :
    Outcome × Session :=
  let (tokens, session) := session.scan source
  let (statements, session) := session.parse tokens
  let (rejected, session) := session.printErrors
  if rejected then
    (.finished false, session)
  else
    let session := session.resolve statements
    let (rejected, session) := session.printErrors
    if rejected then
      (.finished false, session)
    else
      session.interpret fuel statements interactive

/-- What parsing source yields. -/
def parsed (session : Session) (source : Bytes) : Parser.Parsed :=
  LoxLang.parse (LoxLang.scan source).tokens session.nextId

/-- A session after the syntax errors of source were printed. -/
def read (session : Session) (source : Bytes) : Session :=
  ((session.scan source).2.parse (LoxLang.scan source).tokens).2.printErrors.2

/-- A session after all static errors of source were printed. -/
def checked (session : Session) (source : Bytes) : Session :=
  ((session.read source).resolve (session.parsed source).statements).printErrors.2

/-- A session after the static stages of a run. -/
def screened (session : Session) (source : Bytes) : Session :=
  if (session.read source).hadError then session.read source else session.checked source

/-- What a session did on its error channel since an earlier state, within one stage: the
log takes its entries before anything is printed. -/
def since (session earlier : Session) : List Notice :=
  (session.log.drop earlier.log.length).map .noted ++
    (session.reports.drop earlier.reports.length).map .printed

/-- What a run does on the error channel, stage by stage, if it leaves a session in a
state. -/
def notices (session : Session) (source : Bytes) (ended : Session) : List Notice :=
  (session.read source).since session ++
    ((session.screened source).since (session.read source) ++
      ended.since (session.screened source))

/-- The lines printed so far, each with the mark that ends it. -/
def output (session : Session) : Bytes :=
  session.machine.printed.toList.flatMap fun line => line ++ [Bytes.lineFeed]

/-- Drop what was printed, reported and noted so far. -/
def drain (session : Session) : Session :=
  { session with
    machine := { session.machine with printed := #[] }
    reports := []
    log := [] }

/-- More steps than an execution can take in any reasonable time. -/
def ampleFuel : Nat := Nat.pow 2 62

end Session

namespace Report

/-- The written form of a report.  A static error is painted within its line,
a runtime error as a whole. -/
def write (paint : Bytes → Bytes) : Report → Bytes
  | .rejected diagnostic => paint diagnostic.text ++ [Bytes.lineFeed]
  | .failed error => paint error.text

/-- A text in red, as terminals show it. -/
def red (text : Bytes) : Bytes :=
  Bytes.ofString "\x1b[31m" ++ text ++ Bytes.ofString "\x1b[0m"

/-- The written form of a report, in red on demand. -/
def render (colour : Bool) : Report → Bytes :=
  write fun text => if colour then red text else text

end Report

/-- What a session wrote to its error channel. -/
def Session.errorOutput (session : Session) (colour : Bool) : Bytes :=
  session.reports.flatMap (Report.render colour)

end LoxLang
