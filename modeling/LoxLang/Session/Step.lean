import LoxLang.Session.Basic

/-!
Driving a session stage by stage.  Tokens and statements are kept between
steps, so a stage can be repeated, left out, or run on erroneous input.
-/

namespace LoxLang

/-- A session with the tokens and statements of its last stages. -/
structure Bench where
  session : Session
  tokens : List Token
  statements : List Stmt

inductive Step where
  | run (source : Bytes) (interactive : Bool)
  | scan (source : Bytes)
  | parse
  | resolve
  | interpret (interactive : Bool)
  | tree
  | pending
  | printErrors
  | clear
deriving DecidableEq, Repr

inductive Step.Result where
  | outcome (outcome : Outcome)
  | count (number : Nat)
  /-- Statements whose references are to be listed with the record. -/
  | references (table : Resolution) (statements : List Stmt)
  | tree (statements : List Stmt)
  | pending (errors : List Diagnostic)
  | flag (value : Bool)
  | nothing

namespace Bench

def initial (input : Bytes) (clock : Nat → Float) : Bench :=
  ⟨.initial input clock, [], []⟩

def step (bench : Bench) (fuel : Nat) : Step → Step.Result × Bench
  | .run source interactive =>
      let (outcome, session) := bench.session.run fuel source interactive
      (.outcome outcome, { bench with session := session })
  | .scan source =>
      let (tokens, session) := bench.session.scan source
      (.count tokens.length, { bench with session := session, tokens := tokens })
  | .parse =>
      let (statements, session) := bench.session.parse bench.tokens
      (.count statements.length, { bench with session := session, statements := statements })
  | .resolve =>
      let session := bench.session.resolve bench.statements
      (.references session.table bench.statements, { bench with session := session })
  | .interpret interactive =>
      let (outcome, session) := bench.session.interpret fuel bench.statements interactive
      (.outcome outcome, { bench with session := session })
  | .tree => (.tree bench.statements, bench)
  | .pending => (.pending bench.session.pending, bench)
  | .printErrors =>
      let (rejected, session) := bench.session.printErrors
      (.flag rejected, { bench with session := session })
  | .clear => (.nothing, { bench with session := bench.session.clear })

/-- Drop what was printed, reported and noted so far. -/
def drain (bench : Bench) : Bench :=
  { bench with session := bench.session.drain }

end Bench

end LoxLang
