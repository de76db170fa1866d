import LoxLang.Proofs.Eval.Machines
import LoxLang.Proofs.Program.Renumber
import LoxLang.Proofs.Scope.Records
import LoxLang.Proofs.Session.Safety
import LoxLang.Session.Step

/-!
Sessions driven stage by stage.  Whatever stages were repeated, left out or run on
erroneous input, the code that a session can reach has identities that were given
out, no identity beyond them has a record, and static errors that wait have raised
the error flag.
-/

namespace LoxLang

/-- A new heap corresponds to itself. -/
theorem Twins.Correspond.initial (like : Likeness) :
    Twins.Correspond like ⟨fun _ => .same, .initial, .initial⟩ where
  frames := ⟨rfl, fun _ => rfl, fun _ _ => rfl⟩
  ordered := Heap.isGrounded_initial.ordered
  rooted := by decide
  global := rfl
  closures := rfl
  classes := rfl
  objects := rfl
  bound frame name value found := by
    obtain ⟨-, -, function, rfl⟩ := Heap.native_of_binding?_initial found
    exact isValid_of_ne (by simp)
  fields place name value found := by
    simp [Heap.object, Heap.initial, Bindings.get?] at found
  methods type name id found := by
    simp [Heap.classOf, Heap.initial, Bindings.get?] at found

theorem Machine.Alike.initial (like : Likeness) (input : Input) (clock : Nat → Float) :
    (Machine.initial input clock).Alike like (.initial input clock) :=
  ⟨fun _ => .same, ⟨.initial like, rfl, Nat.zero_lt_one, rfl, rfl, rfl, rfl, rfl⟩, rfl⟩

/-- Code beside itself, with identities below a bound. -/
def Likeness.own (bound : RefId) : Likeness :=
  .plain Eq fun id other => other = id ∧ id < bound

/-- Code with identities below a bound is its own likeness. -/
theorem Stmt.alikeAll_own {statements : List Stmt} {bound : RefId}
    (below : ∀ reference ∈ Stmt.referencesAll statements, reference.id < bound) :
    Stmt.AlikeAll (.own bound) .same statements statements := by
  have itself : Stmt.relabelAll (.renumber fun id => id) statements = statements :=
    Stmt.relabelAll_eq_self statements fun _ _ => rfl
  have admits : (Likeness.own bound).Admits (.renumber fun id => id)
      (Stmt.tokensAll statements) (Stmt.referencesAll statements) :=
    Likeness.plain_admits (fun _ _ => rfl) fun reference member => ⟨rfl, below reference member⟩
  have alike := Stmt.alikeAll_relabelAll statements admits
  rw [itself] at alike
  exact alike

theorem Machine.Alike.own_mono {machine other : Machine} {bound larger : RefId}
    (alike : machine.Alike (.own bound) other) (le : bound ≤ larger) :
    machine.Alike (.own larger) other :=
  alike.imp fun _ _ => Likeness.plain_carries
    (fun link => ⟨link.1, Nat.lt_of_lt_of_le link.2 le⟩) fun _ _ _ same => same

namespace Session

/-- All code of a session has identities that were given out, no other identity has
a record, and errors that wait have raised the flag. -/
structure IsNumbered (session : Session) : Prop where
  code : session.machine.Alike (.own session.nextId) session.machine
  fresh : IsFresh session.table session.nextId
  raised : session.pending ≠ [] → session.hadError = true

section Fields

variable (session : Session) (source : Bytes)

@[simp]
theorem machine_checked : (session.checked source).machine = session.machine := by
  simp only [checked, printErrors, resolve, note, reject, read, scan, parse]

@[simp]
theorem table_checked : (session.checked source).table =
    (LoxLang.resolve (session.parsed source).statements session.table).1 := rfl

@[simp]
theorem nextId_checked : (session.checked source).nextId = (session.parsed source).nextId := rfl

@[simp]
theorem hadRuntimeError_read : (session.read source).hadRuntimeError = session.hadRuntimeError :=
  rfl

@[simp]
theorem hadRuntimeError_checked :
    (session.checked source).hadRuntimeError = session.hadRuntimeError := by
  simp only [checked, printErrors, resolve, note, reject, read, scan, parse]

@[simp]
theorem runtimeError_read : (session.read source).runtimeError = session.runtimeError := rfl

@[simp]
theorem runtimeError_checked : (session.checked source).runtimeError = session.runtimeError := by
  simp only [checked, printErrors, resolve, note, reject, read, scan, parse]

end Fields

/-- What a session makes of the result of an execution. -/
def conclude (session : Session) : EStateM.Result Stop Machine Unit → Outcome × Session
  | .ok () machine => (.finished true, { session with machine := machine })
  | .error (.fault error) machine =>
      (.finished false, { session with machine := machine }.fail error)
  | .error (.desync cause) machine => (.desync cause, { session with machine := machine })
  | .error .outOfFuel machine => (.outOfFuel, { session with machine := machine })

theorem interpret_eq (session : Session) (fuel : Nat) (statements : List Stmt)
    (interactive : Bool) :
    session.interpret fuel statements interactive =
      (session.note (.interpreting statements.length interactive)).conclude
        (Eval.interpret ⟨session.table, .recorded⟩ fuel interactive statements session.machine) :=
  rfl

@[simp]
theorem nextId_conclude (session : Session) (result : EStateM.Result Stop Machine Unit) :
    (session.conclude result).2.nextId = session.nextId := by
  unfold conclude
  split <;> rfl

@[simp]
theorem nextId_interpret (session : Session) (fuel : Nat) (statements : List Stmt)
    (interactive : Bool) :
    (session.interpret fuel statements interactive).2.nextId = session.nextId := by
  rw [interpret_eq, nextId_conclude]
  rfl

theorem nextId_le_run (session : Session) (fuel : Nat) (source : Bytes) (interactive : Bool) :
    session.nextId ≤ (session.run fuel source interactive).2.nextId := by
  have later := Parser.nextId_le_parse (LoxLang.scan source).tokens session.nextId
  rw [run_eq]
  split
  · exact later
  · split
    · exact later
    · rw [nextId_interpret]
      exact later

namespace IsNumbered

variable {session : Session}

theorem initial (input : Bytes) (clock : Nat → Float) : (Session.initial input clock).IsNumbered :=
  ⟨.initial _ _ _, fun _ _ => Std.HashMap.getElem?_empty, fun waiting => absurd rfl waiting⟩

theorem reject (numbered : session.IsNumbered) (errors : List Diagnostic) :
    (session.reject errors).IsNumbered := by
  refine ⟨numbered.code, numbered.fresh, ?_⟩
  cases errors with
  | nil => simpa [Session.reject] using numbered.raised
  | cons _ _ => exact fun _ => by simp [Session.reject]

theorem note (numbered : session.IsNumbered) (entry : LogEntry) :
    (session.note entry).IsNumbered :=
  ⟨numbered.code, numbered.fresh, numbered.raised⟩

theorem scan (numbered : session.IsNumbered) (source : Bytes) :
    (session.scan source).2.IsNumbered :=
  (numbered.reject _).note _

theorem parse (numbered : session.IsNumbered) (tokens : List Token) :
    (session.parse tokens).2.IsNumbered := by
  have later := Parser.nextId_le_parse tokens session.nextId
  have counted : { session with
      nextId := (LoxLang.parse tokens session.nextId).nextId }.IsNumbered :=
    ⟨numbered.code.own_mono later, fun id bound => numbered.fresh id (Nat.le_trans later bound),
      numbered.raised⟩
  exact (counted.reject _).note _

theorem resolve (numbered : session.IsNumbered) {statements : List Stmt}
    (below : ∀ reference ∈ Stmt.referencesAll statements, reference.id < session.nextId) :
    (session.resolve statements).IsNumbered := by
  have recorded : { session with
      table := (LoxLang.resolve statements session.table).1 }.IsNumbered := by
    refine ⟨numbered.code, fun id bound => ?_, numbered.raised⟩
    rw [resolve_getElem?_of_avoids]
    · exact numbered.fresh id bound
    · exact fun reference member => Nat.ne_of_lt (Nat.lt_of_lt_of_le (below _ member) bound)
  exact (recorded.reject _).note _

theorem printErrors (numbered : session.IsNumbered) : session.printErrors.2.IsNumbered :=
  ⟨numbered.code, numbered.fresh, fun waiting => absurd rfl waiting⟩

theorem clear (numbered : session.IsNumbered) : session.clear.IsNumbered :=
  ⟨numbered.code, numbered.fresh, fun waiting => absurd rfl waiting⟩

theorem drain (numbered : session.IsNumbered) : session.drain.IsNumbered :=
  ⟨numbered.code.drain, numbered.fresh, numbered.raised⟩

theorem fail (numbered : session.IsNumbered) (error : RuntimeError) :
    (session.fail error).IsNumbered :=
  ⟨numbered.code.global, numbered.fresh, numbered.raised⟩

theorem conclude (numbered : session.IsNumbered) {result : EStateM.Result Stop Machine Unit}
    (ends : Machine.EndsAlike (.own session.nextId) result result) :
    (session.conclude result).2.IsNumbered := by
  cases ends with
  | ok alike => exact { numbered with code := alike }
  | @error stop _ machine _ _ alike =>
      have stopped : { session with machine := machine }.IsNumbered :=
        { numbered with code := alike }
      cases stop with
      | fault error => exact stopped.fail error
      | desync cause => exact stopped
      | outOfFuel => exact stopped

theorem interpret (numbered : session.IsNumbered) {statements : List Stmt}
    (below : ∀ reference ∈ Stmt.referencesAll statements, reference.id < session.nextId)
    (fuel : Nat) (interactive : Bool) :
    (session.interpret fuel statements interactive).2.IsNumbered := by
  have agrees : (Likeness.own session.nextId).Agrees session.table session.table :=
    Likeness.plain_agrees fun link => by rw [link.1]
  exact (numbered.note _).conclude
    (numbered.code.interpret agrees (Stmt.alikeAll_own below) fuel interactive)

theorem read (numbered : session.IsNumbered) (source : Bytes) :
    (session.read source).IsNumbered :=
  ((numbered.scan source).parse _).printErrors

theorem parsed_below (session : Session) (source : Bytes) :
    ∀ reference ∈ Stmt.referencesAll (session.parsed source).statements,
      reference.id < (session.parsed source).nextId :=
  fun reference member => (parse_range _ _ reference member).2

theorem checked (numbered : session.IsNumbered) (source : Bytes) :
    (session.checked source).IsNumbered :=
  ((numbered.read source).resolve (parsed_below session source)).printErrors

theorem run (numbered : session.IsNumbered) (fuel : Nat) (source : Bytes) (interactive : Bool) :
    (session.run fuel source interactive).2.IsNumbered := by
  rw [run_eq]
  split
  · exact numbered.read source
  · split
    · exact numbered.checked source
    · exact (numbered.checked source).interpret (parsed_below session source) fuel interactive

end IsNumbered

end Session

namespace Bench

/-- The benches that a series of steps leads to, within any bounds. -/
inductive Reachable : Bench → Prop where
  | initial (input : Bytes) (clock : Nat → Float) : Reachable (.initial input clock)
  | step {bench : Bench} (earlier : Reachable bench) (fuel : Nat) (step : Step) :
      Reachable (bench.step fuel step).2
  | drain {bench : Bench} (earlier : Reachable bench) : Reachable bench.drain

/-- The statements at hand have identities that were given out too. -/
structure IsNumbered (bench : Bench) : Prop where
  session : bench.session.IsNumbered
  statements : ∀ reference ∈ Stmt.referencesAll bench.statements,
    reference.id < bench.session.nextId

theorem IsNumbered.step {bench : Bench} (numbered : bench.IsNumbered) (fuel : Nat) (step : Step) :
    (bench.step fuel step).2.IsNumbered := by
  obtain ⟨session, statements⟩ := numbered
  cases step with
  | run source interactive =>
      refine ⟨session.run fuel source interactive, fun reference member => ?_⟩
      exact Nat.lt_of_lt_of_le (statements reference member)
        (bench.session.nextId_le_run fuel source interactive)
  | scan source => exact ⟨session.scan source, statements⟩
  | parse => exact ⟨session.parse bench.tokens, fun reference member =>
      (parse_range _ _ reference member).2⟩
  | resolve => exact ⟨session.resolve statements, statements⟩
  | interpret interactive =>
      refine ⟨session.interpret statements fuel interactive, ?_⟩
      simp only [Bench.step, Session.nextId_interpret]
      exact statements
  | tree => exact ⟨session, statements⟩
  | pending => exact ⟨session, statements⟩
  | printErrors => exact ⟨session.printErrors, statements⟩
  | clear => exact ⟨session.clear, statements⟩

theorem Reachable.isNumbered {bench : Bench} (reachable : bench.Reachable) :
    bench.IsNumbered := by
  induction reachable with
  | initial input clock =>
      exact ⟨.initial input clock, fun _ member => absurd member List.not_mem_nil⟩
  | step _ fuel step inductionHypothesis => exact inductionHypothesis.step fuel step
  | drain _ inductionHypothesis =>
      exact ⟨inductionHypothesis.session.drain, inductionHypothesis.statements⟩

end Bench

end LoxLang
