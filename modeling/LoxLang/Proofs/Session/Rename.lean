import LoxLang.Proofs.Scope.Rename
import LoxLang.Proofs.Session.Join

/-!
Renamed programs.  A session that executes a program with one local variable renamed
resolves it in the same way, prints the same, fails at the same lines and ends in the
same way.
-/

namespace LoxLang

theorem Likeness.spelled_agrees (table : Resolution) : (spelled table).Agrees table table where
  record link := by rw [link.1]
  held link := link.2.1
  global link := link.2.2

/-- Code that is alike itself keeps the spelling of every scope. -/
theorem Likeness.own_carries_spelled (bound : RefId) (table : Resolution) (tokens : List Token) :
    (own bound).Carries (spelled table) tokens where
  links link := by
    obtain ⟨rfl, ⟨rfl, -⟩, rfl⟩ := link
    exact ⟨rfl, fun _ _ => rfl, fun _ => rfl⟩
  tokens token _ image same := by rw [show token = image from same]; rfl

namespace Session

/-- Resolve statements and execute them.  A static error stops it before execution. -/
def execute (session : Session) (fuel : Nat) (statements : List Stmt) (interactive : Bool) :
    Outcome × Session :=
  let (rejected, session) := (session.resolve statements).printErrors
  if rejected then
    (.finished false, session)
  else
    session.interpret fuel statements interactive

variable {session other : Session}

theorem output_eq (printed : other.machine.printed = session.machine.printed) :
    other.output = session.output := by
  unfold output
  rw [printed]

/-- Sessions make the same of executions that end alike, as far as one can see from
outside: a runtime error is shown with its line only. -/
theorem conclude_spelled {table : Resolution}
    {result otherResult : EStateM.Result Stop Machine Unit}
    (ends : Machine.EndsAlike (.spelled table) result otherResult)
    (reports : other.reports = session.reports)
    (synchronous : ∀ cause, (session.conclude result).1 ≠ .desync cause) :
    (other.conclude otherResult).1 = (session.conclude result).1 ∧
      (other.conclude otherResult).2.output = (session.conclude result).2.output ∧
        ∀ colour, (other.conclude otherResult).2.errorOutput colour =
          (session.conclude result).2.errorOutput colour := by
  have shown (colour : Bool) : other.reports.flatMap (Report.render colour) =
      session.reports.flatMap (Report.render colour) := by rw [reports]
  cases ends with
  | ok alike => exact ⟨rfl, output_eq alike.printed, shown⟩
  | error stops alike =>
      cases stops with
      | @fault cause token image line =>
          have text : RuntimeError.text ⟨cause, image⟩ = RuntimeError.text ⟨cause, token⟩ := by
            unfold RuntimeError.text
            rw [show image.line = token.line from line]
          refine ⟨rfl, output_eq alike.printed, fun colour => ?_⟩
          simp only [conclude, fail, errorOutput, List.flatMap_append, shown colour,
            List.flatMap_singleton]
          rw [Report.render, Report.write, Report.write, text]
      | desync => exact absurd rfl (synchronous _)
      | missing _ => exact absurd rfl (synchronous _)
      | outOfFuel => exact ⟨rfl, output_eq alike.printed, shown⟩

theorem execute_of_silent {statements : List Stmt} (silent : session.hadError = false)
    (resolved : (LoxLang.resolve statements session.table).2 = []) (fuel : Nat)
    (interactive : Bool) :
    session.execute fuel statements interactive =
      ((session.resolve statements).printErrors.2.note
        (.interpreting statements.length interactive)).conclude
        (Eval.interpret ⟨(LoxLang.resolve statements session.table).1, .recorded⟩ fuel interactive
          statements session.machine) := by
  have unraised : (session.resolve statements).hadError = false :=
    hadError_reject_eq_false.mpr ⟨silent, resolved⟩
  unfold execute
  simp only [printErrors, unraised, Bool.false_eq_true, if_false]
  rfl

/-- Without a static error nothing new is reported before execution. -/
theorem reports_resolve {statements : List Stmt} (flagged : session.IsFlagged)
    (silent : session.hadError = false)
    (resolved : (LoxLang.resolve statements session.table).2 = []) :
    (session.resolve statements).printErrors.2.reports = session.reports := by
  have printed : (session.resolve statements).printErrors.2.reports = session.reports ++
      (session.pending ++ (LoxLang.resolve statements session.table).2).map .rejected := rfl
  simp [printed, resolved, flagged.pending_eq_nil silent]

theorem Reachable.run_ne_desync (reachable : session.Reachable) (fuel : Nat) (source : Bytes)
    (interactive : Bool) (cause : Desync) :
    (session.run fuel source interactive).1 ≠ .desync cause := by
  obtain ⟨ready, flagged⟩ := reachable.isReady
  have reported := (ready.run flagged fuel source interactive).2.2
  intro desynced
  rw [desynced] at reported
  exact reported

end Session

/-- A renaming of an accepted program is resolved as the program is, and is alike it. -/
theorem IsAccepted.renamed {source : Bytes} (accepted : IsAccepted source) {table : Resolution}
    {nextId : RefId} (unrecorded : IsFresh table nextId) {change : Renaming} {renamed : List Stmt}
    (recorded : change.table = (resolve (parse (scan source).tokens nextId).statements table).1)
    (renames : Stmt.RenamesAll change (parse (scan source).tokens nextId).statements renamed)
    (identifier : Token.Kind.ofWord change.new = .identifier)
    (fresh : change.IsFreshIn (Stmt.tokensAll (parse (scan source).tokens nextId).statements)) :
    resolve renamed table = (change.table, []) ∧
      Stmt.AlikeAll (.spelled change.table) .same
        (parse (scan source).tokens nextId).statements renamed := by
  have resolved := accepted.errors_resolve unrecorded
  obtain ⟨program, range⟩ :=
    isProgram_of_parse (named_scan source) (accepted.errors_parse nextId)
  have proper : change.IsProper :=
    ⟨renames.ordinary program.statements, isOrdinary_of_ofWord identifier⟩
  refine ⟨?_, renames.alike proper fresh (Stmt.declaresOnceAll_of_silent resolved)⟩
  rw [resolve_renames proper renames fresh program.distinct
    (fun reference member => unrecorded _ (range reference member).1) recorded resolved, recorded]
  exact Prod.ext rfl resolved

open Session

/-- Renaming a local variable does not change what a program does.  Let a session
without a static error be given a program that is accepted, and let one variable of a
block, or one parameter or variable of a function, get a name that is not a keyword and
stands nowhere in the program: at its declaration, and at the reads and assignments
that are recorded to lead to its scope.  Then the program is again resolved without an
error and with the same distances, and executing it ends in the same way, prints the
same and reports the same errors as running the source. -/
theorem execute_renamed_eq_run {session : Session} (reachable : session.Reachable)
    (silent : session.hadError = false) {source : Bytes} (accepted : IsAccepted source)
    {change : Renaming} {renamed : List Stmt}
    (recorded : change.table =
      (resolve (session.parsed source).statements session.table).1)
    (renames : Stmt.RenamesAll change (session.parsed source).statements renamed)
    (identifier : Token.Kind.ofWord change.new = .identifier)
    (fresh : ∀ token ∈ Stmt.tokensAll (session.parsed source).statements,
      token.lexeme ≠ change.new)
    (fuel : Nat) (interactive : Bool) :
    resolve renamed session.table = (change.table, []) ∧
      (session.execute fuel renamed interactive).1 =
          (session.run fuel source interactive).1 ∧
        (session.execute fuel renamed interactive).2.output =
            (session.run fuel source interactive).2.output ∧
          ∀ colour, (session.execute fuel renamed interactive).2.errorOutput colour =
            (session.run fuel source interactive).2.errorOutput colour := by
  have numbered := reachable.isNumbered
  have flagged := reachable.isReady.2
  obtain ⟨same, trees⟩ := accepted.renamed numbered.fresh recorded renames identifier fresh
  have resolved : (resolve renamed session.table).2 = [] := congrArg Prod.snd same
  have machines : session.machine.Alike (.spelled change.table) session.machine :=
    numbered.code.imp fun _ _ => Likeness.own_carries_spelled _ _ _
  have ends := machines.interpret (Likeness.spelled_agrees change.table) trees fuel interactive
  have executed := execute_of_silent silent resolved fuel interactive
  obtain ⟨ran, unraised⟩ := numbered.run_of_accepted silent accepted fuel interactive
  have synchronous := reachable.run_ne_desync fuel source interactive
  rw [interpret_eq, table_checked, machine_checked, ← recorded] at ran
  rw [ran] at synchronous
  refine ⟨same, ?_⟩
  rw [executed, ran, same]
  exact conclude_spelled ends ((reports_resolve flagged silent resolved).trans
    (flagged.reports_checked unraised).symm) synchronous

/-- A parameter that an inner function reads before it declares a variable of the same
name: only the parameter and that read are renamed. -/
theorem execute_renamed_eq_run_shadowed :
    let session := Session.initial [] fun _ => 0
    let source := Bytes.ofString "fun f(a){fun g(){print a;var a;a=true;}g();}f(nil);"
    let renamed := (session.parsed
      (Bytes.ofString "fun f(b){fun g(){print b;var a;a=true;}g();}f(nil);")).statements
    IsAccepted source ∧
      (session.execute 60 renamed false).1 = (session.run 60 source false).1 ∧
        (session.execute 60 renamed false).2.output = (session.run 60 source false).2.output ∧
          (session.run 60 source false).2.output = Bytes.ofString "nil\n" := by
  intro session source renamed
  have accepted : IsAccepted source := ⟨by decide +kernel, by decide +kernel, by decide +kernel⟩
  let inner (name : Bytes) : Function :=
    .mk ⟨[103], 1⟩ [] [.print (.read 0 ⟨name, 1⟩), .declare ⟨[97], 1⟩ none,
      .expression (.assign 1 ⟨[97], 1⟩ (.literal (.bool true))) false]
  let outer (name : Bytes) : Function :=
    .mk ⟨[102], 1⟩ [⟨name, 1⟩]
      [.function (inner name), .expression (.call (.read 2 ⟨[103], 1⟩) [] 1) true]
  let program (name : Bytes) : List Stmt :=
    [.function (outer name), .expression (.call (.read 3 ⟨[102], 1⟩) [.literal .nil] 1) true]
  have parsed : (session.parsed source).statements = program [97] := by
    unfold session source
    cbv
  have image : renamed = program [98] := by
    unfold renamed session
    cbv
  let change : Renaming := ⟨(resolve (program [97]) session.table).1, [97], [98]⟩
  have records : change.table[0]? = some 1 ∧ change.table[1]? = some 0 := by
    unfold change program outer inner session
    refine ⟨?_, ?_⟩ <;> cbv
  have scope : (outer [97]).renameLocal change = outer [98] := by
    unfold outer inner
    simp [Function.renameLocal, Function.rename, Stmt.renameAll, Stmt.rename, Expr.rename,
      Expr.renameAll, Renaming.declaration, Renaming.reference, records, change]
  have renames : Stmt.RenamesAll change (session.parsed source).statements renamed := by
    rw [parsed, image]
    refine .head (.function ?_)
    rw [← scope]
    exact .scope (.inl (by decide))
  have fresh : ∀ token ∈ Stmt.tokensAll (session.parsed source).statements,
      token.lexeme ≠ change.new := by
    rw [parsed]
    decide +kernel
  obtain ⟨-, outcome, output, -⟩ := execute_renamed_eq_run (.initial [] fun _ => 0) rfl accepted
    (by rw [parsed]) renames (by decide) fresh 60 false
  refine ⟨accepted, outcome, output, ?_⟩
  unfold session source
  cbv

end LoxLang
