import LoxLang.Proofs.Eval.ForLoop
import LoxLang.Proofs.Eval.Recorded
import LoxLang.Proofs.Session.History

/-!
`for` statements in the history of a session.  All code that a session carries out is
recorded where it stands in its program.  So a `for` statement can be recorded as it is
written, and the tree that it is read as does what the statement does.
-/

namespace LoxLang

open Scope

/-- References stay recorded when more code joins. -/
theorem Code.Records.extends {code earlier : Code} {sites : List Site}
    (larger : code.Extends earlier) (records : earlier.Records sites) : code.Records sites where
  distinct := records.distinct
  below site member := Nat.lt_of_lt_of_le (records.below site member) larger.limit
  recorded site member := by
    rw [larger.table _ (records.below site member)]
    exact records.recorded site member

theorem Heap.IsRecorded.extends {code earlier : Code} {heap : Heap}
    (larger : code.Extends earlier) (recorded : heap.IsRecorded earlier) :
    heap.IsRecorded code := by
  intro id present
  obtain ⟨around, records⟩ := recorded id present
  exact ⟨around, records.extends larger⟩

/-- A statement of the top level stands among the statements of its program. -/
theorem Stmt.sites_sublist {statements : List Stmt} {statement : Stmt}
    (listed : statement ∈ statements) :
    (statement.sites []).Sublist (Stmt.sitesAll [] statements) := by
  induction statements with
  | nil => cases listed
  | cons first rest inductionHypothesis =>
      rcases List.mem_cons.mp listed with rfl | inRest
      · exact List.sublist_append_left _ _
      · exact (inductionHypothesis inRest).trans (List.sublist_append_right _ _)

theorem Stmt.sites_topLevelTask (statement : Stmt) (interactive : Bool) (around : List Region) :
    (statement.topLevelTask interactive).sites around = statement.sites around := by
  cases statement with
  | expression value echo =>
      simp only [topLevelTask]
      split <;> rfl
  | _ => rfl

namespace Session

variable {session : Session}

/-- What a session executes was recorded. -/
theorem IsReady.records (ready : session.IsReady) {source : Bytes}
    (silent : (session.checked source).hadError = false) :
    (session.checked source).code.Records
      (Stmt.sitesAll [] (session.parsed source).statements) := by
  have parsed := (silent_of_read (silent_of_checked silent).1).2.2
  obtain ⟨program, range⟩ := isProgram_of_parse (named_scan source) parsed
  have accepts := ready.acceptsAll silent
  refine ⟨?_, fun site member => (accepts.sites site member).below, fun site member => ?_⟩
  · have same := congrArg (List.map Reference.id)
      (Stmt.map_reference_sitesAll [] (session.parsed source).statements)
    rw [List.map_map] at same
    exact same ▸ program.distinct
  · exact program.recorded (fun reference member => ready.fresh _ (range reference member).1)
      member

theorem code_conclude (session : Session) (result : EStateM.Result Stop Machine Unit) :
    (session.conclude result).2.code = session.code := by
  cases result with
  | ok value machine => rfl
  | error stop machine => cases stop <;> rfl

theorem extends_read (session : Session) (source : Bytes) :
    (session.read source).code.Extends session.code :=
  ⟨Parser.nextId_le_parse (LoxLang.scan source).tokens session.nextId, fun _ _ => rfl, id⟩

theorem extends_checked {source : Bytes} (silent : (session.parsed source).errors = []) :
    (session.checked source).code.Extends session.code :=
  Code.extends_resolve (named_scan source) silent False

/-- At the moments of a request all code is recorded. -/
theorem IsReady.isRecorded_moments (ready : session.IsReady)
    (held : session.machine.heap.IsRecorded session.code) (request : Request) :
    (session.perform request).machine.heap.IsRecorded (session.perform request).code ∧
      ∀ moment ∈ session.moments request,
        ∃ code, moment.IsKept (Heap.IsRecorded code) (Activity.IsRecorded code) := by
  cases request with
  | clear => exact ⟨held, fun _ member => absurd member List.not_mem_nil⟩
  | run fuel source interactive =>
      simp only [Session.moments, Session.perform, run_eq]
      cases raised : (session.checked source).hadError with
      | true =>
          simp only [if_true]
          refine ⟨?_, fun _ member => absurd member List.not_mem_nil⟩
          cases raisedRead : (session.read source).hadError with
          | true => exact held.extends (session.extends_read source)
          | false => exact held.extends (extends_checked (silent_of_read raisedRead).2.2)
      | false =>
          obtain ⟨silentRead, -⟩ := silent_of_checked raised
          have silentParsed := (silent_of_read silentRead).2.2
          obtain ⟨layout, conforms⟩ := (ready.checked silentParsed).conforms
          have records := ready.records raised
          obtain ⟨-, heldAfter, kept⟩ := (keeps_isRecorded _).interpretMoments fuel interactive
            conforms ready.active (ready.acceptsAll raised)
            (fun statement member _ _ _ => ⟨rfl, [], by
              rw [Stmt.sites_topLevelTask]
              exact records.sublist (Stmt.sites_sublist member)⟩)
            (held.extends (extends_checked silentParsed))
          simp only [silentRead, Bool.false_eq_true, if_false]
          rw [interpret_eq, heap_conclude, code_conclude]
          exact ⟨heldAfter, fun moment member => ⟨_, kept moment member⟩⟩

/-- At the moments of a series of requests all code is recorded. -/
theorem IsReady.isRecorded_history (ready : session.IsReady) (flagged : session.IsFlagged)
    (held : session.machine.heap.IsRecorded session.code) (requests : List Request) :
    ∀ moment ∈ session.history requests,
      ∃ code, moment.IsKept (Heap.IsRecorded code) (Activity.IsRecorded code) := by
  induction requests generalizing session with
  | nil => exact fun _ member => absurd member List.not_mem_nil
  | cons request rest inductionHypothesis =>
      obtain ⟨heldAfter, kept⟩ := ready.isRecorded_moments held request
      obtain ⟨readyAfter, flaggedAfter⟩ := ready.perform flagged request
      intro moment member
      rcases List.mem_append.mp member with inFirst | inRest
      · exact kept moment inFirst
      · exact inductionHypothesis readyAfter flaggedAfter heldAfter moment inRest

end Session

/-- A `for` statement is read as a tree without `for` that its clauses and its body, as they
stand between its marks, make up.  In every session this tree does what the statement does as
it is written, whichever of its clauses are there.  Wherever the
tree is carried out, the statement can be recorded as it is written, beside all functions
that there are and whatever runs afterwards.  It then ends in the same way as the tree, with
the same value or the same runtime error, and leaves the same output, input, variables and
fields.  What runs afterwards, in any frame and given the value that was returned, cannot
tell the difference.  No session shows a value for the tree. -/
theorem for_runs_as_written (input : Bytes) (clock : Nat → Float) (requests : List Request) :
    let session := Session.initial input clock
    (∀ nearest dangling word inside id after tree, Grammar.Named (word :: inside) →
      word.kind = .forWord →
        Grammar.Statement nearest dangling ⟨word :: inside, id⟩ tree after →
          ∃ loop : ForLoop,
            Grammar.ForStatement nearest dangling ⟨word :: inside, id⟩ loop after ∧
              tree = loop.lowered) ∧
    ∀ moment ∈ session.history requests, ∀ loop : ForLoop,
      moment.activity.task = .execute loop.lowered →
        let access := moment.activity.access
        let machine := moment.activity.machine
        (∀ fuel interactive, Eval.executeTopLevel access fuel interactive loop.lowered =
          (do let _ ← Eval.execute access fuel loop.lowered)) ∧
        (∀ rest, ∃ around ids other, loop.IsCopied around access.table ids other ∧
          AgreeOn access.table other (machine.heap.references ++ Stmt.referencesAll rest)) ∧
        ∀ rest around ids other, loop.IsCopied around access.table ids other →
          AgreeOn access.table other (machine.heap.references ++ Stmt.referencesAll rest) →
            ∀ fuel bound, fuel ≤ bound →
              let tree := Eval.execute access fuel loop.lowered
              let written := (loop.renumber ids).run ⟨other, .recorded⟩ bound
              Eval.EndsAlike machine.heap (tree machine) (written machine) ∧
              ∀ frame < machine.heap.frames.size, ∀ name later laterBound, later ≤ laterBound →
                Eval.EndsAlike machine.heap
                  (Eval.followedBy tree frame name (Eval.executeAll access later rest) machine)
                  (Eval.followedBy written frame name
                    (Eval.executeAll ⟨other, .recorded⟩ laterBound rest) machine) := by
  intro session
  refine ⟨fun _ _ _ _ _ _ _ named isFor derived => derived.exists_forLoop named isFor, ?_⟩
  intro moment member loop task access machine
  obtain ⟨ready, flagged⟩ := (Session.Reachable.initial input clock).isReady
  have held : session.machine.heap.IsRecorded session.code :=
    fun id present => absurd present (Nat.not_lt_zero id)
  obtain ⟨code, ⟨current, sound⟩, ⟨recorded, around, records⟩, -, -⟩ :=
    ready.isRecorded_history flagged held requests moment member
  have same : access = ⟨code.table, .recorded⟩ := recorded
  obtain ⟨-, layout, conforms, executes⟩ := sound
  rw [task] at records executes
  obtain ⟨scopes, fits, -⟩ := executes
  have within : machine.active < machine.heap.frames.size := fits.lt_size conforms
  rw [same]
  refine ⟨fun fuel interactive => ?_, fun rest => ?_, ?_⟩
  · exact loop.executeTopLevel_lowered _ fuel interactive
  · exact ⟨around, ForLoop.exists_isCopied records.distinct records.recorded _⟩
  · intro rest around ids other copied agree fuel bound room
    exact ForLoop.endsAlike conforms within copied agree room

/-- A statement with all clauses, whose body gives out a function that sees the variable of
the loop.  Called afterwards, the function prints what the increment left there. -/
theorem for_runs_as_written_captured :
    let session := Session.initial [] fun _ => 0
    let requests : List Request :=
      [.run 30 (Bytes.ofString "var f;for(var i=nil;!i;i=f){fun g(){print i;}f=g;}f();") false]
    let name (text : String) : Name := ⟨Bytes.ofString text, 1⟩
    let loop : ForLoop :=
      { initial := some (.declare (name "i") (some (.literal .nil)))
        condition := some (.unary .not 1 (.read 0 (name "i")))
        increment := some (.assign 1 (name "i") (.read 2 (name "f")))
        body := .block [.function (.mk (name "g") [] [.print (.read 3 (name "i"))]),
          .expression (.assign 4 (name "f") (.read 5 (name "g"))) false]
        quiet := rfl }
    let rest : List Stmt := [.expression (.call (.read 6 (name "f")) [] 1) false]
    ∃ moment ∈ session.history requests, moment.activity.task = .execute loop.lowered ∧
      ∃ ids other after,
        Eval.followedBy (Eval.execute moment.activity.access 20 loop.lowered) Heap.globals []
            (Eval.executeAll moment.activity.access 20 rest) moment.activity.machine =
              .ok .normal after ∧
          after.printed = #[Bytes.ofString "<fn g>"] ∧
            Eval.EndsAlike moment.activity.machine.heap (.ok .normal after)
              (Eval.followedBy ((loop.renumber ids).run ⟨other, .recorded⟩ 20) Heap.globals []
                (Eval.executeAll ⟨other, .recorded⟩ 20 rest) moment.activity.machine) := by
  intro session requests name loop rest
  have computed : ((session.history requests)[2]?).map (fun moment : Moment =>
      (moment.activity.task, moment.activity.machine.heap.frames.size,
        match Eval.followedBy (Eval.execute moment.activity.access 20 loop.lowered) Heap.globals []
            (Eval.executeAll moment.activity.access 20 rest) moment.activity.machine with
        | .ok .normal after => some after.printed
        | _ => none)) = some (.execute loop.lowered, 1, some #[Bytes.ofString "<fn g>"]) := by
    unfold session requests rest loop name
    cbv
  obtain ⟨moment, found, same⟩ := Option.map_eq_some_iff.mp computed
  simp only [Prod.mk.injEq] at same
  obtain ⟨task, size, completes⟩ := same
  have member := List.mem_of_getElem? found
  obtain ⟨-, runs⟩ := for_runs_as_written [] (fun _ => 0) requests
  obtain ⟨-, recorded, alike⟩ := runs moment member loop task
  obtain ⟨around, ids, other, copied, agree⟩ := recorded rest
  have ends := (alike rest around ids other copied agree 20 20 (Nat.le_refl 20)).2
    Heap.globals (by rw [size]; decide) [] 20 20 (Nat.le_refl 20)
  refine ⟨moment, member, task, ids, other, ?_⟩
  split at completes
  · next after completed =>
      rw [completed] at ends
      exact ⟨after, completed, Option.some.inj completes, ends⟩
  · cases completes

end LoxLang
