import Mathlib
import LoxLang.Proofs.Session.Code
import LoxLang.Session.Basic

/-!
Sessions never meet a desync.  Between executions the heap of a session keeps to
the code that it resolved so far, and a raised error flag stands for a static
error that waits or was printed.  Every run preserves both, so every run ends in
one of the ways that a session reports.

Whole programs are evaluated here and in the modules on sessions that follow, with
equations that only Mathlib as a whole brings along.
-/

namespace LoxLang

namespace Session

/-- The sessions that a series of runs and clearings leads to. -/
inductive Reachable : Session → Prop where
  | initial (input : Bytes) (clock : Nat → Float) : Reachable (.initial input clock)
  | run {session : Session} (earlier : Reachable session) (fuel : Nat) (source : Bytes)
      (interactive : Bool) : Reachable (session.run fuel source interactive).2
  | clear {session : Session} (earlier : Reachable session) : Reachable session.clear

def code (session : Session) : Code :=
  ⟨session.table, session.nextId, False⟩

/-- A session between executions. -/
structure IsReady (session : Session) : Prop where
  conforms : ∃ layout, Conforms session.code layout session.machine.heap
  active : session.machine.active = Heap.globals
  fresh : IsFresh session.table session.nextId

/-- The error flag is raised for static errors that wait, and only for those and
printed ones. -/
structure IsFlagged (session : Session) : Prop where
  raised : session.pending ≠ [] → session.hadError = true
  reported : session.hadError = true →
    ∃ diagnostic, diagnostic ∈ session.pending ∨ .rejected diagnostic ∈ session.reports

namespace IsFlagged

variable {session : Session}

theorem note (flagged : session.IsFlagged) (entry : LogEntry) :
    (session.note entry).IsFlagged :=
  ⟨flagged.raised, flagged.reported⟩

theorem reject (flagged : session.IsFlagged) (errors : List Diagnostic) :
    (session.reject errors).IsFlagged := by
  cases errors with
  | nil =>
      refine ⟨?_, ?_⟩
      · simpa [Session.reject] using flagged.raised
      · simpa [Session.reject] using flagged.reported
  | cons first rest =>
      refine ⟨fun _ => by simp [Session.reject], fun _ => ⟨first, .inl ?_⟩⟩
      simp [Session.reject]

theorem printErrors (flagged : session.IsFlagged) : session.printErrors.2.IsFlagged := by
  refine ⟨fun waiting => absurd rfl waiting, fun raised => ?_⟩
  obtain ⟨diagnostic, waits | printed⟩ := flagged.reported raised
  · exact ⟨diagnostic, .inr (List.mem_append_right _ (List.mem_map_of_mem waits))⟩
  · exact ⟨diagnostic, .inr (List.mem_append_left _ printed)⟩

theorem pending_eq_nil (flagged : session.IsFlagged) (silent : session.hadError = false) :
    session.pending = [] := by
  by_contra waiting
  rw [flagged.raised waiting] at silent
  cases silent

/-- When nothing waits, a raised flag stands for a printed error. -/
theorem rejected (flagged : session.IsFlagged) (printed : session.pending = [])
    (raised : session.hadError = true) :
    ∃ diagnostic, Report.rejected diagnostic ∈ session.reports := by
  obtain ⟨diagnostic, waits | reported⟩ := flagged.reported raised
  · rw [printed] at waits
    exact absurd waits List.not_mem_nil
  · exact ⟨diagnostic, reported⟩

end IsFlagged

theorem hadError_reject_eq_false {session : Session} {errors : List Diagnostic} :
    (session.reject errors).hadError = false ↔ session.hadError = false ∧ errors = [] := by
  cases errors <;> simp [reject]

theorem run_eq (session : Session) (fuel : Nat) (source : Bytes) (interactive : Bool) :
    session.run fuel source interactive =
      if (session.read source).hadError then (.finished false, session.read source)
      else if (session.checked source).hadError then (.finished false, session.checked source)
      else (session.checked source).interpret fuel (session.parsed source).statements
        interactive :=
  rfl

theorem silent_of_read {session : Session} {source : Bytes}
    (silent : (session.read source).hadError = false) :
    session.hadError = false ∧ (LoxLang.scan source).errors = [] ∧
      (session.parsed source).errors = [] := by
  obtain ⟨scanned, parsed⟩ := hadError_reject_eq_false.mp silent
  obtain ⟨earlier, errors⟩ := hadError_reject_eq_false.mp scanned
  exact ⟨earlier, errors, parsed⟩

theorem silent_of_checked {session : Session} {source : Bytes}
    (silent : (session.checked source).hadError = false) :
    (session.read source).hadError = false ∧
      (LoxLang.resolve (session.parsed source).statements session.table).2 = [] :=
  hadError_reject_eq_false.mp silent

namespace IsFlagged

variable {session : Session}

theorem read (flagged : session.IsFlagged) (source : Bytes) :
    (session.read source).IsFlagged := by
  have scanned : (session.scan source).2.IsFlagged := (flagged.reject _).note _
  have numbered : { (session.scan source).2 with
      nextId := (session.parsed source).nextId }.IsFlagged :=
    ⟨scanned.raised, scanned.reported⟩
  exact ((numbered.reject _).note _).printErrors

theorem checked (flagged : session.IsFlagged) (source : Bytes) :
    (session.checked source).IsFlagged := by
  have recorded : { session.read source with
      table := (session.checked source).table }.IsFlagged :=
    ⟨(flagged.read source).raised, (flagged.read source).reported⟩
  exact ((recorded.reject _).note _).printErrors

/-- Without a static error nothing new is reported before execution. -/
theorem reports_checked (flagged : session.IsFlagged) {source : Bytes}
    (silent : (session.checked source).hadError = false) :
    (session.checked source).reports = session.reports := by
  obtain ⟨silentRead, resolved⟩ := silent_of_checked silent
  obtain ⟨earlier, scanned, parsed⟩ := silent_of_read silentRead
  have read : (session.read source).reports = session.reports ++
      (session.pending ++ (LoxLang.scan source).errors ++
        (session.parsed source).errors).map .rejected := rfl
  have checked : (session.checked source).reports = (session.read source).reports ++
      (LoxLang.resolve (session.parsed source).statements session.table).2.map .rejected := rfl
  simp [checked, read, resolved, scanned, parsed, flagged.pending_eq_nil earlier]

end IsFlagged

namespace IsReady

variable {session : Session}

theorem read (ready : session.IsReady) (source : Bytes) : (session.read source).IsReady := by
  have later := Parser.nextId_le_parse (LoxLang.scan source).tokens session.nextId
  obtain ⟨layout, conforms⟩ := ready.conforms
  have larger : (session.read source).code.Extends session.code := ⟨later, fun _ _ => rfl, id⟩
  refine ⟨⟨layout, larger.conforms conforms⟩, ready.active, ?_⟩
  exact fun id bound => ready.fresh id (Nat.le_trans later bound)

theorem checked (ready : session.IsReady) {source : Bytes}
    (silent : (session.parsed source).errors = []) : (session.checked source).IsReady := by
  obtain ⟨layout, conforms⟩ := ready.conforms
  have larger : (session.checked source).code.Extends session.code :=
    Code.extends_resolve (named_scan source) silent False
  exact ⟨⟨layout, larger.conforms conforms⟩, ready.active,
    isFresh_resolve ready.fresh (named_scan source) silent⟩

theorem acceptsAll (ready : session.IsReady) {source : Bytes}
    (silent : (session.checked source).hadError = false) :
    (session.checked source).code.AcceptsAll [] (session.parsed source).statements := by
  obtain ⟨silentRead, permitted⟩ := silent_of_checked silent
  exact Code.acceptsAll_resolve ready.fresh (named_scan source) (silent_of_read silentRead).2.2
    permitted False False.elim

end IsReady

end Session

/-- A run ends in a way that its session reports: it completes without an error,
or it executes nothing because of a static error, or it adds its runtime error to
the reports, or it goes on for longer than it was followed. -/
def Outcome.IsReported (before after : Session) : Outcome → Prop
  | .finished true => after.hadError = false ∧ after.reports = before.reports
  | .finished false =>
      (after.hadError = true ∧ after.machine = before.machine ∧
        ∃ diagnostic, Report.rejected diagnostic ∈ after.reports) ∨
      (after.hadError = false ∧ ∃ error, after.runtimeError = some error ∧
        after.reports = before.reports ++ [.failed error])
  | .desync _ => False
  | .outOfFuel => True

theorem Outcome.IsReported.ofEarlier {earlier before after : Session} {outcome : Outcome}
    (reported : outcome.IsReported before after) (machine : before.machine = earlier.machine)
    (reports : before.reports = earlier.reports) : outcome.IsReported earlier after := by
  unfold IsReported at *
  rw [machine, reports] at reported
  exact reported

namespace Session

variable {session : Session}

/-- Executing accepted statements keeps a session ready, and the outcome is
reported. -/
theorem IsReady.interpret (ready : session.IsReady) (silent : session.hadError = false)
    {statements : List Stmt} (accepts : session.code.AcceptsAll [] statements) (fuel : Nat)
    (interactive : Bool) :
    (session.interpret fuel statements interactive).2.IsReady ∧
      (session.interpret fuel statements interactive).1.IsReported session
        (session.interpret fuel statements interactive).2 := by
  obtain ⟨layout, conforms⟩ := ready.conforms
  have starts : Config.Conforms session.code ⟨layout, session.machine⟩ := conforms
  obtain ⟨-, outcome⟩ := Runs.interpret fuel interactive starts ready.active accepts
  unfold Session.interpret Session.note
  dsimp only [Session.code] at outcome ⊢
  cases result : Eval.interpret ⟨session.table, .recorded⟩ fuel interactive statements
      session.machine with
  | ok value machine =>
      simp only [result] at outcome ⊢
      obtain ⟨later, leads, -⟩ := outcome
      exact ⟨⟨⟨later, leads.conforms⟩, leads.active.trans ready.active, ready.fresh⟩, silent, rfl⟩
  | error stop machine =>
      simp only [result] at outcome ⊢
      obtain ⟨reported, later, leads⟩ := outcome
      have active := leads.active.trans ready.active
      cases stop with
      | fault error =>
          exact ⟨⟨⟨later, leads.conforms⟩, rfl, ready.fresh⟩, .inr ⟨silent, error, rfl, rfl⟩⟩
      | desync cause => exact absurd rfl (reported cause)
      | outOfFuel => exact ⟨⟨⟨later, leads.conforms⟩, active, ready.fresh⟩, trivial⟩

theorem IsFlagged.interpret (flagged : session.IsFlagged) (fuel : Nat) (statements : List Stmt)
    (interactive : Bool) : (session.interpret fuel statements interactive).2.IsFlagged := by
  unfold Session.interpret Session.note
  dsimp only
  split
  · exact ⟨flagged.raised, flagged.reported⟩
  · refine ⟨flagged.raised, fun raised => ?_⟩
    obtain ⟨diagnostic, waits | printed⟩ := flagged.reported raised
    · exact ⟨diagnostic, .inl waits⟩
    · exact ⟨diagnostic, .inr (List.mem_append_left _ printed)⟩
  · exact ⟨flagged.raised, flagged.reported⟩
  · exact ⟨flagged.raised, flagged.reported⟩

/-- One run keeps a session ready and its error flag true to its reports, and its
outcome is reported. -/
theorem IsReady.run (ready : session.IsReady) (flagged : session.IsFlagged) (fuel : Nat)
    (source : Bytes) (interactive : Bool) :
    (session.run fuel source interactive).2.IsReady ∧
      (session.run fuel source interactive).2.IsFlagged ∧
        (session.run fuel source interactive).1.IsReported session
          (session.run fuel source interactive).2 := by
  have flaggedRead := flagged.read source
  have flaggedChecked := flagged.checked source
  rw [run_eq]
  by_cases raisedRead : (session.read source).hadError = true
  · rw [if_pos raisedRead]
    exact ⟨ready.read source, flaggedRead,
      .inl ⟨raisedRead, rfl, flaggedRead.rejected rfl raisedRead⟩⟩
  rw [if_neg raisedRead]
  have silentParsed := (silent_of_read (eq_false_of_ne_true raisedRead)).2.2
  by_cases raised : (session.checked source).hadError = true
  · rw [if_pos raised]
    exact ⟨ready.checked silentParsed, flaggedChecked,
      .inl ⟨raised, rfl, flaggedChecked.rejected rfl raised⟩⟩
  rw [if_neg raised]
  have silent := eq_false_of_ne_true raised
  obtain ⟨readyAfter, reported⟩ := (ready.checked silentParsed).interpret silent
    (ready.acceptsAll silent) fuel interactive
  exact ⟨readyAfter, flaggedChecked.interpret _ _ _,
    reported.ofEarlier rfl (flagged.reports_checked silent)⟩

theorem Reachable.isReady (reachable : session.Reachable) :
    session.IsReady ∧ session.IsFlagged := by
  induction reachable with
  | initial input clock =>
      refine ⟨⟨⟨fun _ => [], .initial _ _⟩, rfl, fun id _ => ?_⟩, ?_⟩
      · exact Std.HashMap.getElem?_empty
      · exact ⟨fun waiting => absurd rfl waiting, fun raised => Bool.noConfusion raised⟩
  | run _ fuel source interactive inductionHypothesis =>
      obtain ⟨ready, flagged, -⟩ :=
        inductionHypothesis.1.run inductionHypothesis.2 fuel source interactive
      exact ⟨ready, flagged⟩
  | clear _ inductionHypothesis =>
      obtain ⟨ready, -⟩ := inductionHypothesis
      refine ⟨⟨ready.conforms, ready.active, ready.fresh⟩, ?_⟩
      exact ⟨fun waiting => absurd rfl waiting, fun raised => Bool.noConfusion raised⟩

end Session

/-- Whatever sources a session ran before and whatever errors were cleared, no
run meets a desync: the chain of frames is never too short for a recorded
distance, a recorded name is always found, `super` is a class and `this` an
instance, and functions are entered with as many arguments as they have
parameters. -/
theorem run_isReported {session : Session} (reachable : session.Reachable) (fuel : Nat)
    (source : Bytes) (interactive : Bool) :
    (session.run fuel source interactive).1.IsReported session
      (session.run fuel source interactive).2 := by
  obtain ⟨ready, flagged⟩ := reachable.isReady
  exact (ready.run flagged fuel source interactive).2.2

/-- A class takes as many arguments as the initializer it inherits, also in a run
after the one that declared it: a call without any is a runtime error. -/
theorem run_isReported_inherited :
    let first := (Session.initial [] fun _ => 0).run 60
      (Bytes.ofString "class A{init(a){this.a=a;}}class B<A{}") false
    let session := first.2.clear
    let second := session.run 60 (Bytes.ofString "B(nil);B();") true
    session.Reachable ∧ first.1 = .finished true ∧ second.1 = .finished false ∧
      ∃ error, second.2.runtimeError = some error ∧
        second.2.reports = session.reports ++ [Report.failed error] := by
  intro first session second
  have reachable : session.Reachable := .clear (.run (.initial [] fun _ => 0) 60 _ false)
  have reported := run_isReported reachable 60 (Bytes.ofString "B(nil);B();") true
  have completed : first.1 = .finished true := by
    unfold first
    cbv
  have outcome : (second.1, second.2.hadError) = (.finished false, false) := by
    unfold second session first
    cbv
  obtain ⟨failed, silent⟩ := Prod.mk.inj outcome
  change second.1.IsReported session second.2 at reported
  rw [failed] at reported
  refine ⟨reachable, completed, failed, ?_⟩
  rcases reported with ⟨raised, -, -⟩ | ⟨-, error⟩
  · rw [silent] at raised
    cases raised
  · exact error

end LoxLang
