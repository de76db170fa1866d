import LoxLang.Proofs.Eval.Trace
import LoxLang.Proofs.Session.Bench

/-!
The history of a session.  Requests run sources and clear errors, and the moments of all
their executions follow one another.  The heap of a session takes its course along this
history, and what every step keeps holds at every moment of it.
-/

namespace LoxLang

open Scope

namespace Eval

variable {code : Code} {fuel : Nat} {interactive : Bool}

/-- A statement of the top level begins as a sound task. -/
theorem isSound_topLevelTask {layout : Layout} {machine : Machine} {statement : Stmt}
    (conforms : Conforms code layout machine.heap) (active : machine.active = Heap.globals)
    (accepts : code.AcceptsStmt [] statement) :
    Activity.IsSound code
      ⟨⟨code.table, .recorded⟩, fuel, statement.topLevelTask interactive, machine⟩ := by
  refine ⟨rfl, layout, conforms, ?_⟩
  have fits : Config.Fits ⟨layout, machine⟩ [] := active
  have executed : Task.IsSound code ⟨layout, machine⟩ (.execute statement) := ⟨[], fits, accepts⟩
  cases statement with
  | expression value echo =>
      simp only [Stmt.topLevelTask]
      split
      · exact ⟨[], fits, accepts.sites⟩
      · exact executed
  | _ => exact executed

/-- A statement of the top level that completes leaves the machine ready for the next. -/
theorem conforms_of_executeTopLevel {layout : Layout} {machine after : Machine}
    {statement : Stmt} (conforms : Conforms code layout machine.heap)
    (active : machine.active = Heap.globals) (accepts : code.AcceptsStmt [] statement)
    (result : executeTopLevel ⟨code.table, .recorded⟩ fuel interactive statement machine =
      .ok () after) :
    (∃ layout, Conforms code layout after.heap) ∧ after.active = Heap.globals := by
  have starts : Config.Conforms code ⟨layout, machine⟩ := conforms
  have fits : Config.Fits ⟨layout, machine⟩ [] := active
  have outcome := (Runs.executeTopLevel fuel interactive starts fits accepts).2
  simp only [result] at outcome
  obtain ⟨later, leads, -⟩ := outcome
  exact ⟨⟨later, leads.conforms⟩, leads.active.trans active⟩

end Eval

section Interpret

variable {holds : Heap → Prop} {suits : Activity → Prop} {code : Code}

/-- The moments of statements of the top level span the course of the heap, and at each of
them everything is as it should be. -/
theorem Keeps.interpretMoments (keeps : Keeps holds suits) (fuel : Nat) (interactive : Bool)
    {statements : List Stmt} {layout : Layout} {machine : Machine}
    (conforms : Conforms code layout machine.heap) (active : machine.active = Heap.globals)
    (accepts : code.AcceptsAll [] statements)
    (suitable : ∀ statement ∈ statements, ∀ machine : Machine, machine.active = Heap.globals →
      machine.heap.IsGrounded →
        suits ⟨⟨code.table, .recorded⟩, fuel, statement.topLevelTask interactive, machine⟩)
    (held : holds machine.heap) :
    let moments := Eval.interpretMoments ⟨code.table, .recorded⟩ fuel interactive statements machine
    let final := Eval.lastMachine
      (Eval.interpret ⟨code.table, .recorded⟩ fuel interactive statements machine)
    machine.heap.Spans moments final.heap ∧ holds final.heap ∧
      ∀ moment ∈ moments, moment.IsKept holds suits := by
  induction statements generalizing machine layout with
  | nil => exact ⟨.refl, held, fun _ member => absurd member List.not_mem_nil⟩
  | cons first rest inductionHypothesis =>
      obtain ⟨acceptsFirst, acceptsRest⟩ := accepts.cons
      let activity : Activity :=
        ⟨⟨code.table, .recorded⟩, fuel, first.topLevelTask interactive, machine⟩
      have sound : activity.IsSound code := Eval.isSound_topLevelTask conforms active acceptsFirst
      have spans := sound.spans []
      obtain ⟨heldFinal, kept⟩ := keeps.moments sound
        (suitable first List.mem_cons_self machine active conforms.toIsGrounded) held []
      have ended : (Eval.lastMachine (Eval.executeTopLevel ⟨code.table, .recorded⟩ fuel
          interactive first machine)).heap = activity.final.heap := by
        obtain ⟨printed, final⟩ :=
          @Eval.executeTopLevel_final ⟨code.table, .recorded⟩ fuel interactive machine first
        rw [final]
      simp only [Eval.interpretMoments, Eval.interpret, Bind.bind, EStateM.bind]
      cases result : Eval.executeTopLevel ⟨code.table, .recorded⟩ fuel interactive first
          machine with
      | ok value after =>
          rw [result] at ended
          obtain ⟨⟨later, conformsLater⟩, activeLater⟩ :=
            Eval.conforms_of_executeTopLevel conforms active acceptsFirst result
          obtain ⟨spansRest, heldRest, keptRest⟩ := inductionHypothesis conformsLater activeLater
            acceptsRest (fun statement member => suitable statement (List.mem_cons_of_mem _ member))
            (ended ▸ heldFinal)
          rw [← ended] at spans
          refine ⟨spans.append spansRest, heldRest, fun moment member => ?_⟩
          rcases List.mem_append.mp member with inFirst | inRest
          · exact kept moment inFirst
          · exact keptRest moment inRest
      | error stop after =>
          rw [result] at ended
          simp only [Eval.following, List.append_nil]
          rw [← ended] at spans heldFinal
          exact ⟨spans, heldFinal, kept⟩

end Interpret

/-- What a session is asked to do. -/
inductive Request where
  | run (fuel : Nat) (source : Bytes) (interactive : Bool)
  | clear

namespace Session

def perform (session : Session) : Request → Session
  | .run fuel source interactive => (session.run fuel source interactive).2
  | .clear => session.clear

def performAll (session : Session) (requests : List Request) : Session :=
  requests.foldl perform session

/-- The moments of a request.  Source with a static error is not executed. -/
def moments (session : Session) : Request → List Moment
  | .run fuel source interactive =>
      match (session.checked source).hadError with
      | true => []
      | false =>
          Eval.interpretMoments ⟨(session.checked source).table, .recorded⟩ fuel interactive
            (session.parsed source).statements session.machine
  | .clear => []

/-- The moments of requests one after the other. -/
def history : Session → List Request → List Moment
  | _, [] => []
  | session, request :: rest => session.moments request ++ (session.perform request).history rest

/-- What holds in a new session and is kept by every step of every program that is executed. -/
structure Upholds (holds : Heap → Prop) (suits : Activity → Prop) : Prop
    extends Keeps holds suits where
  initial : holds Heap.initial
  programs : ∀ {session : Session} {source : Bytes}, session.IsReady →
    (session.checked source).hadError = false →
    ∀ statement ∈ (session.parsed source).statements, ∀ (fuel : Nat) (interactive : Bool)
      (machine : Machine), machine.active = Heap.globals → machine.heap.IsGrounded →
        suits ⟨⟨(session.checked source).table, .recorded⟩, fuel,
          statement.topLevelTask interactive, machine⟩

variable {holds : Heap → Prop} {suits : Activity → Prop} {session : Session}

theorem IsReady.perform (ready : session.IsReady) (flagged : session.IsFlagged)
    (request : Request) :
    (session.perform request).IsReady ∧ (session.perform request).IsFlagged := by
  cases request with
  | run fuel source interactive =>
      obtain ⟨readyAfter, flaggedAfter, -⟩ := ready.run flagged fuel source interactive
      exact ⟨readyAfter, flaggedAfter⟩
  | clear =>
      refine ⟨⟨ready.conforms, ready.active, ready.fresh⟩, ?_⟩
      exact ⟨fun waiting => absurd rfl waiting, fun raised => Bool.noConfusion raised⟩

theorem heap_conclude (session : Session) (result : EStateM.Result Stop Machine Unit) :
    (session.conclude result).2.machine.heap = (Eval.lastMachine result).heap := by
  cases result with
  | ok value machine => rfl
  | error stop machine => cases stop <;> rfl

/-- One request. -/
theorem Upholds.moments (upholds : Upholds holds suits) (ready : session.IsReady)
    (held : holds session.machine.heap) (request : Request) :
    session.machine.heap.Spans (session.moments request)
        (session.perform request).machine.heap ∧
      holds (session.perform request).machine.heap ∧
      ∀ moment ∈ session.moments request, moment.IsKept holds suits := by
  cases request with
  | clear => exact ⟨.refl, held, fun _ member => absurd member List.not_mem_nil⟩
  | run fuel source interactive =>
      simp only [Session.moments, perform, run_eq]
      cases raised : (session.checked source).hadError with
      | true =>
          have same : (if (session.read source).hadError then
              (Outcome.finished false, session.read source)
              else (.finished false, session.checked source)).2.machine = session.machine := by
            split <;> rfl
          simp only [if_true, same]
          exact ⟨.refl, held, fun _ member => absurd member List.not_mem_nil⟩
      | false =>
          obtain ⟨silentRead, -⟩ := silent_of_checked raised
          obtain ⟨layout, conforms⟩ := (ready.checked (silent_of_read silentRead).2.2).conforms
          have course := upholds.interpretMoments fuel interactive conforms ready.active
            (ready.acceptsAll raised)
            (fun statement member => upholds.programs ready raised statement member fuel interactive)
            held
          simp only [silentRead, Bool.false_eq_true, if_false]
          rw [interpret_eq, heap_conclude]
          exact course

/-- A series of requests. -/
theorem Upholds.history (upholds : Upholds holds suits) (ready : session.IsReady)
    (flagged : session.IsFlagged) (held : holds session.machine.heap) (requests : List Request) :
    session.machine.heap.Spans (session.history requests)
        (session.performAll requests).machine.heap ∧
      holds (session.performAll requests).machine.heap ∧
      ∀ moment ∈ session.history requests, moment.IsKept holds suits := by
  induction requests generalizing session with
  | nil => exact ⟨.refl, held, fun _ member => absurd member List.not_mem_nil⟩
  | cons request rest inductionHypothesis =>
      obtain ⟨spans, heldAfter, kept⟩ := upholds.moments ready held request
      obtain ⟨readyAfter, flaggedAfter⟩ := ready.perform flagged request
      obtain ⟨spansRest, heldRest, keptRest⟩ :=
        inductionHypothesis readyAfter flaggedAfter heldAfter
      refine ⟨spans.append spansRest, heldRest, fun moment member => ?_⟩
      rcases List.mem_append.mp member with inFirst | inRest
      · exact kept moment inFirst
      · exact keptRest moment inRest

/-- The heaps of a session before requests, at every moment of them, and after them. -/
def heaps (session : Session) (requests : List Request) : List Heap :=
  session.machine.heap :: (session.history requests).map (fun moment => moment.machine.heap) ++
    [(session.performAll requests).machine.heap]

theorem IsReady.performAll (ready : session.IsReady) (flagged : session.IsFlagged)
    (requests : List Request) : (session.performAll requests).IsReady := by
  induction requests generalizing session with
  | nil => exact ready
  | cons request rest inductionHypothesis =>
      obtain ⟨readyAfter, flaggedAfter⟩ := ready.perform flagged request
      exact inductionHypothesis readyAfter flaggedAfter

end Session

/-- The heap at a moment keeps to a layout of the code that runs. -/
theorem Moment.IsKept.conforms {holds : Heap → Prop} {suits : Activity → Prop} {moment : Moment}
    (kept : moment.IsKept holds suits) :
    ∃ code layout, Conforms code layout moment.machine.heap := by
  obtain ⟨code, sound⟩ := kept.sound
  unfold Moment.machine
  split
  · exact ⟨code, sound.conforms_final⟩
  · obtain ⟨layout, conforms, -⟩ := sound.machine
    exact ⟨code, layout, conforms⟩

/-- Nothing more is asked of tasks than that they are sound. -/
theorem Session.upholds_true : Session.Upholds (fun _ => True) (fun _ => True) where
  change _ _ := trivial
  makes _ _ _ _ := trivial
  inner _ _ _ _ _ := trivial
  initial := trivial
  programs _ _ _ _ _ _ _ _ _ := trivial

end LoxLang
