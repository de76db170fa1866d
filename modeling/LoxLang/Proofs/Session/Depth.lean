import LoxLang.Proofs.Eval.Growth
import LoxLang.Proofs.Eval.Restores
import LoxLang.Proofs.Session.Bench

/-!
The number of calls under way.  Every task restores the depth however it ends, so at every
moment the depth is the number of calls that were entered, and a call is entered only below
the limit.
-/

namespace LoxLang

/-- The number of calls that were entered, among tasks. -/
def Task.entered (tasks : List Task) : Nat :=
  tasks.countP Task.isEntered

/-- The number of calls under way at a moment. -/
def Moment.calls (moment : Moment) : Nat :=
  Task.entered (moment.activity.task :: moment.around)

/-- The depth counts the calls under way and keeps to the limit. -/
structure Moment.IsCounted (moment : Moment) : Prop where
  calls : moment.machine.depth = moment.calls
  limit : moment.machine.depth ≤ maxCallDepth

namespace Activity

theorem depth_inner (activity : Activity) {part : Part} (member : part ∈ activity.parts)
    {around : List Task}
    (counts : activity.machine.depth = Task.entered (activity.task :: around))
    (limit : activity.machine.depth ≤ maxCallDepth) :
    (activity.inner part).machine.depth = Task.entered (part.task :: activity.task :: around) ∧
      (activity.inner part).machine.depth ≤ maxCallDepth := by
  have same := (activity.restores_before member).depth
  have counted := activity.linked.isCounted part member
  unfold Task.entered at *
  rw [List.countP_cons, ← counts, ← same]
  change (part.entry.enter part.before).depth = _ ∧ (part.entry.enter part.before).depth ≤ _
  unfold Part.IsCounted at counted
  cases entered : part.task.isEntered with
  | true =>
      rw [if_pos entered] at counted
      rw [counted.1]
      exact ⟨rfl, counted.2⟩
  | false =>
      rw [if_neg (by simp [entered])] at counted
      rw [← same] at limit
      cases entry : part.entry with
      | counted => exact absurd entry counted
      | here => exact ⟨rfl, limit⟩
      | inside frame => exact ⟨rfl, limit⟩

/-- The depth counts the calls under way at all moments of a task if it does so where the
task begins. -/
theorem isCounted_of_mem_moments {activity : Activity} {around : List Task} {moment : Moment}
    (member : moment ∈ activity.moments around)
    (counts : activity.machine.depth = Task.entered (activity.task :: around))
    (limit : activity.machine.depth ≤ maxCallDepth) : moment.IsCounted := by
  induction activity using Activity.induction generalizing around with
  | step activity inductionHypothesis =>
      rw [moments_eq, List.cons_append, List.mem_cons, List.mem_append, List.mem_flatMap,
        List.mem_singleton] at member
      rcases member with rfl | ⟨part, inParts, inside⟩ | rfl
      · exact ⟨counts, limit⟩
      · obtain ⟨innerCounts, innerLimit⟩ := activity.depth_inner inParts counts limit
        exact inductionHypothesis part inParts inside innerCounts innerLimit
      · have depth := activity.restores.depth
        exact ⟨depth.trans counts, Nat.le_trans (Nat.le_of_eq depth) limit⟩

end Activity

theorem Stmt.topLevelTask_isEntered (interactive : Bool) (statement : Stmt) :
    (statement.topLevelTask interactive).isEntered = false := by
  cases statement with
  | expression value echo =>
      unfold Stmt.topLevelTask
      dsimp only
      split <;> rfl
  | _ => rfl

namespace Eval

section TopLevel

variable (access : Access) (fuel : Nat) (interactive : Bool)

theorem restores_executeTopLevel (statement : Stmt) (machine : Machine) :
    machine.Restores
      (lastMachine (executeTopLevel access fuel interactive statement machine)) := by
  have restores := Activity.restores
    ⟨access, fuel, statement.topLevelTask interactive, machine⟩
  obtain ⟨printed, final⟩ := executeTopLevel_final statement
  rw [final]
  exact ⟨restores.active, restores.depth⟩

theorem restores_interpret (statements : List Stmt) (machine : Machine) :
    machine.Restores (lastMachine (interpret access fuel interactive statements machine)) := by
  induction statements generalizing machine with
  | nil => exact ⟨rfl, rfl⟩
  | cons first rest inductionHypothesis =>
      have restores := restores_executeTopLevel access fuel interactive first machine
      simp only [interpret, Bind.bind, EStateM.bind]
      cases result : executeTopLevel access fuel interactive first machine with
      | ok value after =>
          rw [result] at restores
          exact restores.trans (inductionHypothesis after)
      | error stop after =>
          rw [result] at restores
          exact restores

/-- The depth counts the calls under way at all moments of a program that starts outside
every call. -/
theorem isCounted_of_mem_interpretMoments {statements : List Stmt} {machine : Machine}
    {moment : Moment} (outside : machine.depth = 0)
    (member : moment ∈ interpretMoments access fuel interactive statements machine) :
    moment.IsCounted := by
  induction statements generalizing machine with
  | nil => cases member
  | cons first rest inductionHypothesis =>
      unfold interpretMoments at member
      rw [List.mem_append, mem_following] at member
      rcases member with inFirst | ⟨value, after, result, inRest⟩
      · apply Activity.isCounted_of_mem_moments inFirst
        · simp [Task.entered, Stmt.topLevelTask_isEntered, outside]
        · rw [outside]
          exact Nat.zero_le _
      · have restores := restores_executeTopLevel access fuel interactive first machine
        rw [result] at restores
        exact inductionHypothesis (restores.depth.trans outside) inRest

end TopLevel

variable {access : Access} {fuel : Nat} {machine after : Machine}

/-- A function that fails has made a frame for its parameters. -/
theorem frames_of_invoke_fault {id : ClosureId} {arguments : List Value} {error : RuntimeError}
    (failed : invoke access fuel id arguments machine = .error (.fault error) after) :
    machine.heap.frames.size < after.heap.frames.size := by
  cases fuel with
  | zero => cases failed
  | succ fuel =>
      let activity : Activity := ⟨access, fuel + 1, .invoke id arguments, machine⟩
      have ends : activity.final = after := by
        simp only [activity, Activity.final, failed, lastMachine]
      by_cases count : ((machine.heap.closure id).declaration.parameters.map Name.text).length =
          arguments.length
      · have entered : ∃ part ∈ activity.parts,
            part.before.heap.frames.size = machine.heap.frames.size + 1 := by
          simp only [activity, Activity.parts, Task.parts, if_pos count]
          exact ⟨_, List.mem_singleton_self _, Array.size_push _⟩
        obtain ⟨part, member, size⟩ := entered
        have grows := (activity.growsTo_of_mem_parts member).2.frames
        rw [ends, size] at grows
        exact grows
      · simp only [invoke, Bind.bind, EStateM.bind, get_apply, if_pos count] at failed
        cases failed

/-- A call that was entered and fails has made a frame or an instance. -/
theorem grows_of_apply_fault {function : Value} {arguments : List Value} {error : RuntimeError}
    (failed : apply access fuel function arguments machine = .error (.fault error) after) :
    machine.heap.frames.size < after.heap.frames.size ∨
      machine.heap.objects.size < after.heap.objects.size := by
  cases fuel with
  | zero => cases failed
  | succ fuel =>
      cases function with
      | function id =>
          simp only [apply] at failed
          exact .inl (frames_of_invoke_fault failed)
      | native function =>
          simp only [apply] at failed
          cases function with
          | clock => cases failed
          | input =>
              simp only [callNative, modifyGet_apply] at failed
              cases failed
      | classRef type =>
          let activity : Activity := ⟨access, fuel + 1, .apply (.classRef type) arguments, machine⟩
          have ends : activity.final = after := by
            simp only [activity, Activity.final, failed, lastMachine]
          cases found : (machine.heap.addObject ⟨type, []⟩).initializer? type with
          | none =>
              simp only [apply, Bind.bind, EStateM.bind, newObject_apply, get_apply,
                Machine.withHeap, found] at failed
              cases failed
          | some method =>
              have entered : Part.here (.bind method machine.heap.objects.size)
                  (machine.withHeap (machine.heap.addObject ⟨type, []⟩)) ∈ activity.parts := by
                simp only [activity, Activity.parts, Task.parts, newObject_apply, following,
                  Machine.withHeap, found]
                exact List.mem_cons_self
              have grows := (activity.growsTo_of_mem_parts entered).2.objects
              rw [ends] at grows
              have size : (machine.heap.addObject ⟨type, []⟩).objects.size =
                  machine.heap.objects.size + 1 := Array.size_push _
              exact .inr (Nat.lt_of_lt_of_le (size ▸ Nat.lt_succ_self _) grows)
      | _ => cases failed

/-- A call with as many arguments as its callee takes is refused for its depth exactly at
the limit. -/
theorem call_eq_overflow_iff {function : Value} {arguments : List Value} (line : Nat)
    (takes : machine.heap.arity? function = some arguments.length)
    (limit : machine.depth ≤ maxCallDepth) :
    call access (fuel + 1) function arguments line machine =
        .error (.fault ⟨.stackOverflow, ⟨.rightParen, Bytes.ofString ")", none, line⟩⟩) machine ↔
      machine.depth = maxCallDepth := by
  simp only [call, Bind.bind, EStateM.bind, get_apply, takes, ne_eq, not_true_eq_false, if_false]
  constructor
  · intro refused
    by_contra below
    have room : ¬ maxCallDepth ≤ machine.depth := by omega
    rw [if_neg room] at refused
    unfold counted at refused
    cases result : apply access fuel function arguments
        { machine with depth := machine.depth + 1 } with
    | ok value last =>
        rw [result] at refused
        cases refused
    | error stop last =>
        rw [result] at refused
        simp only [EStateM.Result.error.injEq] at refused
        obtain ⟨rfl, same⟩ := refused
        have heap : last.heap = machine.heap := by rw [← same]
        have grows := grows_of_apply_fault result
        rw [heap] at grows
        simp at grows
  · intro full
    rw [if_pos (Nat.le_of_eq full.symm)]
    rfl

end Eval

/-- Nothing runs: the global frame is active, and no call is under way. -/
structure Machine.IsIdle (machine : Machine) : Prop where
  active : machine.active = Heap.globals
  depth : machine.depth = 0

theorem Machine.Restores.isIdle {before after : Machine} (restores : before.Restores after)
    (idle : before.IsIdle) : after.IsIdle :=
  ⟨restores.active.trans idle.active, restores.depth.trans idle.depth⟩

namespace Session

variable {session : Session}

/-- However an execution ends, its session has nothing running afterwards. -/
theorem isIdle_interpret (idle : session.machine.IsIdle) (fuel : Nat) (statements : List Stmt)
    (interactive : Bool) :
    (session.interpret fuel statements interactive).2.machine.IsIdle := by
  have after := (Eval.restores_interpret ⟨session.table, .recorded⟩ fuel interactive statements
    session.machine).isIdle idle
  rw [interpret_eq]
  cases result : Eval.interpret ⟨session.table, .recorded⟩ fuel interactive statements
      session.machine with
  | ok value machine =>
      rw [result] at after
      exact after
  | error stop machine =>
      rw [result] at after
      cases stop with
      | fault error => exact ⟨rfl, after.depth⟩
      | desync cause => exact after
      | outOfFuel => exact after

theorem isIdle_run (idle : session.machine.IsIdle) (fuel : Nat) (source : Bytes)
    (interactive : Bool) : (session.run fuel source interactive).2.machine.IsIdle := by
  rw [run_eq]
  split
  · exact idle
  · split
    · exact idle
    · have checked : (session.checked source).machine.IsIdle := idle
      exact isIdle_interpret checked fuel _ interactive

end Session

theorem Bench.Reachable.isIdle {bench : Bench} (reachable : bench.Reachable) :
    bench.session.machine.IsIdle := by
  induction reachable with
  | initial input clock => exact ⟨rfl, rfl⟩
  | @step bench _ fuel step inductionHypothesis =>
      cases step with
      | run source interactive => exact Session.isIdle_run inductionHypothesis fuel source interactive
      | interpret interactive =>
          exact Session.isIdle_interpret inductionHypothesis fuel bench.statements interactive
      | _ => exact inductionHypothesis
  | drain _ inductionHypothesis => exact ⟨inductionHypothesis.active, inductionHypothesis.depth⟩

/-- Whatever a task is and however it ends, it restores the active frame and the depth.
So nothing is left running after any steps of a session, and at every moment of any
execution that goes on from there the depth is the number of calls that were entered and
keeps to the limit.  A call with as many arguments as its callee takes is refused for its
depth exactly at the limit. -/
theorem depth_eq_calls :
    (∀ activity : Activity, activity.machine.Restores activity.final) ∧
    ∀ bench : Bench, bench.Reachable →
      bench.session.machine.IsIdle ∧
      ∀ access fuel interactive statements, ∀ moment ∈ Eval.interpretMoments access fuel
          interactive statements bench.session.machine,
        moment.machine.depth = moment.calls ∧ moment.machine.depth ≤ 10000 ∧
        ∀ remaining function arguments line, moment.ended = false →
          moment.activity.task = .call function arguments line →
          moment.activity.fuel = remaining + 1 →
          moment.machine.heap.arity? function = some arguments.length →
            (Eval.call access (remaining + 1) function arguments line moment.machine =
                .error (.fault ⟨.stackOverflow, ⟨.rightParen, Bytes.ofString ")", none, line⟩⟩)
                  moment.machine ↔
              moment.machine.depth = 10000) := by
  refine ⟨Activity.restores, fun bench reachable => ?_⟩
  have idle := reachable.isIdle
  refine ⟨idle, fun access fuel interactive statements moment member => ?_⟩
  have counted := Eval.isCounted_of_mem_interpretMoments access fuel interactive idle.depth member
  refine ⟨counted.calls, counted.limit, ?_⟩
  intro remaining function arguments line _ _ _ takes
  exact Eval.call_eq_overflow_iff line takes counted.limit

/-- A native function that is called from a function is the second call under way, and it
is entered. -/
theorem depth_eq_calls_nested :
    let scanned := ((Bench.initial [] fun _ => 0).step 0
      (.scan (Bytes.ofString "fun f(){clock();}f();"))).2
    let bench := ((scanned.step 0 .parse).2.step 0 .resolve).2
    let access : Access := ⟨bench.session.table, .recorded⟩
    bench.Reachable ∧
      ∃ moment ∈ Eval.interpretMoments access 20 false bench.statements bench.session.machine,
        moment.activity.task = .call (.native .clock) [] 1 ∧ moment.machine.depth = 1 ∧
          Eval.call access 12 (.native .clock) [] 1 moment.machine ≠
            .error (.fault ⟨.stackOverflow, ⟨.rightParen, Bytes.ofString ")", none, 1⟩⟩)
              moment.machine := by
  intro scanned bench access
  have reachable : bench.Reachable :=
    .step (.step (.step (.initial [] fun _ => 0) 0 _) 0 .parse) 0 .resolve
  have computed : ((Eval.interpretMoments access 20 false bench.statements
      bench.session.machine)[18]?).map (fun moment : Moment =>
        (moment.ended, moment.activity.fuel, moment.activity.task, moment.calls)) =
      some (false, 12, .call (.native .clock) [] 1, 1) := by
    unfold access bench scanned
    cbv
  obtain ⟨moment, found, same⟩ := Option.map_eq_some_iff.mp computed
  simp only [Prod.mk.injEq] at same
  obtain ⟨begun, fuel, task, calls⟩ := same
  have member := List.mem_of_getElem? found
  obtain ⟨-, moments⟩ := depth_eq_calls.2 bench reachable
  obtain ⟨depth, -, refused⟩ := moments access 20 false bench.statements moment member
  refine ⟨reachable, moment, member, task, depth.trans calls, fun overflow => ?_⟩
  have full := (refused 11 (.native .clock) [] 1 begun task fuel rfl).mp overflow
  omega

end LoxLang
