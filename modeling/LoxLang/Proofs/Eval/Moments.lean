import LoxLang.Eval.Basic

/-!
What happens in the course of an execution.  Evaluation is a tree of tasks: a task
begins on a machine and ends on another, and in between its parts begin and end one
after the other.  The moments of an execution are the beginnings and the ends of all
its tasks in the order of time, each with the tasks under way around it.
-/

namespace LoxLang

/-- What an evaluator is asked to do. -/
inductive Task where
  | evaluate (expression : Expr)
  | evaluateAll (expressions : List Expr)
  | call (function : Value) (arguments : List Value) (line : Nat)
  /-- A call that was entered. -/
  | apply (function : Value) (arguments : List Value)
  | invoke (id : ClosureId) (arguments : List Value)
  | bind (method : ClosureId) (receiver : ObjectId)
  | execute (statement : Stmt)
  | executeAll (statements : List Stmt)
  | executeLoop (condition : Expr) (body : Stmt)

namespace Eval

variable {α β : Type}

/-- The machine at the end of an execution, whichever way it ends. -/
def lastMachine : EStateM.Result Stop Machine α → Machine
  | .ok _ machine => machine
  | .error _ machine => machine

/-- What follows an execution that yields a value.  Nothing follows one that was
stopped. -/
def following (result : EStateM.Result Stop Machine α) (next : α → Machine → List β) : List β :=
  match result with
  | .ok value machine => next value machine
  | .error _ _ => []

@[simp]
theorem mem_following {result : EStateM.Result Stop Machine α} {next : α → Machine → List β}
    {member : β} :
    member ∈ following result next ↔
      ∃ value machine, result = .ok value machine ∧ member ∈ next value machine := by
  cases result with
  | ok value machine =>
      refine ⟨fun member => ⟨value, machine, rfl, member⟩, ?_⟩
      rintro ⟨_, _, ⟨⟩, member⟩
      exact member
  | error stop machine => simp [following]

@[simp]
theorem following_nil (result : EStateM.Result Stop Machine α) :
    following result (fun _ _ => ([] : List β)) = [] := by
  cases result <;> rfl

end Eval

/-- How a part of a task is entered: as it is, in another frame, or as one more call
under way. -/
inductive Entrance where
  | here
  | inside (frame : FrameId)
  | counted
deriving DecidableEq

namespace Entrance

def enter : Entrance → Machine → Machine
  | .here, machine => machine
  | .inside frame, machine => { machine with active := frame }
  | .counted, machine => { machine with depth := machine.depth + 1 }

/-- The machine after a part is left, by the machine before it was entered and the one
that it ended with. -/
def leave : Entrance → Machine → Machine → Machine
  | .here, _, after => after
  | .inside _, before, after => { after with active := before.active }
  | .counted, _, after => { after with depth := after.depth - 1 }

@[simp]
theorem heap_enter (entry : Entrance) (machine : Machine) :
    (entry.enter machine).heap = machine.heap := by
  cases entry <;> rfl

@[simp]
theorem heap_leave (entry : Entrance) (before after : Machine) :
    (entry.leave before after).heap = after.heap := by
  cases entry <;> rfl

end Entrance

/-- A part of a task, with the machine before it is entered. -/
structure Part where
  task : Task
  entry : Entrance
  before : Machine

/-- A part that begins on the machine as it is. -/
abbrev Part.here (task : Task) (before : Machine) : Part :=
  ⟨task, .here, before⟩

section Parts

open Eval (following)

variable (access : Access) (fuel : Nat) (machine : Machine)

/-- Reading a property binds a method that is not hidden by a field. -/
def Name.propertyParts (name : Name) : Value → List Part
  | .object id =>
      match (machine.heap.object id).fields.get? name.text with
      | some _ => []
      | none =>
          match machine.heap.findMethod? (machine.heap.object id).type name.text with
          | some method => [.here (.bind method id) machine]
          | none => []
  | _ => []

/-- Reading a method of the superclass binds it. -/
def Name.superParts (id : RefId) (method : Name) : List Part :=
  let distance : Int := (access.table[id]?.getD 0 : Nat)
  following (Eval.readAt distance (superName 0).text machine) fun superclass _ =>
    following (Eval.readAt (distance - 1) (thisName 0).text machine) fun receiver _ =>
      match superclass, receiver with
      | .classRef superclass, .object receiver =>
          match machine.heap.findMethod? superclass method.text with
          | some found => [.here (.bind found receiver) machine]
          | none => []
      | _, _ => []

def Expr.parts : Expr → List Part
  | .assign _ _ value => [.here (.evaluate value) machine]
  | .unary _ _ operand => [.here (.evaluate operand) machine]
  | .binary _ _ left right =>
      .here (.evaluate left) machine ::
        following (Eval.evaluate access fuel left machine) fun _ after =>
          [.here (.evaluate right) after]
  | .logical op left right =>
      .here (.evaluate left) machine ::
        following (Eval.evaluate access fuel left machine) fun value after =>
          if Eval.decides op value then [] else [.here (.evaluate right) after]
  | .group inner => [.here (.evaluate inner) machine]
  | .call callee arguments line =>
      .here (.evaluate callee) machine ::
        following (Eval.evaluate access fuel callee machine) fun function after =>
          .here (.evaluateAll arguments) after ::
            following (Eval.evaluateAll access fuel arguments after) fun values later =>
              [.here (.call function values line) later]
  | .get object name =>
      .here (.evaluate object) machine ::
        following (Eval.evaluate access fuel object machine) fun value after =>
          name.propertyParts after value
  | .set object _ value =>
      .here (.evaluate object) machine ::
        following (Eval.evaluate access fuel object machine) fun target after =>
          match target with
          | .object _ => [.here (.evaluate value) after]
          | _ => []
  | .superMethod id _ method => method.superParts access machine id
  | .literal _ | .read _ _ | .self _ _ => []

def Stmt.parts : Stmt → List Part
  | .expression value _ => [.here (.evaluate value) machine]
  | .print value => [.here (.evaluate value) machine]
  | .declare _ (some initial) => [.here (.evaluate initial) machine]
  | .block body =>
      following (Eval.newFrame machine.active [] machine) fun frame after =>
        [⟨.executeAll body, .inside frame, after⟩]
  | .branch condition consequence alternative =>
      .here (.evaluate condition) machine ::
        following (Eval.evaluate access fuel condition machine) fun value after =>
          if value.isTruthy then
            [.here (.execute consequence) after]
          else
            match alternative with
            | some alternative => [.here (.execute alternative) after]
            | none => []
  | .loop condition body => [.here (.executeLoop condition body) machine]
  | .leave _ (some value) => [.here (.evaluate value) machine]
  | .declare _ none | .leave _ none | .function _ | .classDecl _ _ _ => []

/-- The parts of a task in the order in which they begin, each within the bound. -/
def Task.parts : Task → List Part
  | .evaluate expression => expression.parts access fuel machine
  | .evaluateAll [] => []
  | .evaluateAll (first :: rest) =>
      .here (.evaluate first) machine ::
        following (Eval.evaluate access fuel first machine) fun _ after =>
          [.here (.evaluateAll rest) after]
  | .call function arguments _ =>
      if machine.heap.arity? function = some arguments.length ∧ machine.depth < maxCallDepth then
        [⟨.apply function arguments, .counted, machine⟩]
      else
        []
  | .apply (.function id) arguments => [.here (.invoke id arguments) machine]
  | .apply (.classRef type) arguments =>
      following (Eval.newObject type machine) fun object made =>
        match made.heap.initializer? type with
        | some method =>
            .here (.bind method object) made ::
              following (Eval.bind method object made) fun bound after =>
                [.here (.invoke bound arguments) after]
        | none => []
  | .apply _ _ => []
  | .invoke id arguments =>
      let closure := machine.heap.closure id
      let names := closure.declaration.parameters.map Name.text
      if names.length = arguments.length then
        let bindings := (names.zip arguments).foldl
          (fun (bound : Bindings Value) (name, value) => bound.insert name value) []
        following (Eval.newFrame closure.frame bindings machine) fun frame after =>
          [⟨.executeAll closure.declaration.body, .inside frame, after⟩]
      else
        []
  | .bind _ _ => []
  | .execute statement => statement.parts access fuel machine
  | .executeAll [] => []
  | .executeAll (first :: rest) =>
      .here (.execute first) machine ::
        following (Eval.execute access fuel first machine) fun completion after =>
          match completion with
          | .normal => [.here (.executeAll rest) after]
          | .returned _ => []
  | .executeLoop condition body =>
      .here (.evaluate condition) machine ::
        following (Eval.evaluate access fuel condition machine) fun value after =>
          if value.isTruthy then
            .here (.execute body) after ::
              following (Eval.execute access fuel body after) fun completion later =>
                match completion with
                | .normal => [.here (.executeLoop condition body) later]
                | .returned _ => []
          else
            []

end Parts

/-- A task under way: the recorded distances, the bound and the machine that it begins
with. -/
structure Activity where
  access : Access
  fuel : Nat
  task : Task
  machine : Machine

/-- A part under way, within a bound. -/
def Part.activity (part : Part) (access : Access) (fuel : Nat) : Activity :=
  ⟨access, fuel, part.task, part.entry.enter part.before⟩

namespace Activity

/-- The machine that a task ends with, whichever way it ends. -/
def final (activity : Activity) : Machine :=
  let ⟨access, fuel, task, machine⟩ := activity
  match task with
  | .evaluate expression => Eval.lastMachine (Eval.evaluate access fuel expression machine)
  | .evaluateAll expressions => Eval.lastMachine (Eval.evaluateAll access fuel expressions machine)
  | .call function arguments line =>
      Eval.lastMachine (Eval.call access fuel function arguments line machine)
  | .apply function arguments =>
      Eval.lastMachine (Eval.apply access fuel function arguments machine)
  | .invoke id arguments => Eval.lastMachine (Eval.invoke access fuel id arguments machine)
  | .bind method receiver => Eval.lastMachine (Eval.bind method receiver machine)
  | .execute statement => Eval.lastMachine (Eval.execute access fuel statement machine)
  | .executeAll statements => Eval.lastMachine (Eval.executeAll access fuel statements machine)
  | .executeLoop condition body =>
      Eval.lastMachine (Eval.executeLoop access fuel condition body machine)

/-- A task whose bound is used up has no parts. -/
def parts : Activity → List Part
  | ⟨_, 0, _, _⟩ => []
  | ⟨access, fuel + 1, task, machine⟩ => task.parts access fuel machine

/-- A part of a task, under way. -/
def inner (activity : Activity) (part : Part) : Activity :=
  part.activity activity.access (activity.fuel - 1)

/-- What holds of a task whenever it holds of its parts, holds of every task. -/
theorem induction {motive : Activity → Prop}
    (step : ∀ activity, (∀ part ∈ activity.parts, motive (activity.inner part)) →
      motive activity) (activity : Activity) : motive activity := by
  obtain ⟨access, fuel, task, machine⟩ := activity
  induction fuel generalizing task machine with
  | zero =>
      apply step
      intro part member
      cases member
  | succ fuel inductionHypothesis =>
      apply step
      intro part _
      exact inductionHypothesis part.task (part.entry.enter part.before)

end Activity

/-- A point of an execution, where a task begins or has ended. -/
structure Moment where
  activity : Activity
  /-- The tasks under way around it, from the innermost outward. -/
  around : List Task
  ended : Bool

/-- The machine at a moment. -/
def Moment.machine (moment : Moment) : Machine :=
  if moment.ended then moment.activity.final else moment.activity.machine

theorem Moment.machine_of_ended {moment : Moment} (ended : moment.ended = true) :
    moment.machine = moment.activity.final :=
  if_pos ended

theorem Moment.machine_of_begins {moment : Moment} (begins : moment.ended = false) :
    moment.machine = moment.activity.machine :=
  if_neg (ne_true_of_eq_false begins)

namespace Activity

def momentsWithin (access : Access) : Nat → List Task → Task → Machine → List Moment
  | 0, around, task, machine =>
      [⟨⟨access, 0, task, machine⟩, around, false⟩, ⟨⟨access, 0, task, machine⟩, around, true⟩]
  | fuel + 1, around, task, machine =>
      ⟨⟨access, fuel + 1, task, machine⟩, around, false⟩ ::
        ((task.parts access fuel machine).flatMap fun part =>
          momentsWithin access fuel (task :: around) part.task (part.entry.enter part.before)) ++
        [⟨⟨access, fuel + 1, task, machine⟩, around, true⟩]

/-- The moments of a task inside others: it begins, its parts come one after the other,
and it ends. -/
def moments (activity : Activity) (around : List Task) : List Moment :=
  momentsWithin activity.access activity.fuel around activity.task activity.machine

theorem moments_eq (activity : Activity) (around : List Task) :
    activity.moments around =
      ⟨activity, around, false⟩ ::
        (activity.parts.flatMap fun part =>
          (activity.inner part).moments (activity.task :: around)) ++
        [⟨activity, around, true⟩] := by
  obtain ⟨access, fuel, task, machine⟩ := activity
  cases fuel <;> rfl

end Activity

/-- How a statement of the top level is carried out.  In interactive use a marked
expression statement is evaluated for its value. -/
def Stmt.topLevelTask (interactive : Bool) : Stmt → Task
  | .expression value echo =>
      if interactive && echo then .evaluate value else .execute (.expression value echo)
  | statement => .execute statement

/-- The moments of statements of the top level. -/
def Eval.interpretMoments (access : Access) (fuel : Nat) (interactive : Bool) :
    List Stmt → Machine → List Moment
  | [], _ => []
  | first :: rest, machine =>
      Activity.moments ⟨access, fuel, first.topLevelTask interactive, machine⟩ [] ++
        Eval.following (Eval.executeTopLevel access fuel interactive first machine)
          fun _ after => Eval.interpretMoments access fuel interactive rest after

end LoxLang
