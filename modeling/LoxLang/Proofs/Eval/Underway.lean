import LoxLang.Proofs.Eval.Changes
import LoxLang.Proofs.Eval.Soundness

/-!
Tasks under way in accepted code.  A task is sound on a machine when it meets what its
evaluation relies on.  The parts of a sound task are sound where they begin, so every task
that begins in the course of an execution of accepted code is sound.
-/

namespace LoxLang

open Scope

open Config (Leads)

/-- What the evaluation of a task relies on. -/
def Task.IsSound (code : Code) (config : Config) : Task → Prop
  | .evaluate expression =>
      ∃ around, config.Fits around ∧ code.AcceptsReferences around expression.references
  | .evaluateAll expressions =>
      ∃ around, config.Fits around ∧
        code.AcceptsReferences around (Expr.referencesAll expressions)
  | .call function arguments _ =>
      config.IsValid code function ∧ ∀ value ∈ arguments, config.IsValid code value
  | .apply function arguments =>
      config.IsValid code function ∧ (∀ value ∈ arguments, config.IsValid code value) ∧
        config.machine.heap.arity? function = some arguments.length
  | .invoke id arguments =>
      config.IsCallable code id ∧ (∀ value ∈ arguments, config.IsValid code value) ∧
        (config.machine.heap.closure id).declaration.parameters.length = arguments.length
  | .bind method _ => config.IsMethod code method
  | .execute statement => ∃ around, config.Fits around ∧ code.AcceptsStmt around statement
  | .executeAll statements => ∃ around, config.Fits around ∧ code.AcceptsAll around statements
  | .executeLoop condition body =>
      ∃ around, config.Fits around ∧ code.AcceptsReferences around condition.references ∧
        code.AcceptsStmt around body ∧ body.declares = []

/-- A task under way in accepted code, on a machine that keeps to a layout. -/
structure Activity.IsSound (code : Code) (activity : Activity) : Prop where
  access : activity.access = ⟨code.table, .recorded⟩
  machine : ∃ layout, Config.Conforms code ⟨layout, activity.machine⟩ ∧
    activity.task.IsSound code ⟨layout, activity.machine⟩

/-- Parts that are sound where they begin. -/
def Part.AllSound (code : Code) (fuel : Nat) (parts : List Part) : Prop :=
  ∀ part ∈ parts, (part.activity ⟨code.table, .recorded⟩ fuel).IsSound code

namespace Part.AllSound

variable {code : Code} {fuel : Nat} {before : Config}

theorem nil : AllSound code fuel [] :=
  fun _ member => absurd member List.not_mem_nil

/-- A part that begins on the machine as it is, and those after it. -/
theorem cons {task : Task} {rest : List Part} (conforms : before.Conforms code)
    (sound : task.IsSound code before) (later : AllSound code fuel rest) :
    AllSound code fuel (.here task before.machine :: rest) :=
  List.forall_mem_cons.mpr ⟨⟨rfl, before.layout, conforms, sound⟩, later⟩

theorem single {task : Task} (conforms : before.Conforms code)
    (sound : task.IsSound code before) : AllSound code fuel [.here task before.machine] :=
  cons conforms sound nil

/-- A part in another frame. -/
theorem inside {task : Task} {frame : FrameId} (conforms : before.Conforms code)
    (sound : task.IsSound code (before.enter frame)) :
    AllSound code fuel [⟨task, .inside frame, before.machine⟩] :=
  List.forall_mem_cons.mpr ⟨⟨rfl, before.layout, conforms, sound⟩, nil⟩

/-- A part that is one more call. -/
theorem counted {task : Task} (conforms : before.Conforms code)
    (sound : task.IsSound code
      ⟨before.layout, { before.machine with depth := before.machine.depth + 1 }⟩) :
    AllSound code fuel [⟨task, .counted, before.machine⟩] :=
  List.forall_mem_cons.mpr ⟨⟨rfl, before.layout, conforms, sound⟩, nil⟩

/-- What follows a sound run. -/
theorem following {α : Type} {action searching : Eval α} {post : Config → α → Prop}
    {next : α → Machine → List Part} (runs : Runs code before action searching post)
    (later : ∀ after value, Leads code before after → post after value →
      AllSound code fuel (next value after.machine)) :
    AllSound code fuel (Eval.following (action before.machine) next) := by
  have outcome := runs.2
  cases result : action before.machine with
  | ok value machine =>
      simp only [result] at outcome
      obtain ⟨layout, leads, holds⟩ := outcome
      exact later ⟨layout, machine⟩ value leads holds
  | error stop machine => exact nil

end Part.AllSound

/-- However a sound run ends, the machine keeps to a layout. -/
theorem Runs.conforms_last {α : Type} {code : Code} {before : Config} {action searching : Eval α}
    {post : Config → α → Prop} (runs : Runs code before action searching post) :
    ∃ layout, Conforms code layout (Eval.lastMachine (action before.machine)).heap := by
  have outcome := runs.2
  cases result : action before.machine with
  | ok value machine =>
      simp only [result] at outcome
      obtain ⟨layout, leads, -⟩ := outcome
      exact ⟨layout, leads.conforms⟩
  | error stop machine =>
      simp only [result] at outcome
      obtain ⟨-, layout, leads⟩ := outcome
      exact ⟨layout, leads.conforms⟩

section Parts

variable {code : Code} {fuel : Nat} {before : Config} {around : List Region}

open LoxLang.Part (AllSound)

theorem Name.allSound_propertyParts (conforms : before.Conforms code) (name : Name)
    (value : Value) : AllSound code fuel (name.propertyParts before.machine value) := by
  cases value with
  | object id =>
      simp only [Name.propertyParts]
      cases (before.machine.heap.object id).fields.get? name.text with
      | some held => exact .nil
      | none =>
          cases found : before.machine.heap.findMethod? (before.machine.heap.object id).type
              name.text with
          | some method => exact .single conforms (conforms.isMethod_of_findMethod? found)
          | none => exact .nil
  | _ => exact .nil

theorem Name.allSound_superParts (conforms : before.Conforms code) (method : Name) (id : RefId) :
    AllSound code fuel (method.superParts ⟨code.table, .recorded⟩ before.machine id) := by
  unfold Name.superParts
  dsimp only
  intro part member
  simp only [Eval.mem_following] at member
  obtain ⟨superclass, -, -, receiver, -, -, member⟩ := member
  cases superclass with
  | classRef superclass =>
      cases receiver with
      | object receiver =>
          dsimp only at member
          cases found : before.machine.heap.findMethod? superclass method.text with
          | some method =>
              rw [found] at member
              have isMethod : Task.IsSound code before (.bind method receiver) :=
                conforms.isMethod_of_findMethod? found
              exact AllSound.single conforms isMethod part member
          | none =>
              rw [found] at member
              cases member
      | _ => cases member
  | _ => cases member

/-- The parts of an accepted expression. -/
theorem Expr.allSound_parts {expression : Expr} (conforms : before.Conforms code)
    (fits : before.Fits around) (accepts : code.AcceptsReferences around expression.references) :
    AllSound code fuel (expression.parts ⟨code.table, .recorded⟩ fuel before.machine) := by
  have sound := RunsSoundly.all code fuel
  cases expression with
  | literal value => exact .nil
  | read id name => exact .nil
  | assign id name value => exact .single conforms ⟨around, fits, accepts.append.1⟩
  | unary op line operand => exact .single conforms ⟨around, fits, accepts⟩
  | binary op line left right =>
      obtain ⟨acceptsLeft, acceptsRight⟩ := accepts.append
      refine .cons conforms ⟨around, fits, acceptsLeft⟩ ?_
      refine .following (sound.evaluate conforms fits acceptsLeft) fun after _ leads _ => ?_
      exact .single leads.conforms ⟨around, leads.fits fits, acceptsRight⟩
  | logical op left right =>
      obtain ⟨acceptsLeft, acceptsRight⟩ := accepts.append
      refine .cons conforms ⟨around, fits, acceptsLeft⟩ ?_
      refine .following (sound.evaluate conforms fits acceptsLeft) fun after value leads _ => ?_
      split
      · exact .nil
      · exact .single leads.conforms ⟨around, leads.fits fits, acceptsRight⟩
  | group inner => exact .single conforms ⟨around, fits, accepts⟩
  | call callee arguments line =>
      obtain ⟨acceptsCallee, acceptsArguments⟩ := accepts.append
      refine .cons conforms ⟨around, fits, acceptsCallee⟩ ?_
      refine .following (sound.evaluate conforms fits acceptsCallee)
        fun between function leads validFunction => ?_
      refine .cons leads.conforms ⟨around, leads.fits fits, acceptsArguments⟩ ?_
      refine .following (sound.evaluateAll leads.conforms (leads.fits fits) acceptsArguments)
        fun after values further validValues => ?_
      exact .single further.conforms ⟨further.isValid validFunction, validValues⟩
  | get object name =>
      refine .cons conforms ⟨around, fits, accepts⟩ ?_
      refine .following (sound.evaluate conforms fits accepts) fun after value leads _ => ?_
      exact name.allSound_propertyParts leads.conforms value
  | set object name value =>
      obtain ⟨acceptsObject, acceptsValue⟩ := accepts.append
      refine .cons conforms ⟨around, fits, acceptsObject⟩ ?_
      refine .following (sound.evaluate conforms fits acceptsObject) fun after target leads _ => ?_
      cases target with
      | object id => exact .single leads.conforms ⟨around, leads.fits fits, acceptsValue⟩
      | _ => exact .nil
  | self id line => exact .nil
  | superMethod id line method => exact method.allSound_superParts conforms id

/-- The parts of an accepted statement. -/
theorem Stmt.allSound_parts {statement : Stmt} (conforms : before.Conforms code)
    (fits : before.Fits around) (accepts : code.AcceptsStmt around statement) :
    AllSound code fuel (statement.parts ⟨code.table, .recorded⟩ fuel before.machine) := by
  have sound := RunsSoundly.all code fuel
  have ⟨regular, allows, sites⟩ := accepts
  cases statement with
  | expression value echo => exact .single conforms ⟨around, fits, sites⟩
  | print value => exact .single conforms ⟨around, fits, sites⟩
  | declare name initial =>
      cases initial with
      | none => exact .nil
      | some initial =>
          exact .single conforms ⟨declaring name.text around, Fits.declaring fits name.text, sites⟩
  | block body =>
      simp only [Stmt.parts]
      refine .following (Runs.newFrame conforms fits (.block body) (.block regular)
        (by simp [Region.block])) fun between frame leads inside => ?_
      exact .inside leads.conforms
        ⟨.block body :: around, inside, regular, .block regular around, sites⟩
  | branch condition consequence alternative =>
      obtain ⟨acceptsCondition, ⟨acceptsThen, -⟩, acceptsElse⟩ := accepts.branch
      refine .cons conforms ⟨around, fits, acceptsCondition⟩ ?_
      refine .following (sound.evaluate conforms fits acceptsCondition)
        fun after value leads _ => ?_
      split
      · exact .single leads.conforms ⟨around, leads.fits fits, acceptsThen⟩
      · cases alternative with
        | none => exact .nil
        | some other =>
            exact .single leads.conforms ⟨around, leads.fits fits, (acceptsElse other rfl).1⟩
  | loop condition body =>
      obtain ⟨acceptsCondition, acceptsBody, quiet⟩ := accepts.loop
      exact .single conforms ⟨around, fits, acceptsCondition, acceptsBody, quiet⟩
  | function declaration => exact .nil
  | leave line value =>
      cases value with
      | none => exact .nil
      | some value => exact .single conforms ⟨around, fits, sites⟩
  | classDecl name superclass methods => exact .nil

/-- The parts of a sound task are sound where they begin. -/
theorem Task.allSound_parts {task : Task} (conforms : before.Conforms code)
    (sound : task.IsSound code before) :
    AllSound code fuel (task.parts ⟨code.table, .recorded⟩ fuel before.machine) := by
  have runs := RunsSoundly.all code fuel
  cases task with
  | evaluate expression =>
      obtain ⟨around, fits, accepts⟩ := sound
      exact Expr.allSound_parts conforms fits accepts
  | evaluateAll expressions =>
      obtain ⟨around, fits, accepts⟩ := sound
      cases expressions with
      | nil => exact .nil
      | cons first rest =>
          obtain ⟨acceptsFirst, acceptsRest⟩ := accepts.append
          refine .cons conforms ⟨around, fits, acceptsFirst⟩ ?_
          refine .following (runs.evaluate conforms fits acceptsFirst) fun after _ leads _ => ?_
          exact .single leads.conforms ⟨around, leads.fits fits, acceptsRest⟩
  | call function arguments line =>
      obtain ⟨validFunction, valid⟩ := sound
      simp only [Task.parts]
      split
      · next takes => exact .counted conforms ⟨validFunction, valid, takes.1⟩
      · exact .nil
  | apply function arguments =>
      obtain ⟨validFunction, valid, takes⟩ := sound
      cases function with
      | function id =>
          exact .single conforms ⟨validFunction.callable id rfl, valid, Option.some.inj takes⟩
      | classRef type =>
          simp only [Task.parts]
          refine .following (Runs.newObject conforms type) fun between object leads made => ?_
          have initializer : between.machine.heap.initializer? type =
              before.machine.heap.initializer? type := by
            rw [made, Heap.initializer?_addObject]
          cases found : between.machine.heap.initializer? type with
          | none => exact .nil
          | some method =>
              have isMethod := leads.conforms.isMethod_of_findMethod? found
              have count : (between.machine.heap.closure method).declaration.parameters.length =
                  arguments.length := by
                simp only [Heap.arity?, initializer.symm.trans found, Option.some.injEq] at takes
                rw [made]
                exact takes
              refine .cons leads.conforms isMethod ?_
              refine .following (Runs.bindMethod leads.conforms object isMethod)
                fun middle bound further holds => ?_
              exact .single further.conforms ⟨holds.1,
                fun value member => further.isValid (leads.isValid (valid value member)),
                by rw [holds.2, count]⟩
      | _ => exact .nil
  | invoke id arguments =>
      obtain ⟨⟨-, -, around, fits, accepts⟩, valid, count⟩ := sound
      simp only [Task.parts]
      rw [if_pos (by simpa using count)]
      refine .following (Runs.newFrame conforms fits (.function _ _)
        (.parameters (.ofOrdinary accepts.ordinary_of_mem) accepts.ordinary
          (fun parameter member => List.mem_append_left _ (List.mem_map_of_mem member)) valid) ?_)
        fun between frame leads inside => ?_
      · intro name complete
        apply Bindings.get?_insertAll_isSome
        rw [List.map_fst_zip (by simp [count])]
        exact .inl complete
      · exact .inside leads.conforms ⟨_, inside, accepts.body⟩
  | bind method receiver => exact .nil
  | execute statement =>
      obtain ⟨around, fits, accepts⟩ := sound
      exact Stmt.allSound_parts conforms fits accepts
  | executeAll statements =>
      obtain ⟨around, fits, accepts⟩ := sound
      cases statements with
      | nil => exact .nil
      | cons first rest =>
          obtain ⟨acceptsFirst, acceptsRest⟩ := accepts.cons
          refine .cons conforms ⟨around, fits, acceptsFirst⟩ ?_
          refine .following (runs.execute conforms fits acceptsFirst)
            fun after completion leads completes => ?_
          cases completion with
          | normal => exact .single leads.conforms ⟨_, completes, acceptsRest⟩
          | returned value => exact .nil
  | executeLoop condition body =>
      obtain ⟨around, fits, acceptsCondition, acceptsBody, quiet⟩ := sound
      refine .cons conforms ⟨around, fits, acceptsCondition⟩ ?_
      refine .following (runs.evaluate conforms fits acceptsCondition)
        fun between value leads _ => ?_
      split
      · refine .cons leads.conforms ⟨around, leads.fits fits, acceptsBody⟩ ?_
        refine .following (runs.execute leads.conforms (leads.fits fits) acceptsBody)
          fun after completion further _ => ?_
        cases completion with
        | normal =>
            exact .single further.conforms
              ⟨around, further.fits (leads.fits fits), acceptsCondition, acceptsBody, quiet⟩
        | returned value => exact .nil
      · exact .nil

end Parts

namespace Activity

variable {code : Code} {activity : Activity}

/-- The parts of a sound task are sound. -/
theorem IsSound.inner (sound : activity.IsSound code) {part : Part}
    (member : part ∈ activity.parts) : (activity.inner part).IsSound code := by
  obtain ⟨access, fuel, task, machine⟩ := activity
  obtain ⟨rfl, layout, conforms, sound⟩ := sound
  cases fuel with
  | zero => cases member
  | succ fuel => exact Task.allSound_parts conforms sound part member

/-- A sound task ends on a machine that keeps to a layout. -/
theorem IsSound.conforms_final (sound : activity.IsSound code) :
    ∃ layout, Conforms code layout activity.final.heap := by
  obtain ⟨access, fuel, task, machine⟩ := activity
  obtain ⟨rfl, layout, conforms, sound⟩ := sound
  have runs := RunsSoundly.all code fuel
  cases task with
  | evaluate expression =>
      obtain ⟨around, fits, accepts⟩ := sound
      exact (runs.evaluate conforms fits accepts).conforms_last
  | evaluateAll expressions =>
      obtain ⟨around, fits, accepts⟩ := sound
      exact (runs.evaluateAll conforms fits accepts).conforms_last
  | call function arguments line =>
      exact (runs.call conforms sound.1 sound.2).conforms_last
  | apply function arguments =>
      exact (runs.apply conforms sound.1 sound.2.1 sound.2.2).conforms_last
  | invoke id arguments =>
      exact (runs.invoke conforms sound.1 sound.2.1 sound.2.2).conforms_last
  | bind method receiver => exact (Runs.bindMethod conforms receiver sound).conforms_last
  | execute statement =>
      obtain ⟨around, fits, accepts⟩ := sound
      exact (runs.execute conforms fits accepts).conforms_last
  | executeAll statements =>
      obtain ⟨around, fits, accepts⟩ := sound
      exact (runs.executeAll conforms fits accepts).conforms_last
  | executeLoop condition body =>
      obtain ⟨around, fits, acceptsCondition, acceptsBody, quiet⟩ := sound
      exact (runs.executeLoop conforms fits acceptsCondition acceptsBody quiet).conforms_last

/-- A sound task binds ordinary names only. -/
theorem IsSound.ordinary (sound : activity.IsSound code) {name : Bytes}
    (licensed : (activity.task.licence activity.machine).binds name) : IsOrdinary name := by
  obtain ⟨access, fuel, task, machine⟩ := activity
  obtain ⟨-, layout, conforms, sound⟩ := sound
  cases task with
  | evaluate expression =>
      obtain ⟨around, fits, accepts⟩ := sound
      cases expression with
      | assign id target value =>
          obtain rfl : name = target.text := licensed
          exact accepts.append.2.site.sound.1
      | _ => cases licensed
  | invoke id arguments =>
      obtain ⟨⟨-, -, around, -, accepts⟩, -⟩ := sound
      obtain ⟨parameter, member, rfl⟩ := List.mem_map.mp licensed
      exact accepts.ordinary parameter member
  | execute statement =>
      obtain ⟨around, fits, accepts⟩ := sound
      cases statement with
      | declare target initial =>
          obtain rfl : name = target.text := licensed
          exact accepts.regular
      | function declaration =>
          obtain rfl : name = declaration.name.text := licensed
          exact accepts.regular.ordinary_of_declares _ (List.mem_singleton_self _)
      | classDecl target superclass methods =>
          obtain rfl : name = target.text := licensed
          exact accepts.regular.1
      | _ => cases licensed
  | _ => cases licensed

end Activity

end LoxLang
