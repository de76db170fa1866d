import LoxLang.Proofs.Eval.Steps
import LoxLang.Proofs.Eval.Moments

/-!
The parts of a task and the pieces of its code.  Every part carries out a piece of the
code of its task, is a call, binds a method of a class, or is the body of the function that
is invoked.  Only blocks and bodies are entered in another frame, one that was just made.
-/

namespace LoxLang

/-- The pieces of an expression that are carried out on their own. -/
def Expr.pieces : Expr → List Task
  | .assign _ _ value => [.evaluate value]
  | .unary _ _ operand => [.evaluate operand]
  | .binary _ _ left right => [.evaluate left, .evaluate right]
  | .logical _ left right => [.evaluate left, .evaluate right]
  | .group inner => [.evaluate inner]
  | .call callee arguments _ => [.evaluate callee, .evaluateAll arguments]
  | .get object _ => [.evaluate object]
  | .set object _ value => [.evaluate object, .evaluate value]
  | .literal _ | .read _ _ | .self _ _ | .superMethod _ _ _ => []

/-- The pieces of a statement.  What a function or a class declares is not carried out
where it is declared. -/
def Stmt.pieces : Stmt → List Task
  | .expression value _ => [.evaluate value]
  | .print value => [.evaluate value]
  | .declare _ (some initial) => [.evaluate initial]
  | .block body => [.executeAll body]
  | .branch condition consequence none => [.evaluate condition, .execute consequence]
  | .branch condition consequence (some alternative) =>
      [.evaluate condition, .execute consequence, .execute alternative]
  | .loop condition body => [.executeLoop condition body]
  | .leave _ (some value) => [.evaluate value]
  | .declare _ none | .leave _ none | .function _ | .classDecl _ _ _ => []

namespace Task

/-- The pieces of the code of a task. -/
def pieces : Task → List Task
  | .evaluate expression => expression.pieces
  | .evaluateAll (first :: rest) => [.evaluate first, .evaluateAll rest]
  | .execute statement => statement.pieces
  | .executeAll (first :: rest) => [.execute first, .executeAll rest]
  | .executeLoop condition body =>
      [.evaluate condition, .execute body, .executeLoop condition body]
  | _ => []

/-- Tasks that are given a callee and arguments. -/
def isCall : Task → Bool
  | .call _ _ _ | .apply _ _ | .invoke _ _ => true
  | _ => false

/-- A part may carry out a piece of the code, or be a call. -/
def Yields (task part : Task) : Prop :=
  part ∈ task.pieces ∨ part.isCall = true

theorem Yields.piece {task piece : Task} (place : Nat)
    (found : task.pieces[place]? = some piece) : task.Yields piece :=
  .inl (List.mem_of_getElem? found)

end Task

/-- Where a part of a task can come from. -/
inductive Part.Arises (task : Task) (machine : Machine) : Part → Prop where
  | here {part : Part} : task.Yields part.task → (∀ frame, part.entry ≠ .inside frame) →
      Arises task machine part
  | binding {before : Machine} {method : ClosureId} (type : ClassId) (name : Bytes)
      (receiver : ObjectId) : before.heap.findMethod? type name = some method →
        Arises task machine (.here (.bind method receiver) before)
  | block {body : List Stmt} : task = .execute (.block body) →
      Arises task machine ⟨.executeAll body, .inside machine.heap.frames.size,
        machine.withHeap (machine.heap.addFrame ⟨some machine.active, []⟩)⟩
  | body {id : ClosureId} {arguments : List Value} : task = .invoke id arguments →
      Arises task machine
        ⟨.executeAll (machine.heap.closure id).declaration.body,
          .inside machine.heap.frames.size,
          machine.withHeap (machine.heap.addFrame
            ⟨some (machine.heap.closure id).frame,
              Bindings.insertAll [] (((machine.heap.closure id).declaration.parameters.map
                Name.text).zip arguments)⟩)⟩

/-- Parts that come from a task. -/
def Part.AllArise (task : Task) (machine : Machine) (parts : List Part) : Prop :=
  ∀ part ∈ parts, part.Arises task machine

namespace Part.AllArise

variable {task : Task} {machine : Machine}

theorem nil : AllArise task machine [] :=
  fun _ member => absurd member List.not_mem_nil

theorem cons {piece : Task} {before : Machine} {rest : List Part} (first : task.Yields piece)
    (later : AllArise task machine rest) :
    AllArise task machine (.here piece before :: rest) :=
  List.forall_mem_cons.mpr ⟨.here first fun _ => Entrance.noConfusion, later⟩

theorem single {piece : Task} {before : Machine} (first : task.Yields piece) :
    AllArise task machine [.here piece before] :=
  cons first nil

/-- A method of a class is bound, and other parts come after that. -/
theorem consBinding {before : Machine} {method : ClosureId} {type : ClassId} {name : Bytes}
    {receiver : ObjectId} {rest : List Part}
    (found : before.heap.findMethod? type name = some method)
    (later : AllArise task machine rest) :
    AllArise task machine (.here (.bind method receiver) before :: rest) :=
  List.forall_mem_cons.mpr ⟨.binding type name receiver found, later⟩

theorem following {α : Type} {result : EStateM.Result Stop Machine α}
    {next : α → Machine → List Part}
    (later : ∀ value after, AllArise task machine (next value after)) :
    AllArise task machine (Eval.following result next) := by
  cases result with
  | ok value after => exact later value after
  | error stop after => exact nil

end Part.AllArise

section Parts

variable {access : Access} {fuel : Nat} {machine : Machine}

open LoxLang.Part (AllArise)

theorem Name.allArise_propertyParts {task : Task} {after : Machine} (name : Name)
    (value : Value) : AllArise task machine (name.propertyParts after value) := by
  cases value with
  | object id =>
      simp only [Name.propertyParts]
      cases (after.heap.object id).fields.get? name.text with
      | some held => exact .nil
      | none =>
          cases found : after.heap.findMethod? (after.heap.object id).type name.text with
          | some method => exact .consBinding found .nil
          | none => exact .nil
  | _ => exact .nil

theorem Name.allArise_superParts {task : Task} (method : Name) (id : RefId) :
    AllArise task machine (method.superParts access machine id) := by
  unfold Name.superParts
  refine .following fun superclass _ => .following fun receiver _ => ?_
  cases superclass with
  | classRef superclass =>
      cases receiver with
      | object receiver =>
          dsimp only
          cases found : machine.heap.findMethod? superclass method.text with
          | some bindable => exact .consBinding found .nil
          | none => exact .nil
      | _ => exact .nil
  | _ => exact .nil

theorem Expr.allArise_parts (expression : Expr) :
    AllArise (.evaluate expression) machine (expression.parts access fuel machine) := by
  cases expression with
  | literal value => exact .nil
  | read id name => exact .nil
  | assign id name value => exact .single (.piece 0 rfl)
  | unary op line operand => exact .single (.piece 0 rfl)
  | binary op line left right =>
      exact .cons (.piece 0 rfl) (.following fun _ _ => .single (.piece 1 rfl))
  | logical op left right =>
      refine .cons (.piece 0 rfl) (.following fun value _ => ?_)
      split
      · exact .nil
      · exact .single (.piece 1 rfl)
  | group inner => exact .single (.piece 0 rfl)
  | call callee arguments line =>
      refine .cons (.piece 0 rfl) (.following fun _ _ => .cons (.piece 1 rfl) ?_)
      exact .following fun _ _ => .single (.inr rfl)
  | get object name =>
      exact .cons (.piece 0 rfl) (.following fun value _ => name.allArise_propertyParts value)
  | set object name value =>
      refine .cons (.piece 0 rfl) (.following fun target _ => ?_)
      cases target with
      | object id => exact .single (.piece 1 rfl)
      | _ => exact .nil
  | self id line => exact .nil
  | superMethod id line method => exact method.allArise_superParts id

theorem Stmt.allArise_parts (statement : Stmt) :
    AllArise (.execute statement) machine (statement.parts access fuel machine) := by
  cases statement with
  | expression value echo => exact .single (.piece 0 rfl)
  | print value => exact .single (.piece 0 rfl)
  | declare name initial =>
      cases initial with
      | none => exact .nil
      | some initial => exact .single (.piece 0 rfl)
  | block body => exact List.forall_mem_singleton.mpr (.block rfl)
  | branch condition consequence alternative =>
      cases alternative with
      | none =>
          refine .cons (.piece 0 rfl) (.following fun value _ => ?_)
          split
          · exact .single (.piece 1 rfl)
          · exact .nil
      | some alternative =>
          refine .cons (.piece 0 rfl) (.following fun value _ => ?_)
          split
          · exact .single (.piece 1 rfl)
          · exact .single (.piece 2 rfl)
  | loop condition body => exact .single (.piece 0 rfl)
  | function declaration => exact .nil
  | leave line value =>
      cases value with
      | none => exact .nil
      | some value => exact .single (.piece 0 rfl)
  | classDecl name superclass methods => exact .nil

/-- Every part of a task comes from it. -/
theorem Task.allArise_parts (task : Task) :
    AllArise task machine (task.parts access fuel machine) := by
  cases task with
  | evaluate expression => exact expression.allArise_parts
  | evaluateAll expressions =>
      cases expressions with
      | nil => exact .nil
      | cons first rest =>
          exact .cons (.piece 0 rfl) (.following fun _ _ => .single (.piece 1 rfl))
  | call function arguments line =>
      simp only [Task.parts]
      split
      · exact List.forall_mem_singleton.mpr (.here (.inr rfl) fun _ => Entrance.noConfusion)
      · exact .nil
  | apply function arguments =>
      cases function with
      | function id => exact .single (.inr rfl)
      | classRef type =>
          simp only [Task.parts]
          refine .following fun object made => ?_
          cases found : made.heap.initializer? type with
          | none => exact .nil
          | some method =>
              exact .consBinding found (.following fun _ _ => .single (.inr rfl))
      | _ => exact .nil
  | invoke id arguments =>
      simp only [Task.parts]
      split
      · exact List.forall_mem_singleton.mpr (.body rfl)
      · exact .nil
  | bind method receiver => exact .nil
  | execute statement => exact statement.allArise_parts
  | executeAll statements =>
      cases statements with
      | nil => exact .nil
      | cons first rest =>
          refine .cons (.piece 0 rfl) (.following fun completion _ => ?_)
          cases completion with
          | normal => exact .single (.piece 1 rfl)
          | returned value => exact .nil
  | executeLoop condition body =>
      refine .cons (.piece 0 rfl) (.following fun value _ => ?_)
      split
      · refine .cons (.piece 1 rfl) (.following fun completion _ => ?_)
        cases completion with
        | normal => exact .single (.piece 2 rfl)
        | returned value => exact .nil
      · exact .nil

end Parts

theorem Activity.arises (activity : Activity) {part : Part} (member : part ∈ activity.parts) :
    part.Arises activity.task activity.machine := by
  obtain ⟨access, fuel, task, machine⟩ := activity
  cases fuel with
  | zero => cases member
  | succ fuel => exact task.allArise_parts part member

end LoxLang
