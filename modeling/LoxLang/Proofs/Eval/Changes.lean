import Mathlib.Logic.Relation
import LoxLang.Proofs.Eval.Moments
import LoxLang.Proofs.Eval.Steps

/-!
What a task does itself.  Between its parts a task makes a few kinds of changes to the
heap, and each task is licensed for few of them; the active frame and the depth change
only where a part is entered, and change back where it is left.  So a relation between
machines that survives these changes and the way parts are entered and left relates the
beginning of every task to its end.
-/

namespace LoxLang

/-- What a task may do to the heap. -/
structure Licence where
  /-- The names that it may bind. -/
  binds : Bytes → Prop
  /-- It makes functions and classes, and frames that hold a receiver or a superclass. -/
  makes : Prop

/-- One change of a heap. -/
inductive Heap.Change (licence : Licence) : Heap → Heap → Prop where
  | addFrame (heap : Heap) (outer : FrameId) (bindings : Bindings Value) :
      (¬ licence.makes → ∀ name, (bindings.get? name).isSome → licence.binds name) →
        Change licence heap (heap.addFrame ⟨some outer, bindings⟩)
  | bindName (heap : Heap) (frame : FrameId) {name : Bytes} (value : Value) :
      licence.binds name → Change licence heap (heap.bindName frame name value)
  | addClosure (heap : Heap) (made : Closure) :
      licence.makes → Change licence heap (heap.addClosure made)
  | addClass (heap : Heap) (made : Class) :
      licence.makes → Change licence heap (heap.addClass made)
  | addObject (heap : Heap) (type : ClassId) :
      Change licence heap (heap.addObject ⟨type, []⟩)
  | bindField (heap : Heap) (id : ObjectId) (name : Bytes) (value : Value) :
      Change licence heap (heap.bindField id name value)

/-- A series of changes of a heap. -/
abbrev Heap.Changes (licence : Licence) : Heap → Heap → Prop :=
  Relation.ReflTransGen (Heap.Change licence)

/-- Own steps of a task: they may change the heap, and nothing is entered or left. -/
structure Machine.Moves (licence : Licence) (before after : Machine) : Prop where
  active : after.active = before.active
  depth : after.depth = before.depth
  heap : Heap.Changes licence before.heap after.heap

namespace Machine.Moves

variable {licence : Licence} {before between after : Machine}

theorem refl (machine : Machine) : Moves licence machine machine :=
  ⟨rfl, rfl, .refl⟩

theorem trans (first : Moves licence before between) (second : Moves licence between after) :
    Moves licence before after :=
  ⟨second.active.trans first.active, second.depth.trans first.depth,
    first.heap.trans second.heap⟩

end Machine.Moves

/-- The machine after a part is left. -/
def Part.after (part : Part) (access : Access) (fuel : Nat) : Machine :=
  part.entry.leave part.before (part.activity access fuel).final

/-- A call that is entered, among tasks. -/
def Task.isEntered : Task → Bool
  | .apply _ _ => true
  | _ => false

/-- A part is counted exactly if it is a call that is entered, which happens below the
limit. -/
def Part.IsCounted (part : Part) : Prop :=
  if part.task.isEntered then part.entry = .counted ∧ part.before.depth < maxCallDepth
  else part.entry ≠ .counted

/-- Own steps that alternate with parts lead from one machine to another. -/
def Linked (access : Access) (fuel : Nat) (licence : Licence) :
    Machine → List Part → Machine → Prop
  | start, [], final => start.Moves licence final
  | start, part :: rest, final =>
      part.IsCounted ∧ start.Moves licence part.before ∧
        Linked access fuel licence (part.after access fuel) rest final

namespace Linked

variable {access : Access} {fuel : Nat} {licence : Licence}

theorem ofMoves {start middle final : Machine} {parts : List Part}
    (moves : start.Moves licence middle) (linked : Linked access fuel licence middle parts final) :
    Linked access fuel licence start parts final := by
  cases parts with
  | nil => exact moves.trans linked
  | cons part rest => exact ⟨linked.1, moves.trans linked.2.1, linked.2.2⟩

theorem append {start middle final : Machine} {first second : List Part}
    (left : Linked access fuel licence start first middle)
    (right : Linked access fuel licence middle second final) :
    Linked access fuel licence start (first ++ second) final := by
  induction first generalizing start with
  | nil => exact ofMoves left right
  | cons part rest inductionHypothesis =>
      exact ⟨left.1, left.2.1, inductionHypothesis left.2.2⟩

theorem isCounted {start final : Machine} {parts : List Part}
    (linked : Linked access fuel licence start parts final) : ∀ part ∈ parts, part.IsCounted := by
  induction parts generalizing start with
  | nil => exact fun _ member => absurd member List.not_mem_nil
  | cons part rest inductionHypothesis =>
      intro other member
      rcases List.mem_cons.mp member with rfl | inRest
      · exact linked.1
      · exact inductionHypothesis linked.2.2 other inRest

/-- A relation that own steps and parts keep to relates the start to every part, every
part to the end, and the start to the end. -/
theorem relates (relation : Machine → Machine → Prop)
    (trans : ∀ {before between after}, relation before between → relation between after →
      relation before after)
    (moves : ∀ {before after}, before.Moves licence after → relation before after)
    {start final : Machine} {parts : List Part}
    (linked : Linked access fuel licence start parts final)
    (kept : ∀ part ∈ parts, relation part.before (part.after access fuel)) :
    relation start final ∧
      ∀ part ∈ parts, relation start part.before ∧ relation (part.after access fuel) final := by
  induction parts generalizing start with
  | nil => exact ⟨moves linked, fun _ member => absurd member List.not_mem_nil⟩
  | cons part rest inductionHypothesis =>
      have arrives := moves linked.2.1
      have through := trans arrives (kept part List.mem_cons_self)
      obtain ⟨last, later⟩ := inductionHypothesis linked.2.2 fun other member =>
        kept other (List.mem_cons_of_mem _ member)
      refine ⟨trans through last, fun other member => ?_⟩
      rcases List.mem_cons.mp member with rfl | inRest
      · exact ⟨arrives, last⟩
      · obtain ⟨reached, ends⟩ := later other inRest
        exact ⟨trans through reached, ends⟩

end Linked

/-- An action consists of parts and of own steps between them. -/
def Follows {α : Type} (access : Access) (fuel : Nat) (licence : Licence) (machine : Machine)
    (action : Eval α) (parts : List Part) : Prop :=
  Linked access fuel licence machine parts (Eval.lastMachine (action machine))

/-- A read leaves the machine as it is. -/
theorem Eval.machine_of_readAt {machine after : Machine} {distance : Int} {name : Bytes}
    {value : Value} (result : Eval.readAt distance name machine = .ok value after) :
    after = machine := by
  rw [Eval.readAt_apply] at result
  cases found : machine.heap.frames.getAt machine.active distance name with
  | ok held =>
      rw [found] at result
      cases result
      rfl
  | error cause =>
      rw [found] at result
      cases result

namespace Follows

open Eval (following)

variable {α β : Type} {access : Access} {fuel : Nat} {licence : Licence} {machine : Machine}

theorem stays {action : Eval α} (same : Eval.lastMachine (action machine) = machine) :
    Follows access fuel licence machine action [] := by
  unfold Follows
  rw [same]
  exact .refl machine

theorem pure (value : α) :
    Follows access fuel licence machine (Pure.pure value : Eval α) [] :=
  stays rfl

theorem fail (fault : Fault) (token : Token) :
    Follows access fuel licence machine (Eval.fail fault token : Eval α) [] :=
  stays rfl

theorem stop (cause : Stop) :
    Follows access fuel licence machine (throw cause : Eval α) [] :=
  stays rfl

theorem ofFault (token : Token) (result : Except Fault α) :
    Follows access fuel licence machine (Eval.ofFault token result) [] := by
  cases result <;> exact stays rfl

theorem ofDesync (result : Except Desync α) :
    Follows access fuel licence machine (Eval.ofDesync result) [] := by
  cases result <;> exact stays rfl

/-- Parts follow those of what is done first. -/
theorem bind {action : Eval α} {next : α → Eval β} {parts : List Part}
    {later : α → Machine → List Part}
    (first : Follows access fuel licence machine action parts)
    (second : ∀ value after, action machine = .ok value after →
      Follows access fuel licence after (next value) (later value after)) :
    Follows access fuel licence machine (action >>= next)
      (parts ++ following (action machine) later) := by
  unfold Follows at *
  simp only [Bind.bind, EStateM.bind]
  cases result : action machine with
  | ok value after =>
      rw [result] at first
      exact Linked.append first (second value after result)
  | error stop after =>
      rw [result] at first
      simp only [following, List.append_nil]
      exact first

/-- Own steps come before any part. -/
theorem start {action : Eval α} {next : α → Eval β} {later : α → Machine → List Part}
    (first : Follows access fuel licence machine action [])
    (second : ∀ value after, action machine = .ok value after →
      Follows access fuel licence after (next value) (later value after)) :
    Follows access fuel licence machine (action >>= next) (following (action machine) later) :=
  bind first second

/-- Own steps go on from what is done first. -/
theorem finish {action : Eval α} {next : α → Eval β} {parts : List Part}
    (first : Follows access fuel licence machine action parts)
    (second : ∀ value after, Follows access fuel licence after (next value) []) :
    Follows access fuel licence machine (action >>= next) parts := by
  have whole := bind first fun value after _ => second value after
  simpa using whole

/-- Reading the machine changes nothing. -/
theorem get {next : Machine → Eval β} {parts : List Part}
    (follows : Follows access fuel licence machine (next machine) parts) :
    Follows access fuel licence machine (MonadState.get >>= next) parts :=
  follows

/-- A task that begins on the machine as it is. -/
theorem task {action : Eval α} (task : Task) (plain : task.isEntered = false)
    (carriesOut : Activity.final ⟨access, fuel, task, machine⟩ = Eval.lastMachine (action machine)) :
    Follows access fuel licence machine action [.here task machine] := by
  refine ⟨by simp [Part.IsCounted, plain], .refl machine, ?_⟩
  change Machine.Moves licence (Activity.final ⟨access, fuel, task, machine⟩) _
  rw [carriesOut]
  exact .refl _

theorem within {action : Eval α} (frame : FrameId) (task : Task)
    (plain : task.isEntered = false)
    (carriesOut : ∀ machine, Activity.final ⟨access, fuel, task, machine⟩ =
      Eval.lastMachine (action machine)) :
    Follows access fuel licence machine (Eval.within frame action)
      [⟨task, .inside frame, machine⟩] := by
  refine ⟨by simp [Part.IsCounted, plain], .refl machine, ?_⟩
  have inside := carriesOut { machine with active := frame }
  unfold Part.after Part.activity Entrance.enter Entrance.leave Eval.within
  dsimp only
  rw [inside]
  cases action { machine with active := frame } <;> exact .refl _

/-- Own steps may be taken in another frame. -/
theorem inside {action : Eval α} (frame : FrameId)
    (follows : Follows access fuel licence { machine with active := frame } action []) :
    Follows access fuel licence machine (Eval.within frame action) [] := by
  have moves : Machine.Moves licence { machine with active := frame }
      (Eval.lastMachine (action { machine with active := frame })) := follows
  change Machine.Moves licence machine _
  unfold Eval.within
  dsimp only
  cases result : action { machine with active := frame } with
  | ok value after =>
      rw [result] at moves
      exact ⟨rfl, moves.depth, moves.heap⟩
  | error stop after =>
      rw [result] at moves
      exact ⟨rfl, moves.depth, moves.heap⟩

theorem counted {action : Eval α} (task : Task) (entered : task.isEntered = true)
    (room : machine.depth < maxCallDepth)
    (carriesOut : ∀ machine, Activity.final ⟨access, fuel, task, machine⟩ =
      Eval.lastMachine (action machine)) :
    Follows access fuel licence machine (Eval.counted action) [⟨task, .counted, machine⟩] := by
  refine ⟨by simp [Part.IsCounted, entered, room], .refl machine, ?_⟩
  have inside := carriesOut { machine with depth := machine.depth + 1 }
  unfold Part.after Part.activity Entrance.enter Entrance.leave Eval.counted
  dsimp only
  rw [inside]
  cases action { machine with depth := machine.depth + 1 } <;> exact .refl _

theorem change {action : Eval α} {value : α} {heap : Heap}
    (result : action machine = .ok value (machine.withHeap heap))
    (changed : Heap.Change licence machine.heap heap) :
    Follows access fuel licence machine action [] := by
  unfold Follows
  rw [result]
  exact ⟨rfl, rfl, .single changed⟩

theorem printLine (value : Value) :
    Follows access fuel licence machine (Eval.printLine value) [] :=
  ⟨rfl, rfl, .refl⟩

theorem callNative (function : Native) :
    Follows access fuel licence machine (Eval.callNative function) [] := by
  cases function with
  | clock => exact ⟨rfl, rfl, .refl⟩
  | input =>
      unfold Follows Eval.callNative
      simp only [Eval.modifyGet_apply]
      split <;> exact ⟨rfl, rfl, .refl⟩

theorem newFrame (outer : FrameId) (bindings : Bindings Value)
    (licensed : ¬ licence.makes → ∀ name, (bindings.get? name).isSome → licence.binds name) :
    Follows access fuel licence machine (Eval.newFrame outer bindings) [] :=
  change (Eval.newFrame_apply machine outer bindings) (.addFrame _ _ _ licensed)

theorem newClosure (made : Closure) (makes : licence.makes) :
    Follows access fuel licence machine (Eval.newClosure made) [] :=
  change (Eval.newClosure_apply machine made) (.addClosure _ _ makes)

theorem newObject (type : ClassId) :
    Follows access fuel licence machine (Eval.newObject type) [] :=
  change (Eval.newObject_apply machine type) (.addObject _ _)

theorem setField (id : ObjectId) (name : Bytes) (value : Value) :
    Follows access fuel licence machine (Eval.setField id name value) [] :=
  change (Eval.setField_apply machine id name value) (.bindField _ _ _ _)

theorem define {name : Bytes} (licensed : licence.binds name) (value : Value) :
    Follows access fuel licence machine (Eval.define name value) [] :=
  change (Eval.define_apply machine name value) (.bindName _ _ _ licensed)

theorem assignFrom {name : Name} (licensed : licence.binds name.text) (frame : FrameId)
    (value : Value) :
    Follows access fuel licence machine (Eval.assignFrom frame name value) [] := by
  cases found : machine.heap.frames.holder? frame name.text with
  | none => exact stays (by rw [Eval.assignFrom_of_none machine value found]; rfl)
  | some holder =>
      exact change (Eval.assignFrom_of_holder? machine value found) (.bindName _ _ _ licensed)

theorem assignVariable {name : Name} (licensed : licence.binds name.text) (id : RefId)
    (value : Value) :
    Follows access fuel licence machine (Eval.assignVariable access id name value) [] := by
  unfold Eval.assignVariable
  cases access.mode with
  | searched => exact assignFrom licensed machine.active value
  | recorded =>
      cases entry : access.table[id]? with
      | none => exact assignFrom licensed Heap.globals value
      | some distance =>
          cases walked : machine.heap.frames.ancestor machine.active distance with
          | ok holder =>
              exact change (Eval.assignAt_of_ancestor machine name.text value walked)
                (.bindName _ _ _ licensed)
          | error cause =>
              apply stays
              simp only [Eval.assignAt, Bind.bind, EStateM.bind, Eval.get_apply, walked]
              rfl

theorem readAt (distance : Int) (name : Bytes) :
    Follows access fuel licence machine (Eval.readAt distance name) [] :=
  @ofDesync _ access fuel licence machine
    (machine.heap.frames.getAt machine.active distance name)

theorem readFrom (frame : FrameId) (token : Token) :
    Follows access fuel licence machine (Eval.readFrom frame token) [] :=
  @ofFault _ access fuel licence machine token (machine.heap.frames.get frame token.lexeme)

theorem readRecorded (id : RefId) (token : Token) :
    Follows access fuel licence machine (Eval.readRecorded access id token) [] := by
  unfold Eval.readRecorded
  split
  · exact readAt _ _
  · exact readFrom _ _

theorem readVariable (id : RefId) (name : Name) :
    Follows access fuel licence machine (Eval.readVariable access id name) [] := by
  unfold Eval.readVariable
  split
  · exact readRecorded id name.token
  · exact @readFrom access fuel licence machine machine.active name.token

theorem getProperty (id : ObjectId) (name : Name) :
    Follows access fuel licence machine (Eval.getProperty id name)
      (name.propertyParts machine (.object id)) := by
  unfold Eval.getProperty Name.propertyParts
  apply get
  dsimp only
  cases (machine.heap.object id).fields.get? name.text with
  | some value => exact pure _
  | none =>
      cases machine.heap.findMethod? (machine.heap.object id).type name.text with
      | some method => exact finish (task (.bind method id) rfl rfl) fun _ _ => pure _
      | none => exact fail _ _

theorem readSuper (id : RefId) (method : Name) :
    Follows access fuel licence machine (Eval.readSuper access id method)
      (method.superParts access machine id) := by
  unfold Eval.readSuper Name.superParts
  dsimp only
  refine start (readAt _ _) fun superclass after result => ?_
  obtain rfl := Eval.machine_of_readAt result
  cases superclass with
  | classRef superclass =>
      refine start (readAt _ _) fun receiver later found => ?_
      obtain rfl := Eval.machine_of_readAt found
      cases receiver with
      | object receiver =>
          apply get
          dsimp only
          cases later.heap.findMethod? superclass method.text with
          | some method => exact finish (task (.bind method receiver) rfl rfl) fun _ _ => pure _
          | none => exact fail _ _
      | _ => exact stop _
  | _ =>
      simp only [Eval.following_nil]
      exact stop _

/-- Methods are made in the active frame. -/
theorem makeMethods (makes : licence.makes) (methods : List Function)
    (made : Bindings ClosureId) :
    Follows access fuel licence machine (Eval.makeMethods methods made) [] := by
  induction methods generalizing made machine with
  | nil => exact pure made
  | cons method rest inductionHypothesis =>
      unfold Eval.makeMethods
      exact get (finish (newClosure _ makes) fun _ _ => inductionHypothesis _)

theorem makeClassBody (makes : licence.makes) (name : Bytes) (parent : Option ClassId)
    (methods : List Function) :
    Follows access fuel licence machine (do
      let made ← Eval.makeMethods methods []
      Eval.newClass ⟨name, parent, made⟩) [] :=
  finish (makeMethods makes methods []) fun made after =>
    change (Eval.newClass_apply after ⟨name, parent, made⟩) (.addClass _ _ makes)

theorem makeSubclass (makes : licence.makes) (name : Name) (superclass : ClassId)
    (methods : List Function) :
    Follows access fuel licence machine (Eval.makeSubclass name superclass methods) [] := by
  rw [Eval.makeSubclass_eq]
  apply get
  refine finish (newFrame _ _ fun never => absurd makes never) fun frame after => ?_
  exact inside frame (makeClassBody makes name.text (some superclass) methods)

/-- A class declaration has no parts. -/
theorem declareClass {name : Name} (makes : licence.makes) (licensed : licence.binds name.text)
    (superclass : Option (RefId × Name)) (methods : List Function) :
    Follows access fuel licence machine
      (Eval.declareClass access name superclass methods) [] := by
  unfold Eval.declareClass
  cases superclass with
  | none =>
      refine finish (define licensed .nil) fun _ _ => ?_
      refine finish (makeClassBody makes name.text none methods) fun id after => ?_
      exact get (assignFrom licensed after.active (.classRef id))
  | some parent =>
      refine finish (readVariable parent.1 parent.2) fun value _ => ?_
      cases value with
      | classRef superclass =>
          refine finish (define licensed .nil) fun _ _ => ?_
          refine finish (makeSubclass makes name superclass methods) fun id after => ?_
          exact get (assignFrom licensed after.active (.classRef id))
      | _ => exact fail _ _

end Follows

/-- What each task may do to the heap itself. -/
def Task.licence (machine : Machine) : Task → Licence
  | .evaluate (.assign _ name _) => ⟨(· = name.text), False⟩
  | .invoke id _ =>
      ⟨(· ∈ (machine.heap.closure id).declaration.parameters.map Name.text), False⟩
  | .bind _ _ => ⟨fun _ => False, True⟩
  | .execute (.declare name _) => ⟨(· = name.text), False⟩
  | .execute (.function declaration) => ⟨(· = declaration.name.text), True⟩
  | .execute (.classDecl name _ _) => ⟨(· = name.text), True⟩
  | _ => ⟨fun _ => False, False⟩

namespace Activity

variable {access : Access} {fuel : Nat} {machine : Machine}

open Eval (following)

theorem follows_evaluate (expression : Expr) :
    Follows access fuel (Task.licence machine (.evaluate expression)) machine
      (Eval.evaluate access (fuel + 1) expression) (expression.parts access fuel machine) := by
  cases expression with
  | literal value =>
      simp only [Eval.evaluate]
      exact .pure _
  | read id name =>
      simp only [Eval.evaluate]
      exact .readVariable id name
  | assign id name value =>
      simp only [Eval.evaluate]
      refine .finish (.task (.evaluate value) rfl rfl) fun result _ => ?_
      exact .finish (.assignVariable rfl id result) fun _ _ => .pure _
  | unary op line operand =>
      simp only [Eval.evaluate]
      exact .finish (.task (.evaluate operand) rfl rfl) fun _ _ => .ofFault _ _
  | binary op line left right =>
      simp only [Eval.evaluate]
      refine .bind (.task (.evaluate left) rfl rfl) fun _ _ _ => ?_
      exact .finish (.task (.evaluate right) rfl rfl) fun _ _ => .ofFault _ _
  | logical op left right =>
      simp only [Eval.evaluate]
      refine .bind (.task (.evaluate left) rfl rfl) fun value _ _ => ?_
      cases Eval.decides op value with
      | true => exact .pure _
      | false => exact .task (.evaluate right) rfl rfl
  | group inner =>
      simp only [Eval.evaluate]
      exact .task (.evaluate inner) rfl rfl
  | call callee arguments line =>
      simp only [Eval.evaluate]
      refine .bind (.task (.evaluate callee) rfl rfl) fun function _ _ => ?_
      refine .bind (.task (.evaluateAll arguments) rfl rfl) fun values _ _ => ?_
      exact .task (.call function values line) rfl rfl
  | get object name =>
      simp only [Eval.evaluate]
      refine .bind (.task (.evaluate object) rfl rfl) fun value _ _ => ?_
      cases value with
      | object id => exact .getProperty id name
      | _ => exact .fail _ _
  | set object name value =>
      simp only [Eval.evaluate]
      refine .bind (.task (.evaluate object) rfl rfl) fun target _ _ => ?_
      cases target with
      | object id =>
          refine .finish (.task (.evaluate value) rfl rfl) fun result _ => ?_
          exact .finish (.setField id name.text result) fun _ _ => .pure _
      | _ => exact .fail _ _
  | self id line =>
      simp only [Eval.evaluate]
      exact .readRecorded id _
  | superMethod id line method =>
      simp only [Eval.evaluate]
      exact .readSuper id method

theorem follows_execute (statement : Stmt) :
    Follows access fuel (Task.licence machine (.execute statement)) machine
      (Eval.execute access (fuel + 1) statement) (statement.parts access fuel machine) := by
  cases statement with
  | expression value echo =>
      simp only [Eval.execute]
      exact .finish (.task (.evaluate value) rfl rfl) fun _ _ => .pure _
  | print value =>
      simp only [Eval.execute]
      refine .finish (.task (.evaluate value) rfl rfl) fun result _ => ?_
      exact .finish (.printLine result) fun _ _ => .pure _
  | declare name initial =>
      cases initial with
      | none =>
          simp only [Eval.execute, pure_bind]
          exact .finish (.define rfl .nil) fun _ _ => .pure _
      | some initial =>
          simp only [Eval.execute]
          refine .finish (.task (.evaluate initial) rfl rfl) fun value _ => ?_
          exact .finish (.define rfl value) fun _ _ => .pure _
  | block body =>
      simp only [Eval.execute, Stmt.parts]
      apply Follows.get
      refine .start (.newFrame _ _ fun _ name bound => ?_) fun frame after _ => ?_
      · simp [Bindings.get?] at bound
      · exact .within frame (.executeAll body) rfl fun _ => rfl
  | branch condition consequence alternative =>
      simp only [Eval.execute]
      refine .bind (.task (.evaluate condition) rfl rfl) fun value _ _ => ?_
      cases value.isTruthy with
      | true => exact .task (.execute consequence) rfl rfl
      | false =>
          cases alternative with
          | some alternative => exact .task (.execute alternative) rfl rfl
          | none => exact .pure _
  | loop condition body =>
      simp only [Eval.execute]
      exact .task (.executeLoop condition body) rfl rfl
  | function declaration =>
      simp only [Eval.execute]
      apply Follows.get
      refine .finish (.newClosure _ trivial) fun id _ => ?_
      exact .finish (.define rfl (.function id)) fun _ _ => .pure _
  | leave line value =>
      simp only [Eval.execute]
      cases value with
      | none => exact .pure _
      | some value => exact .finish (.task (.evaluate value) rfl rfl) fun _ _ => .pure _
  | classDecl name superclass methods =>
      simp only [Eval.execute]
      exact .finish (.declareClass trivial rfl superclass methods) fun _ _ => .pure _

theorem follows_call (function : Value) (arguments : List Value) (line : Nat) :
    Follows access fuel (Task.licence machine (.call function arguments line)) machine
      (Eval.call access (fuel + 1) function arguments line)
      (Task.parts access fuel machine (.call function arguments line)) := by
  simp only [Eval.call, Task.parts]
  apply Follows.get
  cases machine.heap.arity? function with
  | none =>
      simp only [reduceCtorEq, false_and, if_false]
      exact .fail _ _
  | some arity =>
      by_cases count : arguments.length = arity
      · subst count
        by_cases room : machine.depth < maxCallDepth
        · simp only [ne_eq, not_true_eq_false, if_false, if_neg (Nat.not_le.mpr room)]
          rw [if_pos ⟨trivial, room⟩]
          exact .counted (.apply function arguments) rfl room fun _ => rfl
        · simp only [ne_eq, not_true_eq_false, if_false, if_pos (Nat.not_lt.mp room)]
          rw [if_neg fun takes => room takes.2]
          exact .fail _ _
      · have other : ¬ (some arity = some arguments.length ∧ machine.depth < maxCallDepth) := by
          intro takes
          exact count (Option.some.inj takes.1).symm
        rw [if_neg other]
        simp only [ne_eq, count, not_false_eq_true, if_true]
        exact .fail _ _

theorem follows_apply (function : Value) (arguments : List Value) :
    Follows access fuel (Task.licence machine (.apply function arguments)) machine
      (Eval.apply access (fuel + 1) function arguments)
      (Task.parts access fuel machine (.apply function arguments)) := by
  cases function with
  | native function =>
      simp only [Eval.apply]
      exact .callNative function
  | function id =>
      simp only [Eval.apply]
      exact .task (.invoke id arguments) rfl rfl
  | classRef type =>
      simp only [Eval.apply, Task.parts]
      refine .start (.newObject type) fun object made _ => ?_
      apply Follows.get
      cases made.heap.initializer? type with
      | none => exact .pure _
      | some method =>
          refine .bind (.task (.bind method object) rfl rfl) fun bound _ _ => ?_
          exact .finish (.task (.invoke bound arguments) rfl rfl) fun _ _ => .pure _
  | _ =>
      simp only [Eval.apply]
      exact .pure _

theorem follows_invoke (id : ClosureId) (arguments : List Value) :
    Follows access fuel (Task.licence machine (.invoke id arguments)) machine
      (Eval.invoke access (fuel + 1) id arguments)
      (Task.parts access fuel machine (.invoke id arguments)) := by
  simp only [Eval.invoke, Task.parts]
  apply Follows.get
  split
  · exact .stop _
  · next same =>
      simp only [if_pos (not_not.mp same)]
      refine .start (.newFrame _ _ fun _ name => Bindings.mem_of_insertAll_zip) fun frame after _ => ?_
      refine .finish (.within frame (.executeAll _) rfl fun _ => rfl) fun completion _ => ?_
      split
      · exact .get (.ofDesync _)
      · cases completion <;> exact .pure _

theorem follows_evaluateAll (expressions : List Expr) :
    Follows access fuel (Task.licence machine (.evaluateAll expressions)) machine
      (Eval.evaluateAll access (fuel + 1) expressions)
      (Task.parts access fuel machine (.evaluateAll expressions)) := by
  cases expressions with
  | nil =>
      simp only [Eval.evaluateAll]
      exact .pure _
  | cons first rest =>
      simp only [Eval.evaluateAll]
      refine .bind (.task (.evaluate first) rfl rfl) fun _ _ _ => ?_
      exact .finish (.task (.evaluateAll rest) rfl rfl) fun _ _ => .pure _

theorem follows_bind (method : ClosureId) (receiver : ObjectId) :
    Follows access fuel (Task.licence machine (.bind method receiver)) machine
      (Eval.bind method receiver) [] := by
  unfold Eval.bind
  apply Follows.get
  refine .finish (.newFrame _ _ fun never => absurd trivial never) fun frame _ => ?_
  exact .newClosure _ trivial

theorem follows_executeAll (statements : List Stmt) :
    Follows access fuel (Task.licence machine (.executeAll statements)) machine
      (Eval.executeAll access (fuel + 1) statements)
      (Task.parts access fuel machine (.executeAll statements)) := by
  cases statements with
  | nil =>
      simp only [Eval.executeAll]
      exact .pure _
  | cons first rest =>
      simp only [Eval.executeAll]
      refine .bind (.task (.execute first) rfl rfl) fun completion _ _ => ?_
      cases completion with
      | normal => exact .task (.executeAll rest) rfl rfl
      | returned value => exact .pure _

theorem follows_executeLoop (condition : Expr) (body : Stmt) :
    Follows access fuel (Task.licence machine (.executeLoop condition body)) machine
      (Eval.executeLoop access (fuel + 1) condition body)
      (Task.parts access fuel machine (.executeLoop condition body)) := by
  simp only [Eval.executeLoop]
  refine .bind (.task (.evaluate condition) rfl rfl) fun value _ _ => ?_
  cases value.isTruthy with
  | false => exact .pure _
  | true =>
      refine .bind (.task (.execute body) rfl rfl) fun completion _ _ => ?_
      cases completion with
      | normal => exact .task (.executeLoop condition body) rfl rfl
      | returned value => exact .pure _

/-- Own steps within its licence lead a task from part to part. -/
theorem linked (activity : Activity) :
    Linked activity.access (activity.fuel - 1) (activity.task.licence activity.machine)
      activity.machine activity.parts activity.final := by
  obtain ⟨access, fuel, task, machine⟩ := activity
  cases fuel with
  | zero =>
      cases task with
      | bind method receiver => exact @follows_bind access 0 machine method receiver
      | _ => exact .refl machine
  | succ fuel =>
      cases task with
      | evaluate expression => exact follows_evaluate expression
      | evaluateAll expressions => exact follows_evaluateAll expressions
      | call function arguments line => exact follows_call function arguments line
      | apply function arguments => exact follows_apply function arguments
      | invoke id arguments => exact follows_invoke id arguments
      | bind method receiver => exact follows_bind method receiver
      | execute statement => exact follows_execute statement
      | executeAll statements => exact follows_executeAll statements
      | executeLoop condition body => exact follows_executeLoop condition body

end Activity

namespace Eval

variable {access : Access} {fuel : Nat} {interactive : Bool} {machine : Machine}

theorem lastMachine_map_unit {α : Type} (action : Eval α) :
    lastMachine ((do let _ ← action : Eval Unit) machine) = lastMachine (action machine) := by
  simp only [Bind.bind, EStateM.bind]
  cases action machine <;> rfl

/-- A statement of the top level ends as its task does, and may print a value. -/
theorem executeTopLevel_final (statement : Stmt) :
    ∃ printed, lastMachine (executeTopLevel access fuel interactive statement machine) =
      { Activity.final ⟨access, fuel, statement.topLevelTask interactive, machine⟩ with
        printed := printed } := by
  cases statement with
  | expression value echo =>
      simp only [executeTopLevel, Stmt.topLevelTask]
      by_cases shown : (interactive && echo) = true
      · simp only [if_pos shown, Bind.bind, EStateM.bind, Activity.final]
        cases evaluate access fuel value machine with
        | ok result after => exact ⟨_, rfl⟩
        | error stop after => exact ⟨_, rfl⟩
      · simp only [if_neg shown]
        exact ⟨_, lastMachine_map_unit _⟩
  | _ => exact ⟨_, lastMachine_map_unit _⟩

end Eval

end LoxLang
