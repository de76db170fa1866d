import Mathlib.Data.List.Induction
import LoxLang.Proofs.Eval.Growth
import LoxLang.Proofs.Eval.Underway
import LoxLang.Proofs.Heap.Chains

/-!
What is made.  Binding a method, declaring a function and declaring a class make all
functions and classes that there are.  For each of these tasks the heap that it leaves is
given exactly.
-/

namespace LoxLang

open Scope

/-- A method as the body of its class makes it. -/
def Function.asMethod (frame : FrameId) (method : Function) : Closure :=
  ⟨method, frame, method.name.text == Bytes.ofString "init"⟩

/-- The methods of a class by their names, if they are numbered from `first` on. -/
def Function.methodTable (first : ClosureId) (methods : List Function) : Bindings ClosureId :=
  Bindings.insertAll [] ((methods.map fun method => method.name.text).zipIdx first)

namespace Heap

/-- A heap after a method was bound: a frame holds the receiver, and a function stands in
it. -/
def bindMethod (heap : Heap) (method : ClosureId) (receiver : ObjectId) : Heap :=
  (heap.addFrame
    ⟨some (heap.closure method).frame, [((thisName 0).text, .object receiver)]⟩).addClosure
      { heap.closure method with frame := heap.frames.size }

/-- A heap after a function was declared. -/
def declareFunction (heap : Heap) (active : FrameId) (declaration : Function) : Heap :=
  (heap.addClosure ⟨declaration, active, false⟩).bindName active declaration.name.text
    (.function heap.closures.size)

/-- A heap with the class that a body in a frame makes, and its methods. -/
def addClassBody (heap : Heap) (frame : FrameId) (name : Bytes) (parent : Option ClassId)
    (methods : List Function) : Heap :=
  Heap.addClass
    { heap with closures := heap.closures ++ (methods.map (Function.asMethod frame)).toArray }
    ⟨name, parent, Function.methodTable heap.closures.size methods⟩

/-- The frame in which the body of a class is made. -/
def bodyFrame (heap : Heap) (active : FrameId) : Option ClassId → FrameId
  | none => active
  | some _ => heap.frames.size

/-- A heap with the frame of a class that has a superclass. -/
def openClass (heap : Heap) (active : FrameId) : Option ClassId → Heap
  | none => heap
  | some parent => heap.addFrame ⟨some active, [((superName 0).text, .classRef parent)]⟩

/-- A heap after a class was declared. -/
def declareClass (heap : Heap) (active : FrameId) (name : Bytes) (parent : Option ClassId)
    (methods : List Function) : Heap :=
  (((heap.bindName active name .nil).openClass active parent).addClassBody
    (heap.bodyFrame active parent) name parent methods).bindName active name
      (.classRef heap.classes.size)

end Heap

namespace Eval

theorem bind_apply (machine : Machine) (method : ClosureId) (receiver : ObjectId) :
    bind method receiver machine =
      .ok machine.heap.closures.size
        (machine.withHeap (machine.heap.bindMethod method receiver)) :=
  rfl

theorem makeMethods_apply (methods : List Function) (made : Bindings ClosureId)
    (machine : Machine) :
    makeMethods methods made machine =
      .ok (made.insertAll
          ((methods.map fun method => method.name.text).zipIdx machine.heap.closures.size))
        (machine.withHeap { machine.heap with
          closures := machine.heap.closures ++
            (methods.map (Function.asMethod machine.active)).toArray }) := by
  induction methods generalizing made machine with
  | nil => simp [makeMethods, Machine.withHeap, pure, EStateM.pure]
  | cons method rest inductionHypothesis =>
      let later := machine.withHeap (machine.heap.addClosure (method.asMethod machine.active))
      have made : makeMethods (method :: rest) made machine =
          makeMethods rest (made.insert method.name.text machine.heap.closures.size) later := rfl
      rw [made, inductionHypothesis]
      simp [later, Machine.withHeap, Heap.addClosure]

theorem makeSubclass_apply (machine : Machine) (name : Name) (parent : ClassId)
    (methods : List Function) :
    makeSubclass name parent methods machine =
      .ok machine.heap.classes.size (machine.withHeap
        ((machine.heap.openClass machine.active (some parent)).addClassBody
          machine.heap.frames.size name.text (some parent) methods)) := by
  rw [makeSubclass_eq]
  simp only [Bind.bind, EStateM.bind, get_apply, newFrame_apply, within, makeMethods_apply,
    newClass_apply]
  rfl

end Eval

/-- The class that the superclass of a class declaration names. -/
def Access.Inherits (access : Access) (machine : Machine) :
    Option (RefId × Name) → Option ClassId → Prop
  | none, parent => parent = none
  | some (reference, name), parent =>
      ∃ superclass, parent = some superclass ∧
        Eval.readVariable access reference name machine = .ok (.classRef superclass) machine

theorem Heap.holder?_declareClass {heap : Heap} {active : FrameId}
    (bound : active < heap.frames.size) (frame : FrameId) (name : Bytes) (parent : Option ClassId)
    (methods : List Function) :
    (((heap.bindName active name .nil).openClass active parent).addClassBody frame name parent
      methods).frames.holder? active name = some active := by
  apply Frames.holder?_of_binding?
  have named : ((heap.bindName active name .nil).frames.binding? active name).isSome := by
    rw [Heap.bindName, Frames.binding?_define_self name .nil bound]
    rfl
  cases parent with
  | none => exact named
  | some parent => exact (GrowsTo.addFrame _ _).names active name named

namespace Eval

variable {access : Access} {machine : Machine}

/-- A class declaration completes exactly if its superclass is a class. -/
theorem declareClass_apply {superclass : Option (RefId × Name)} {parent : Option ClassId}
    (inherits : access.Inherits machine superclass parent)
    (bound : machine.active < machine.heap.frames.size) (name : Name) (methods : List Function) :
    declareClass access name superclass methods machine =
      .ok () (machine.withHeap
        (machine.heap.declareClass machine.active name.text parent methods)) := by
  cases superclass with
  | none =>
      obtain rfl := inherits
      unfold declareClass makeClass
      simp only [Bind.bind, EStateM.bind, define_apply, makeMethods_apply, newClass_apply, get_apply]
      exact assignFrom_of_holder? _ (.classRef machine.heap.classes.size)
        (Heap.holder?_declareClass bound machine.active name.text none methods)
  | some superclass =>
      obtain ⟨reference, parentName⟩ := superclass
      obtain ⟨superclass, rfl, read⟩ := inherits
      unfold declareClass
      simp only [Bind.bind, EStateM.bind, read, define_apply, makeSubclass_apply, get_apply]
      have size : (machine.withHeap
          (machine.heap.bindName machine.active name.text .nil)).heap.frames.size =
            machine.heap.frames.size := Frames.size_define ..
      rw [size]
      exact assignFrom_of_holder? _ (.classRef machine.heap.classes.size)
        (Heap.holder?_declareClass bound machine.heap.frames.size name.text (some superclass)
          methods)

theorem lastMachine_ofDesync {α : Type} (result : Except Desync α) (machine : Machine) :
    lastMachine (ofDesync result machine) = machine := by
  cases result <;> rfl

theorem lastMachine_ofFault {α : Type} (token : Token) (result : Except Fault α)
    (machine : Machine) : lastMachine (ofFault token result machine) = machine := by
  cases result <;> rfl

/-- Reading a variable leaves the machine as it is. -/
theorem lastMachine_readVariable (access : Access) (id : RefId) (name : Name)
    (machine : Machine) : lastMachine (readVariable access id name machine) = machine := by
  unfold readVariable readRecorded
  cases access.mode with
  | searched => exact lastMachine_ofFault _ _ machine
  | recorded =>
      cases access.table[id]? with
      | none => exact lastMachine_ofFault _ _ machine
      | some distance => exact lastMachine_ofDesync _ machine

/-- A class declaration whose superclass is not a class leaves the machine as it is. -/
theorem declareClass_of_not_inherits {superclass : Option (RefId × Name)}
    (fails : ∀ parent, ¬ access.Inherits machine superclass parent) (name : Name)
    (methods : List Function) :
    ∃ stop, declareClass access name superclass methods machine = .error stop machine := by
  cases superclass with
  | none => exact absurd rfl (fails none)
  | some superclass =>
      obtain ⟨reference, parentName⟩ := superclass
      have same := lastMachine_readVariable access reference parentName machine
      unfold declareClass
      simp only [Bind.bind, EStateM.bind]
      cases read : readVariable access reference parentName machine with
      | error stop after =>
          rw [read] at same
          exact ⟨stop, congrArg _ same⟩
      | ok value after =>
          rw [read] at same
          obtain rfl : after = machine := same
          cases value with
          | classRef superclass => exact absurd ⟨superclass, rfl, read⟩ (fails (some superclass))
          | _ => exact ⟨_, rfl⟩

end Eval

namespace Heap

variable (heap : Heap) (active : FrameId) (name : Bytes) (parent : Option ClassId)
  (methods : List Function)

/-- The one function that is new. -/
theorem closure_eq_of_push {later : Heap} {made : Closure} {id : ClosureId}
    (pushed : later.closures = heap.closures.push made) (absent : heap.closures.size ≤ id)
    (present : id < later.closures.size) : later.closure id = made := by
  rw [pushed, Array.size_push] at present
  obtain rfl : id = heap.closures.size := Nat.le_antisymm (Nat.le_of_lt_succ present) absent
  rw [← closure_addClosure_size heap made]
  unfold closure
  rw [pushed]
  rfl

theorem closures_declareClass :
    (heap.declareClass active name parent methods).closures =
      heap.closures ++ (methods.map (Function.asMethod (heap.bodyFrame active parent))).toArray := by
  cases parent <;> rfl

/-- Methods are numbered in the order of their declarations. -/
theorem closure_declareClass {method : Function} {id : ClosureId}
    (numbered : (method, id) ∈ methods.zipIdx heap.closures.size) :
    (heap.declareClass active name parent methods).closure id =
      method.asMethod (heap.bodyFrame active parent) := by
  obtain ⟨later, found⟩ := List.mk_mem_zipIdx_iff_le_and_getElem?_sub.mp numbered
  unfold closure
  rw [closures_declareClass, Array.getD_eq_getD_getElem?, Array.getElem?_append_right later]
  simp [found]

theorem exists_numbered {id : ClosureId} (absent : heap.closures.size ≤ id)
    (present : id < (heap.declareClass active name parent methods).closures.size) :
    ∃ method, (method, id) ∈ methods.zipIdx heap.closures.size := by
  have size : (heap.declareClass active name parent methods).closures.size =
      heap.closures.size + methods.length := by
    simp [closures_declareClass]
  rw [size] at present
  have room : id - heap.closures.size < methods.length := Nat.sub_lt_left_of_lt_add absent present
  exact ⟨methods[id - heap.closures.size],
    List.mk_mem_zipIdx_iff_le_and_getElem?_sub.mpr ⟨absent, List.getElem?_eq_getElem room⟩⟩

theorem classes_declareClass :
    (heap.declareClass active name parent methods).classes =
      heap.classes.push ⟨name, parent, Function.methodTable heap.closures.size methods⟩ := by
  cases parent <;> rfl

/-- The frame of a class with a superclass holds the superclass and nothing else. -/
theorem binding?_declareClass {active : FrameId} (bound : active < heap.frames.size)
    (superclass : ClassId) (text : Bytes) :
    (heap.declareClass active name (some superclass) methods).frames.binding?
        heap.frames.size text =
      Bindings.get? [((superName 0).text, .classRef superclass)] text := by
  have size : Array.size (heap.frames.define active name .nil) = heap.frames.size :=
    Frames.size_define ..
  have other : heap.frames.size ≠ active := (Nat.ne_of_lt bound).symm
  refine (Frames.binding?_define_of_ne _ _ fun same => other same.1).trans ?_
  exact (Frames.binding?_push _ _ _ _).trans (if_pos size.symm)

theorem enclosing?_declareClass (superclass : ClassId) :
    (heap.declareClass active name (some superclass) methods).frames.enclosing?
        heap.frames.size = some active := by
  have size : Array.size (heap.frames.define active name .nil) = heap.frames.size :=
    Frames.size_define ..
  refine (Frames.enclosing?_define ..).trans ?_
  exact (Frames.enclosing?_push _ _ _).trans (if_pos size.symm)

/-- The frame of a bound method holds the receiver and nothing else. -/
theorem binding?_bindMethod (method : ClosureId) (receiver : ObjectId) (text : Bytes) :
    (heap.bindMethod method receiver).frames.binding? heap.frames.size text =
      Bindings.get? [((thisName 0).text, .object receiver)] text :=
  (Frames.binding?_push _ _ _ _).trans (if_pos rfl)

theorem enclosing?_bindMethod (method : ClosureId) (receiver : ObjectId) :
    (heap.bindMethod method receiver).frames.enclosing? heap.frames.size =
      some (heap.closure method).frame :=
  (Frames.enclosing?_push _ _ _).trans (if_pos rfl)

theorem closure_bindMethod (method : ClosureId) (receiver : ObjectId) :
    (heap.bindMethod method receiver).closure heap.closures.size =
      { heap.closure method with frame := heap.frames.size } :=
  closure_eq_of_push heap rfl (Nat.le_refl _) (by simp [bindMethod, addClosure, addFrame])

end Heap

/-- Of two methods of one name the later counts. -/
theorem Function.get?_methodTable (first : ClosureId) (methods : List Function) (name : Bytes) :
    (Function.methodTable first methods).get? name =
      ((methods.zipIdx first).reverse.find? fun numbered => numbered.1.name.text = name).map
        Prod.snd := by
  induction methods using List.reverseRecOn with
  | nil => rfl
  | append_singleton earlier last inductionHypothesis =>
      unfold methodTable at *
      rw [List.map_append, List.zipIdx_append, List.zipIdx_append, List.reverse_append,
        Bindings.insertAll, List.foldl_append]
      simp only [List.map_cons, List.map_nil, List.zipIdx_cons, List.zipIdx_nil, List.foldl_cons,
        List.foldl_nil, List.reverse_cons, List.reverse_nil, List.nil_append, List.cons_append,
        List.find?_cons, List.length_map]
      by_cases same : last.name.text = name
      · subst same
        simp
      · rw [Bindings.get?_insert_of_ne _ _ (Ne.symm same)]
        simpa [same] using inductionHypothesis

theorem Heap.classOf_declareClass (heap : Heap) (active : FrameId) (name : Bytes)
    (parent : Option ClassId) (methods : List Function) :
    (heap.declareClass active name parent methods).classOf heap.classes.size =
      ⟨name, parent, Function.methodTable heap.closures.size methods⟩ := by
  unfold classOf
  rw [classes_declareClass, Array.getD_eq_getD_getElem?, Array.getElem?_push_size]
  rfl

/-- A class has the last method that its body declares for a name. -/
theorem Heap.ownMethod?_declareClass (heap : Heap) (active : FrameId) (name : Bytes)
    (parent : Option ClassId) (methods : List Function) (wanted : Bytes) :
    let later := heap.declareClass active name parent methods
    (later.ownMethod? wanted heap.classes.size).map (fun id => (later.closure id).declaration) =
      methods.reverse.find? fun method => method.name.text = wanted := by
  intro later
  have listed : methods.reverse = (methods.zipIdx heap.closures.size).reverse.map Prod.fst := by
    rw [List.map_reverse, List.zipIdx_map_fst]
  rw [ownMethod?, classOf_declareClass, Function.get?_methodTable, listed, List.find?_map,
    Option.map_map]
  refine Option.map_congr fun numbered isFound => ?_
  have member := List.mem_reverse.mp (List.mem_of_find?_eq_some isFound)
  have made := heap.closure_declareClass active name parent methods member
  exact congrArg Closure.declaration made

/-- The tasks that make functions and classes. -/
def Task.isMaker : Task → Bool
  | .bind _ _ => true
  | .execute (.function _) => true
  | .execute (.classDecl _ _ _) => true
  | _ => false

/-- The heaps that a maker can leave. -/
inductive Activity.Makes (activity : Activity) : Heap → Prop where
  | nothing : Makes activity activity.machine.heap
  | bound {method : ClosureId} {receiver : ObjectId} :
      activity.task = .bind method receiver →
        Makes activity (activity.machine.heap.bindMethod method receiver)
  | function {declaration : Function} :
      activity.task = .execute (.function declaration) →
        Makes activity (activity.machine.heap.declareFunction activity.machine.active declaration)
  | classDecl {name : Name} {superclass : Option (RefId × Name)} {methods : List Function}
      {parent : Option ClassId} :
      activity.task = .execute (.classDecl name superclass methods) →
      activity.access.Inherits activity.machine superclass parent →
        Makes activity (activity.machine.heap.declareClass activity.machine.active name.text
          parent methods)

theorem this_not_isOrdinary : ¬ IsOrdinary (thisName 0).text :=
  fun ordinary => ordinary.1 rfl

theorem super_not_isOrdinary : ¬ IsOrdinary (superName 0).text :=
  fun ordinary => ordinary.2 rfl

namespace Conforms

variable {code : Code} {layout : Layout} {heap : Heap} {frame : FrameId} {name : Bytes}

/-- A frame with a receiver or a superclass is laid out for nothing else. -/
theorem layout_eq_of_reserved (conforms : Conforms code layout heap)
    (reserved : ¬ IsOrdinary name) (bound : (heap.frames.binding? frame name).isSome) :
    frame ≠ Heap.globals ∧ layout frame = [name] := by
  have inside : frame ≠ Heap.globals := by
    intro isGlobal
    rw [isGlobal] at bound
    exact reserved (conforms.globals name bound)
  have separate := conforms.separate frame (Frames.lt_size_of_binding? bound) inside
  have member := conforms.names frame name inside bound
  refine ⟨inside, ?_⟩
  by_cases isThis : name = (thisName 0).text
  · subst isThis
    exact separate.receiver member
  · by_cases isSuper : name = (superName 0).text
    · subst isSuper
      exact separate.superclass member
    · exact absurd ⟨isThis, isSuper⟩ reserved

/-- A frame that binds a receiver or a superclass binds nothing else. -/
theorem eq_of_reserved (conforms : Conforms code layout heap) {other : Bytes}
    (reserved : ¬ IsOrdinary name) (bound : (heap.frames.binding? frame name).isSome)
    (found : (heap.frames.binding? frame other).isSome) : other = name := by
  obtain ⟨inside, laid⟩ := conforms.layout_eq_of_reserved reserved bound
  have member := conforms.names frame other inside found
  rw [laid] at member
  exact List.mem_singleton.mp member

end Conforms

/-- A declaration stands in a frame that binds neither a receiver nor a superclass. -/
theorem Activity.IsSound.ordinary_active {code : Code} {activity : Activity}
    (sound : activity.IsSound code) {statement : Stmt} {declared : Bytes}
    (task : activity.task = .execute statement) (declares : declared ∈ statement.declares) :
    activity.machine.active < activity.machine.heap.frames.size ∧
      ∀ name, (activity.machine.heap.frames.binding? activity.machine.active name).isSome →
        IsOrdinary name := by
  obtain ⟨-, layout, conforms, sound⟩ := sound
  rw [task] at sound
  obtain ⟨around, fits, accepts⟩ := sound
  refine ⟨fits.lt_size conforms, fun name bound => ?_⟩
  by_contra reserved
  obtain ⟨inside, laid⟩ := conforms.layout_eq_of_reserved reserved bound
  have member : declared ∈ [name] := laid ▸ Fits.mem_layout fits accepts.allows declares inside
  rw [← List.mem_singleton.mp member] at reserved
  exact reserved (accepts.regular.ordinary_of_declares declared declares)

/-- What a maker leaves. -/
theorem Activity.IsSound.makes {code : Code} {activity : Activity}
    (sound : activity.IsSound code) (isMaker : activity.task.isMaker = true) :
    activity.Makes activity.final.heap := by
  obtain ⟨access, fuel, task, machine⟩ := activity
  cases task with
  | bind method receiver => exact .bound rfl
  | execute statement =>
      cases fuel with
      | zero => exact .nothing
      | succ fuel =>
          cases statement with
          | function declaration => exact .function rfl
          | classDecl name superclass methods =>
              have within := (sound.ordinary_active rfl (List.mem_singleton_self _)).1
              simp only [Activity.final, Eval.execute, Bind.bind, EStateM.bind]
              by_cases inherits : ∃ parent, access.Inherits machine superclass parent
              · obtain ⟨parent, inherits⟩ := inherits
                rw [Eval.declareClass_apply inherits within]
                exact .classDecl rfl inherits
              · obtain ⟨stop, fails⟩ := Eval.declareClass_of_not_inherits
                  (fun parent found => inherits ⟨parent, found⟩) name methods
                rw [fails]
                exact .nothing
          | _ => cases isMaker
  | _ => cases isMaker

/-- A class declaration that completes has made its class. -/
theorem Activity.IsSound.final_of_classDecl {code : Code} {activity : Activity}
    (sound : activity.IsSound code) {name : Name} {superclass : Option (RefId × Name)}
    {methods : List Function} {completion : Completion} {after : Machine}
    (task : activity.task = .execute (.classDecl name superclass methods))
    (completed : Eval.execute activity.access activity.fuel (.classDecl name superclass methods)
      activity.machine = .ok completion after) :
    ∃ parent, activity.access.Inherits activity.machine superclass parent ∧
      activity.final.heap = activity.machine.heap.declareClass activity.machine.active name.text
        parent methods := by
  have within := (sound.ordinary_active task (List.mem_singleton_self _)).1
  obtain ⟨access, fuel, _, machine⟩ := activity
  subst task
  cases fuel with
  | zero => cases completed
  | succ fuel =>
      simp only [Activity.final, Eval.execute, Bind.bind, EStateM.bind] at completed ⊢
      by_cases inherits : ∃ parent, access.Inherits machine superclass parent
      · obtain ⟨parent, inherits⟩ := inherits
        rw [Eval.declareClass_apply inherits within]
        exact ⟨parent, inherits, rfl⟩
      · obtain ⟨stop, fails⟩ := Eval.declareClass_of_not_inherits
          (fun parent found => inherits ⟨parent, found⟩) name methods
        rw [fails] at completed
        cases completed

end LoxLang
