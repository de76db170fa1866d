import LoxLang.Heap.Frames
import LoxLang.Program.Basic

/-!
The heap: frames, functions, classes and instances, each kind numbered in the
order of creation.  Nothing is ever removed, and only frame bindings and
instance fields change.
-/

namespace LoxLang

/-- A function value: its declaration and the frame it was made in. -/
structure Closure where
  declaration : Function
  frame : FrameId
  isInitializer : Bool

structure Class where
  name : Bytes
  superclass : Option ClassId
  methods : Bindings ClosureId

structure Object where
  type : ClassId
  fields : Bindings Value

structure Heap where
  frames : Frames
  closures : Array Closure
  classes : Array Class
  objects : Array Object

namespace Heap

/-- The frame that every chain ends in. -/
def globals : FrameId := 0

/-- The heap of a new session: the global frame with the native functions. -/
def initial : Heap where
  frames := #[⟨none, [(Bytes.ofString "clock", .native .clock),
    (Bytes.ofString "input", .native .input)]⟩]
  closures := #[]
  classes := #[]
  objects := #[]

def closure (heap : Heap) (id : ClosureId) : Closure :=
  heap.closures.getD id ⟨.mk ⟨[], 0⟩ [] [], globals, false⟩

def classOf (heap : Heap) (id : ClassId) : Class :=
  heap.classes.getD id ⟨[], none, []⟩

def object (heap : Heap) (id : ObjectId) : Object :=
  heap.objects.getD id ⟨0, []⟩

/-- A class and its superclasses from the nearest on, at most `bound` of
them. -/
def lineageWithin (heap : Heap) : Nat → ClassId → List ClassId
  | 0, _ => []
  | bound + 1, id =>
      match (heap.classOf id).superclass with
      | none => [id]
      | some parent => id :: lineageWithin heap bound parent

/-- A class and its superclasses from the nearest on.  A superclass is older
than its subclass, which bounds their number. -/
def lineage (heap : Heap) (id : ClassId) : List ClassId :=
  heap.lineageWithin (id + 1) id

/-- The method of the nearest class that declares the name. -/
def findMethod? (heap : Heap) (id : ClassId) (name : Bytes) : Option ClosureId :=
  (heap.lineage id).findSome? fun candidate => (heap.classOf candidate).methods.get? name

/-- The method that initializes the instances of a class. -/
def initializer? (heap : Heap) (id : ClassId) : Option ClosureId :=
  heap.findMethod? id (Bytes.ofString "init")

/-- How many arguments a callable value takes. -/
def arity? (heap : Heap) : Value → Option Nat
  | .native _ => some 0
  | .function id => some (heap.closure id).declaration.parameters.length
  | .classRef id =>
      match heap.initializer? id with
      | some method => some (heap.closure method).declaration.parameters.length
      | none => some 0
  | _ => none

def display (heap : Heap) : Value → Bytes
  | .nil => Literal.nil.display
  | .bool value => (Literal.bool value).display
  | .number value => Number.display value
  | .string text => text
  | .native _ => Bytes.ofString "<native fn>"
  | .function id =>
      Bytes.ofString "<fn " ++ (heap.closure id).declaration.name.text ++ Bytes.ofString ">"
  | .classRef id => (heap.classOf id).name
  | .object id => (heap.classOf (heap.object id).type).name ++ Bytes.ofString " instance"

end Heap

end LoxLang
