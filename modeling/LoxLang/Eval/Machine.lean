import LoxLang.Heap.Basic
import LoxLang.Input
import LoxLang.Scope.Resolve

/-!
The state of an execution and the steps that change it.  The active frame and
the call depth are part of the state: entering a block or a call changes them,
and leaving it by any way changes them back.
-/

namespace LoxLang

structure Machine where
  heap : Heap
  /-- The innermost frame of the code that runs. -/
  active : FrameId
  depth : Nat
  input : Input
  printed : Array Bytes
  /-- The readings of the clock, and how many were taken. -/
  clock : Nat → Float
  ticks : Nat

def Machine.initial (input : Input) (clock : Nat → Float) : Machine where
  heap := .initial
  active := Heap.globals
  depth := 0
  input := input
  printed := #[]
  clock := clock
  ticks := 0

/-- What ends an execution early. -/
inductive Stop where
  | fault (error : RuntimeError)
  | desync (cause : Desync)
  /-- The bound on the number of steps was reached. -/
  | outOfFuel
deriving DecidableEq

/-- How a statement ends: by reaching its end, or by returning a value from
the function around it. -/
inductive Completion where
  | normal
  | returned (value : Value)
deriving DecidableEq

/-- Computations on a machine.  What stops one keeps the machine. -/
abbrev Eval := EStateM Stop Machine

/-- No program nests more calls than this. -/
def maxCallDepth : Nat := 10000

namespace Eval

variable {α : Type}

def fail (fault : Fault) (token : Token) : Eval α :=
  throw (.fault ⟨fault, token⟩)

def ofFault (token : Token) : Except Fault α → Eval α
  | .ok value => pure value
  | .error fault => fail fault token

def ofDesync : Except Desync α → Eval α
  | .ok value => pure value
  | .error cause => throw (.desync cause)

/-- Run an action in a frame, and go back to the frame before it however the
action ends. -/
@[inline]
def within (frame : FrameId) (action : Eval α) : Eval α := fun machine =>
  let before := machine.active
  match action { machine with active := frame } with
  | .ok value after => .ok value { after with active := before }
  | .error stop after => .error stop { after with active := before }

/-- Count a call as under way while an action runs, however it ends. -/
@[inline]
def counted (action : Eval α) : Eval α := fun machine =>
  match action { machine with depth := machine.depth + 1 } with
  | .ok value after => .ok value { after with depth := after.depth - 1 }
  | .error stop after => .error stop { after with depth := after.depth - 1 }

@[inline]
def modifyFrames (change : Frames → Frames) : Eval Unit :=
  modify fun machine =>
    { machine with heap := { machine.heap with frames := change machine.heap.frames } }

/-- A new frame inside another, with its bindings. -/
def newFrame (enclosing : FrameId) (bindings : Bindings Value) : Eval FrameId :=
  modifyGet fun machine =>
    (machine.heap.frames.size,
      { machine with heap :=
        { machine.heap with frames := Array.push machine.heap.frames ⟨some enclosing, bindings⟩ } })

def define (name : Bytes) (value : Value) : Eval Unit := do
  let frame := (← get).active
  modifyFrames (·.define frame name value)

/-- Rebind a name where the chain from a frame binds it innermost. -/
def assignFrom (frame : FrameId) (name : Name) (value : Value) : Eval Unit := do
  match (← get).heap.frames.holder? frame name.text with
  | some holder => modifyFrames (·.define holder name.text value)
  | none => fail (.undefinedVariable name.text) name.token

/-- Bind a name in the frame at a distance from the active one. -/
def assignAt (distance : Nat) (name : Bytes) (value : Value) : Eval Unit := do
  let machine ← get
  let holder ← ofDesync (machine.heap.frames.ancestor machine.active distance)
  modifyFrames (·.define holder name value)

/-- Read a name in the frame at a distance from the active one. -/
def readAt (distance : Int) (name : Bytes) : Eval Value := do
  let machine ← get
  ofDesync (machine.heap.frames.getAt machine.active distance name)

/-- Look a name up along the chain from a frame. -/
def readFrom (frame : FrameId) (token : Token) : Eval Value := do
  ofFault token ((← get).heap.frames.get frame token.lexeme)

def newClosure (closure : Closure) : Eval ClosureId :=
  modifyGet fun machine =>
    (machine.heap.closures.size,
      { machine with heap :=
        { machine.heap with closures := machine.heap.closures.push closure } })

def newClass (type : Class) : Eval ClassId :=
  modifyGet fun machine =>
    (machine.heap.classes.size,
      { machine with heap := { machine.heap with classes := machine.heap.classes.push type } })

def newObject (type : ClassId) : Eval ObjectId :=
  modifyGet fun machine =>
    (machine.heap.objects.size,
      { machine with heap :=
        { machine.heap with objects := machine.heap.objects.push ⟨type, []⟩ } })

def setField (id : ObjectId) (name : Bytes) (value : Value) : Eval Unit :=
  modify fun machine =>
    { machine with heap :=
      { machine.heap with objects :=
        machine.heap.objects.modify id fun object =>
          { object with fields := object.fields.insert name value } } }

/-- A method whose `this` is an instance: a copy of it inside a new frame that
holds only `this`. -/
def bind (method : ClosureId) (receiver : ObjectId) : Eval ClosureId := do
  let declared := (← get).heap.closure method
  let frame ← newFrame declared.frame [((thisName 0).text, .object receiver)]
  newClosure { declared with frame := frame }

/-- Read a property: a field, or else a method of the class. -/
def getProperty (id : ObjectId) (name : Name) : Eval Value := do
  let heap := (← get).heap
  let object := heap.object id
  match object.fields.get? name.text with
  | some value => return value
  | none =>
      match heap.findMethod? object.type name.text with
      | some method => return .function (← bind method id)
      | none => fail (.undefinedProperty name.text) name.token

def printLine (value : Value) : Eval Unit :=
  modify fun machine =>
    { machine with printed := machine.printed.push (machine.heap.display value) }

/-- The value of one line of input: a number if the line is a numeral in
range, else the line itself, without the marks that end it. -/
def lineValue (line : Bytes) : Value :=
  let text := line.trimEndWhile fun byte => byte == 13 || byte == Bytes.lineFeed
  match Number.readFinite? text with
  | some value => .number value
  | none => .string text

def callNative : Native → Eval Value
  | .clock => modifyGet fun machine =>
      (.number (machine.clock machine.ticks), { machine with ticks := machine.ticks + 1 })
  | .input => modifyGet fun machine =>
      match machine.input.readLine? with
      | none => (.nil, machine)
      | some (line, input) => (lineValue line, { machine with input := input })

end Eval

end LoxLang
