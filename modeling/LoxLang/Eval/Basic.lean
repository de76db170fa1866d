import LoxLang.Eval.Machine
import LoxLang.Value.Operators

/-!
Evaluation.  Expressions yield values and statements complete normally or by
returning.  Every function takes a bound on the nesting and repetition still
allowed, and an execution that reaches it says so.
-/

namespace LoxLang

/-- How variables are reached: at their recorded distance, or by a search
along the chain of the active frame. -/
inductive Access.Mode where
  | recorded
  | searched
deriving DecidableEq, Repr

/-- The recorded distances and how variables are reached. -/
structure Access where
  table : Resolution
  mode : Access.Mode := .recorded

namespace Eval

/-- Read a name at its recorded distance; one without a record is global. -/
def readRecorded (access : Access) (id : RefId) (token : Token) : Eval Value :=
  match access.table[id]? with
  | some distance => readAt distance token.lexeme
  | none => readFrom Heap.globals token

def readVariable (access : Access) (id : RefId) (name : Name) : Eval Value :=
  match access.mode with
  | .recorded => readRecorded access id name.token
  | .searched => do readFrom (← get).active name.token

def assignVariable (access : Access) (id : RefId) (name : Name) (value : Value) : Eval Unit :=
  match access.mode with
  | .recorded =>
      match access.table[id]? with
      | some distance => assignAt distance name.text value
      | none => assignFrom Heap.globals name value
  | .searched => do assignFrom (← get).active name value

def thisToken (line : Nat) : Token :=
  ⟨.thisWord, (thisName line).text, none, line⟩

/-- Read a method of the superclass, bound to the receiver.  The receiver
stands in the frame just inside the one that holds the superclass. -/
def readSuper (access : Access) (id : RefId) (method : Name) : Eval Value := do
  let distance : Int := (access.table[id]?.getD 0 : Nat)
  let .classRef superclass ← readAt distance (superName 0).text
    | throw (.desync .superNotClass)
  let .object receiver ← readAt (distance - 1) (thisName 0).text
    | throw (.desync .thisNotInstance)
  match (← get).heap.findMethod? superclass method.text with
  | some found => return .function (← bind found receiver)
  | none => fail (.undefinedProperty method.text) method.token

/-- The first operand alone decides a logical operation. -/
def decides : LogicalOp → Value → Bool
  | .or, value => value.isTruthy
  | .and, value => !value.isTruthy

/-- Make the functions of a class body in the active frame.  Of two methods of
one name the later counts. -/
def makeMethods : List Function → Bindings ClosureId → Eval (Bindings ClosureId)
  | [], made => return made
  | method :: rest, made => do
      let name := method.name.text
      let id ← newClosure ⟨method, (← get).active, name == Bytes.ofString "init"⟩
      makeMethods rest (made.insert name id)

/-- Make a class whose methods see `super` in a frame of its own. -/
def makeSubclass (name : Name) (superclass : ClassId) (methods : List Function) :
    Eval ClassId := do
  let outer := (← get).active
  let frame ← newFrame outer [((superName 0).text, .classRef superclass)]
  modify fun machine => { machine with active := frame }
  let made ← makeMethods methods []
  let id ← newClass ⟨name.text, some superclass, made⟩
  modify fun machine => { machine with active := outer }
  return id

def makeClass (name : Name) (methods : List Function) : Eval ClassId := do
  let made ← makeMethods methods []
  newClass ⟨name.text, none, made⟩

/-- Declare a class: its name is bound before its body is made. -/
def declareClass (access : Access) (name : Name) (superclass : Option (RefId × Name))
    (methods : List Function) : Eval Unit := do
  match superclass with
  | none =>
      define name.text .nil
      let id ← makeClass name methods
      assignFrom (← get).active name (.classRef id)
  | some (reference, parent) =>
      let .classRef parentId ← readVariable access reference parent
        | fail .superclassNotClass parent.token
      define name.text .nil
      let id ← makeSubclass name parentId methods
      assignFrom (← get).active name (.classRef id)

mutual

def evaluate (access : Access) : Nat → Expr → Eval Value
  | 0, _ => throw .outOfFuel
  | fuel + 1, expression => do
      match expression with
      | .literal value => return value.value
      | .read id name => readVariable access id name
      | .assign id name value =>
          let result ← evaluate access fuel value
          assignVariable access id name result
          return result
      | .unary op line operand =>
          let value ← evaluate access fuel operand
          ofFault (op.token line) (op.apply value)
      | .binary op line left right =>
          let leftValue ← evaluate access fuel left
          let rightValue ← evaluate access fuel right
          ofFault (op.token line) (op.apply leftValue rightValue)
      | .logical op left right =>
          let leftValue ← evaluate access fuel left
          if decides op leftValue then return leftValue else evaluate access fuel right
      | .group inner => evaluate access fuel inner
      | .call callee arguments line =>
          let function ← evaluate access fuel callee
          let values ← evaluateAll access fuel arguments
          call access fuel function values line
      | .get object name =>
          let .object id ← evaluate access fuel object
            | fail .propertyOfNonInstance name.token
          getProperty id name
      | .set object name value =>
          let .object id ← evaluate access fuel object
            | fail .fieldOfNonInstance name.token
          let result ← evaluate access fuel value
          setField id name.text result
          return result
      | .self id line => readRecorded access id (thisToken line)
      | .superMethod id _ method => readSuper access id method

/-- Values of expressions from left to right. -/
def evaluateAll (access : Access) : Nat → List Expr → Eval (List Value)
  | 0, _ => throw .outOfFuel
  | _ + 1, [] => return []
  | fuel + 1, first :: rest => do
      let value ← evaluate access fuel first
      return value :: (← evaluateAll access fuel rest)

/-- Call a value at the closing parenthesis on a line. -/
def call (access : Access) : Nat → Value → List Value → Nat → Eval Value
  | 0, _, _, _ => throw .outOfFuel
  | fuel + 1, function, arguments, line => do
      let token : Token := ⟨.rightParen, Bytes.ofString ")", none, line⟩
      let machine ← get
      match machine.heap.arity? function with
      | none => fail .notCallable token
      | some arity =>
          if arguments.length ≠ arity then
            fail (.argumentCount arity arguments.length) token
          else if maxCallDepth ≤ machine.depth then
            fail .stackOverflow token
          else
            counted (apply access fuel function arguments)

/-- Run a callable value on as many arguments as it takes. -/
def apply (access : Access) : Nat → Value → List Value → Eval Value
  | 0, _, _ => throw .outOfFuel
  | fuel + 1, function, arguments => do
      match function with
      | .native function => callNative function
      | .function id => invoke access fuel id arguments
      | .classRef id =>
          let object ← newObject id
          match (← get).heap.initializer? id with
          | some method =>
              let bound ← bind method object
              let _ ← invoke access fuel bound arguments
              return .object object
          | none => return .object object
      | _ => return .nil

/-- Run the body of a function in a new frame that binds its parameters.  An
initializer yields its instance, whatever its body does. -/
def invoke (access : Access) : Nat → ClosureId → List Value → Eval Value
  | 0, _, _ => throw .outOfFuel
  | fuel + 1, id, arguments => do
      let closure := (← get).heap.closure id
      let names := closure.declaration.parameters.map Name.text
      if names.length ≠ arguments.length then
        throw (.desync (.argumentMismatch names.length arguments.length))
      let bindings := (names.zip arguments).foldl
        (fun (bound : Bindings Value) (name, value) => bound.insert name value) []
      let frame ← newFrame closure.frame bindings
      let completion ← within frame (executeAll access fuel closure.declaration.body)
      if closure.isInitializer then
        ofDesync ((← get).heap.frames.getAt closure.frame 0 (thisName 0).text)
      else
        match completion with
        | .returned value => return value
        | .normal => return .nil

def execute (access : Access) : Nat → Stmt → Eval Completion
  | 0, _ => throw .outOfFuel
  | fuel + 1, statement => do
      match statement with
      | .expression value _ =>
          let _ ← evaluate access fuel value
          return .normal
      | .print value =>
          printLine (← evaluate access fuel value)
          return .normal
      | .declare name initial =>
          let value ← match initial with
            | some initial => evaluate access fuel initial
            | none => pure .nil
          define name.text value
          return .normal
      | .block body =>
          let frame ← newFrame (← get).active []
          within frame (executeAll access fuel body)
      | .branch condition consequence alternative =>
          if (← evaluate access fuel condition).isTruthy then
            execute access fuel consequence
          else
            match alternative with
            | some alternative => execute access fuel alternative
            | none => return .normal
      | .loop condition body => executeLoop access fuel condition body
      | .function declaration =>
          let id ← newClosure ⟨declaration, (← get).active, false⟩
          define declaration.name.text (.function id)
          return .normal
      | .leave _ value =>
          match value with
          | some value => return .returned (← evaluate access fuel value)
          | none => return .returned .nil
      | .classDecl name superclass methods =>
          declareClass access name superclass methods
          return .normal

/-- Statements in order, up to the first that returns. -/
def executeAll (access : Access) : Nat → List Stmt → Eval Completion
  | 0, _ => throw .outOfFuel
  | _ + 1, [] => return .normal
  | fuel + 1, first :: rest => do
      match ← execute access fuel first with
      | .normal => executeAll access fuel rest
      | .returned value => return .returned value

/-- A body as long as a condition holds, up to a return. -/
def executeLoop (access : Access) : Nat → Expr → Stmt → Eval Completion
  | 0, _, _ => throw .outOfFuel
  | fuel + 1, condition, body => do
      if (← evaluate access fuel condition).isTruthy then
        match ← execute access fuel body with
        | .normal => executeLoop access fuel condition body
        | .returned value => return .returned value
      else
        return .normal

end

/-- Run a statement of the top level.  In interactive use a marked expression
statement shows its value. -/
def executeTopLevel (access : Access) (fuel : Nat) (interactive : Bool) : Stmt → Eval Unit
  | .expression value echo => do
      if interactive && echo then
        printLine (← evaluate access fuel value)
      else
        let _ ← execute access fuel (.expression value echo)
  | statement => do
      let _ ← execute access fuel statement

def interpret (access : Access) (fuel : Nat) (interactive : Bool) : List Stmt → Eval Unit
  | [] => return ()
  | first :: rest => do
      executeTopLevel access fuel interactive first
      interpret access fuel interactive rest

end Eval

end LoxLang
