import LoxLang.Bindings
import LoxLang.Diagnostic
import LoxLang.Program.References
import Std.Data.HashMap

/-!
Scope resolution.  A walk over the tree keeps the stack of open local scopes,
records for every reference how many scopes lie between it and the innermost
one that holds its name, and reports violations of the scope rules.  Names that
no open scope holds are global and stay unrecorded.
-/

namespace LoxLang

/-- For each resolved reference, how many scopes out its name is held. -/
abbrev Resolution := Std.HashMap RefId Nat

namespace Scope

/-- The names of one scope.  A name is marked once its initial value is
complete. -/
abbrev Names := Bindings Bool

/-- The function that encloses a place. -/
inductive InFunction where
  | none | function | initializer | method
deriving DecidableEq, Repr

/-- The class that encloses a place. -/
inductive InClass where
  | none | plain | subclass
deriving DecidableEq, Repr

/-- What encloses a place, beside the open scopes. -/
structure Context where
  function : InFunction := .none
  inClass : InClass := .none
deriving DecidableEq, Repr

/-- The open scopes from the innermost outward, the record, and the errors so
far. -/
structure State where
  scopes : List Names
  table : Resolution
  errors : List Diagnostic

/-- How many scopes out the innermost holder of a name is. -/
def distance? (text : Bytes) (scopes : List Names) : Option Nat :=
  scopes.findIdx? fun names => (names.get? text).isSome

namespace State

def report (state : State) (name : Name) (cause : Diagnostic.Cause) : State :=
  { state with errors := state.errors ++ [⟨cause, name.line, .atLexeme name.text⟩] }

def enter (state : State) (names : Names) : State :=
  { state with scopes := names :: state.scopes }

def leave (state : State) : State :=
  { state with scopes := state.scopes.tail }

/-- Put a name into the innermost scope; at top level names are global. -/
def put (state : State) (text : Bytes) (complete : Bool) : State :=
  match state.scopes with
  | [] => state
  | names :: outer => { state with scopes := names.insert text complete :: outer }

/-- A scope holds a name once. -/
def declare (state : State) (name : Name) : State :=
  match state.scopes with
  | [] => state
  | names :: _ =>
      let state :=
        if (names.get? name.text).isSome then state.report name .alreadyDeclared else state
      state.put name.text false

def define (state : State) (name : Name) : State :=
  state.put name.text true

/-- Declare a name whose value is complete at once. -/
def introduce (state : State) (name : Name) : State :=
  (state.declare name).define name

/-- Record how far out a reference's name is held. -/
def bind (state : State) (id : RefId) (text : Bytes) : State :=
  match distance? text state.scopes with
  | some distance => { state with table := state.table.insert id distance }
  | none => state

/-- The innermost scope holds the name, and its initial value is not
complete. -/
def isIncomplete (state : State) (text : Bytes) : Bool :=
  match state.scopes with
  | [] => false
  | names :: _ => names.get? text == some false

def read (state : State) (id : RefId) (name : Name) : State :=
  let state :=
    if state.isIncomplete name.text then state.report name .readInOwnInitializer else state
  state.bind id name.text

end State

mutual

def resolveExpr (context : Context) : Expr → State → State
  | .literal _, state => state
  | .read id name, state => state.read id name
  | .assign id name value, state => (resolveExpr context value state).bind id name.text
  | .unary _ _ operand, state => resolveExpr context operand state
  | .binary _ _ left right, state =>
      resolveExpr context right (resolveExpr context left state)
  | .logical _ left right, state =>
      resolveExpr context right (resolveExpr context left state)
  | .group inner, state => resolveExpr context inner state
  | .call callee arguments _, state =>
      resolveExprs context arguments (resolveExpr context callee state)
  | .get object _, state => resolveExpr context object state
  | .set object _ value, state =>
      resolveExpr context object (resolveExpr context value state)
  | .self id line, state =>
      if context.inClass = .none then
        state.report (thisName line) .thisOutsideClass
      else
        state.bind id (thisName line).text
  | .superMethod id line _, state =>
      let state := match context.inClass with
        | .none => state.report (superName line) .superOutsideClass
        | .plain => state.report (superName line) .superWithoutSuperclass
        | .subclass => state
      state.bind id (superName line).text

def resolveExprs (context : Context) : List Expr → State → State
  | [], state => state
  | first :: rest, state => resolveExprs context rest (resolveExpr context first state)

end

def resolveOption (context : Context) : Option Expr → State → State
  | none, state => state
  | some value, state => resolveExpr context value state

/-- The keyword that a return statement is reported at. -/
def returnName (line : Nat) : Name :=
  ⟨Bytes.ofString "return", line⟩

/-- A method named `init` initializes instances. -/
def initializerName : Bytes :=
  Bytes.ofString "init"

/-- What encloses the body of a method. -/
def inMethod (name : Name) : InFunction :=
  if name.text = initializerName then .initializer else .method

/-- A return statement, before its value. -/
def checkReturn (context : Context) (line : Nat) (hasValue : Bool) (state : State) : State :=
  let state :=
    if context.function = .none then
      state.report (returnName line) .returnAtTopLevel
    else
      state
  if hasValue ∧ context.function = .initializer then
    state.report (returnName line) .returnValueFromInitializer
  else
    state

/-- A class declaration's superclass, and the scope that holds `super`. -/
def enterSuperclass (name : Name) (id : RefId) (superclass : Name) (state : State) : State :=
  let state :=
    if superclass.text = name.text then
      state.report superclass .inheritsFromItself
    else
      state
  (state.read id superclass).enter [((superName 0).text, true)]

mutual

def resolveStmt (context : Context) : Stmt → State → State
  | .expression value _, state => resolveExpr context value state
  | .print value, state => resolveExpr context value state
  | .declare name initial, state =>
      (resolveOption context initial (state.declare name)).define name
  | .block body, state => (resolveStmts context body (state.enter [])).leave
  | .branch condition consequence none, state =>
      resolveStmt context consequence (resolveExpr context condition state)
  | .branch condition consequence (some alternative), state =>
      resolveStmt context alternative
        (resolveStmt context consequence (resolveExpr context condition state))
  | .loop condition body, state =>
      resolveStmt context body (resolveExpr context condition state)
  | .function declaration, state =>
      resolveFunction { context with function := .function } declaration
        (state.introduce declaration.name)
  | .leave line value, state =>
      resolveOption context value (checkReturn context line value.isSome state)
  | .classDecl name none methods, state =>
      let state := (state.introduce name).enter [((thisName 0).text, true)]
      (resolveMethods { context with inClass := .plain } methods state).leave
  | .classDecl name (some (id, superclass)) methods, state =>
      let state := enterSuperclass name id superclass (state.introduce name)
      let state := state.enter [((thisName 0).text, true)]
      (resolveMethods { context with inClass := .subclass } methods state).leave.leave

def resolveStmts (context : Context) : List Stmt → State → State
  | [], state => state
  | first :: rest, state => resolveStmts context rest (resolveStmt context first state)

/-- A function's parameters and body share one scope. -/
def resolveFunction (context : Context) : Function → State → State
  | .mk _ parameters body, state =>
      let state := parameters.foldl State.introduce (state.enter [])
      (resolveStmts context body state).leave

def resolveMethods (context : Context) : List Function → State → State
  | [], state => state
  | method :: rest, state =>
      let inside := { context with function := inMethod method.name }
      resolveMethods context rest (resolveFunction inside method state)

end

end Scope

/-- Resolve the references of a program.  Entries are added to `table`. -/
def resolve (statements : List Stmt) (table : Resolution) : Resolution × List Diagnostic :=
  let final := Scope.resolveStmts {} statements ⟨[], table, []⟩
  (final.table, final.errors)

end LoxLang
