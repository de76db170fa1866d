import LoxLang.Program.Parser

/-!
Parsing by position.  The list of tokens stays as it is, and a position moves along it.
Looking outside the list, looking before its first token and moving on from its last one are
failures of their own, which nothing recovers from: a result of any other kind means that
none of them ever happens.
-/

namespace LoxLang

namespace Indexed

namespace Parser

open LoxLang.Parser (Precedence literal? unaryOperator? lowerFor maxArguments startsStatement)

/-- Where a parser stands, and what it has found. -/
structure State where
  tokens : List Token
  current : Nat
  errors : List Diagnostic
  nextId : RefId

/-- Why a phrase could not be read. -/
inductive Abort where
  | syntaxError
  | bound
  | outside
deriving DecidableEq, Repr

abbrev Parse := EStateM Abort State

def tokenAt (position : Nat) : Parse Token := fun state =>
  match state.tokens[position]? with
  | some token => .ok token state
  | none => .error .outside state

def peek : Parse Token := do
  tokenAt (← get).current

/-- The token before the current position, which must not be the first. -/
def previous : Parse Token := do
  match (← get).current with
  | 0 => throw .outside
  | position + 1 => tokenAt position

def atEnd : Parse Bool := do
  return (← peek).kind = .eof

def check (kind : Token.Kind) : Parse Bool := do
  if ← atEnd then
    return false
  else
    return (← peek).kind = kind

/-- Move on from a token, which must not be the last. -/
def step : Parse Unit := fun state =>
  if state.current + 1 < state.tokens.length then
    .ok () { state with current := state.current + 1 }
  else
    .error .outside state

def take : Parse Token := do
  step
  previous

/-- Take the next token.  At the end the one before it is given again. -/
def advance : Parse Token := do
  if ← atEnd then
    previous
  else
    take

/-- Take the next token if `choose` selects it. -/
def acceptWith {α : Type} (choose : Token.Kind → Option α) : Parse (Option (α × Nat)) := do
  if ← atEnd then
    return none
  else
    match choose (← peek).kind with
    | none => return none
    | some chosen =>
        let token ← take
        return some (chosen, token.line)

/-- Take the next token if it is of a kind. -/
def accept (kind : Token.Kind) : Parse (Option Token) := do
  if ← check kind then
    let token ← take
    return some token
  else
    return none

def report (token : Token) (cause : Diagnostic.Cause) : Parse Unit :=
  modify fun state => { state with errors := state.errors ++ [.atToken token cause] }

/-- Report an error at the next token and give up the phrase. -/
def fail {α : Type} (cause : Diagnostic.Cause) : Parse α := do
  report (← peek) cause
  throw .syntaxError

def expect (kind : Token.Kind) (cause : Diagnostic.Cause) : Parse Token := do
  if ← check kind then
    advance
  else
    fail cause

def expectName (cause : Diagnostic.Cause) : Parse Name := do
  let token ← expect .identifier cause
  return ⟨token.lexeme, token.line⟩

def freshId : Parse RefId :=
  modifyGet fun state => (state.nextId, { state with nextId := state.nextId + 1 })

mutual

/-- An assignment, or an expression of the loosest operator level. -/
def expression : Nat → Parse Expr
  | 0 => throw .bound
  | bound + 1 => do
      let target ← level bound Precedence.all
      match ← accept .equal with
      | none => return target
      | some equal =>
          let value ← expression bound
          match target with
          | .read id name => return .assign id name value
          | .get object name => return .set object name value
          | other =>
              report equal .invalidAssignmentTarget
              return other

/-- An expression whose operators are of the given levels or tighter. -/
def level : Nat → List Precedence → Parse Expr
  | 0, _ => throw .bound
  | bound + 1, [] => unary bound
  | bound + 1, precedence :: tighter => do
      let left ← level bound tighter
      levelRest bound precedence tighter left

/-- Further operands of one level. -/
def levelRest : Nat → Precedence → List Precedence → Expr → Parse Expr
  | 0, _, _, _ => throw .bound
  | bound + 1, precedence, tighter, left => do
      match ← acceptWith precedence.operator? with
      | none => return left
      | some (build, line) =>
          let right ← level bound tighter
          levelRest bound precedence tighter (build line left right)

def unary : Nat → Parse Expr
  | 0 => throw .bound
  | bound + 1 => do
      match ← acceptWith unaryOperator? with
      | some (op, line) => return .unary op line (← unary bound)
      | none =>
          let callee ← primary bound
          callRest bound callee

/-- Calls and property reads that follow an expression. -/
def callRest : Nat → Expr → Parse Expr
  | 0, _ => throw .bound
  | bound + 1, callee => do
      if (← accept .leftParen).isSome then
        let arguments ← if ← check .rightParen then pure [] else argumentsFrom bound 0
        let paren ← expect .rightParen (.expectedCloseParen .arguments)
        callRest bound (.call callee arguments paren.line)
      else if (← accept .dot).isSome then
        let name ← expectName .expectedPropertyName
        callRest bound (.get callee name)
      else
        return callee

/-- Arguments up to the closing parenthesis, `count` of them being read
already. -/
def argumentsFrom : Nat → Nat → Parse (List Expr)
  | 0, _ => throw .bound
  | bound + 1, count => do
      if maxArguments ≤ count then
        report (← peek) .tooManyArguments
      let first ← expression bound
      if (← accept .comma).isSome then
        return first :: (← argumentsFrom bound (count + 1))
      else
        return [first]

def primary : Nat → Parse Expr
  | 0 => throw .bound
  | bound + 1 => do
      let next ← peek
      match literal? next, next.kind with
      | some value, _ =>
          let _ ← take
          return .literal value
      | none, .superWord =>
          let keyword ← take
          let _ ← expect .dot .expectedDotAfterSuper
          let method ← expectName .expectedSuperclassMethod
          return .superMethod (← freshId) keyword.line method
      | none, .thisWord =>
          let keyword ← take
          return .self (← freshId) keyword.line
      | none, .identifier =>
          let name ← take
          return .read (← freshId) ⟨name.lexeme, name.line⟩
      | none, .leftParen =>
          let _ ← take
          let inner ← expression bound
          let _ ← expect .rightParen .unclosedGroup
          return .group inner
      | none, _ => fail .expectedExpression

end

def expressionStatement (bound : Nat) : Parse Stmt := do
  let value ← expression bound
  let _ ← expect .semicolon (.expectedSemicolon .expression)
  return .expression value !value.isAssignment

/-- An expression, unless a token of a kind stands in its place. -/
def optionalExpression (bound : Nat) (stop : Token.Kind) : Parse (Option Expr) := do
  if ← check stop then
    return none
  else
    return some (← expression bound)

/-- A variable declaration after its keyword. -/
def variableDeclaration (bound : Nat) : Parse Stmt := do
  let name ← expectName .expectedVariableName
  let initial ← if (← accept .equal).isSome then some <$> expression bound else pure none
  let _ ← expect .semicolon (.expectedSemicolon .variableDeclaration)
  return .declare name initial

/-- Parameters up to the closing parenthesis, `count` of them being read
already. -/
def parametersFrom : Nat → Nat → Parse (List Name)
  | 0, _ => throw .bound
  | bound + 1, count => do
      if maxArguments ≤ count then
        report (← peek) .tooManyParameters
      let first ← expectName .expectedParameterName
      if (← accept .comma).isSome then
        return first :: (← parametersFrom bound (count + 1))
      else
        return [first]

/-- The first clause of a loop over three clauses, with its semicolon. -/
def forInitializer (bound : Nat) : Parse (Option Stmt) := do
  if (← accept .semicolon).isSome then
    return none
  else if (← accept .varWord).isSome then
    return some (← variableDeclaration bound)
  else
    return some (← expressionStatement bound)

/-- Move on to a statement boundary: behind a semicolon, before a word that starts a statement,
or at the end. -/
def passToBoundary : Nat → Parse Unit
  | 0 => throw .bound
  | bound + 1 => do
      if ← atEnd then
        return ()
      else if (← previous).kind = .semicolon then
        return ()
      else if startsStatement (← peek).kind then
        return ()
      else
        let _ ← advance
        passToBoundary bound

/-- Recover from a syntax error.  The token at which it occurred is passed over unseen. -/
def synchronize : Parse Unit := do
  let _ ← advance
  passToBoundary (← get).tokens.length

mutual

/-- A declaration or statement, or nothing after a syntax error in it. -/
def recovering : Nat → Parse (Option Stmt)
  | 0 => throw .bound
  | bound + 1 => fun state =>
      match declaration bound state with
      | .ok statement next => .ok (some statement) next
      | .error .syntaxError next => (do synchronize; return none) next
      | .error abort next => .error abort next

def declaration : Nat → Parse Stmt
  | 0 => throw .bound
  | bound + 1 => do
      if (← accept .classWord).isSome then
        classDeclaration bound
      else if (← accept .funWord).isSome then
        return .function (← function bound .function)
      else if (← accept .varWord).isSome then
        variableDeclaration bound
      else
        statement bound

def classDeclaration : Nat → Parse Stmt
  | 0 => throw .bound
  | bound + 1 => do
      let name ← expectName (.expectedName .classDeclaration)
      let superclass ←
        if (← accept .less).isSome then
          let superclass ← expectName (.expectedName .superclass)
          pure (some (← freshId, superclass))
        else
          pure none
      let _ ← expect .leftBrace (.expectedOpenBrace .classBody)
      let methods ← methodsFrom bound
      let _ ← expect .rightBrace (.expectedCloseBrace .classBody)
      return .classDecl name superclass methods

def methodsFrom : Nat → Parse (List Function)
  | 0 => throw .bound
  | bound + 1 => do
      if (← check .rightBrace) || (← atEnd) then
        return []
      else
        let first ← function bound .method
        return first :: (← methodsFrom bound)

/-- A function from its name on. -/
def function : Nat → Diagnostic.Callable → Parse Function
  | 0, _ => throw .bound
  | bound + 1, form => do
      let name ← expectName (.expectedName (.callable form))
      let _ ← expect .leftParen (.expectedOpenParen (.name form))
      let parameters ← if ← check .rightParen then pure [] else parametersFrom bound 0
      let _ ← expect .rightParen (.expectedCloseParen .parameters)
      let _ ← expect .leftBrace (.expectedOpenBrace (.callable form))
      let body ← blockBody bound
      return .mk name parameters body

/-- The statements of a block after its opening brace, and its closing
brace. -/
def blockBody : Nat → Parse (List Stmt)
  | 0 => throw .bound
  | bound + 1 => do
      let body ← statementsFrom bound
      let _ ← expect .rightBrace (.expectedCloseBrace .block)
      return body

/-- Statements up to a closing brace or the end. -/
def statementsFrom : Nat → Parse (List Stmt)
  | 0 => throw .bound
  | bound + 1 => do
      if (← check .rightBrace) || (← atEnd) then
        return []
      else
        match ← recovering bound with
        | some first => return first :: (← statementsFrom bound)
        | none => statementsFrom bound

def statement : Nat → Parse Stmt
  | 0 => throw .bound
  | bound + 1 => do
      let next ← peek
      match next.kind with
      | .forWord =>
          let _ ← take
          forStatement bound
      | .ifWord =>
          let _ ← take
          let _ ← expect .leftParen (.expectedOpenParen .ifWord)
          let condition ← expression bound
          let _ ← expect .rightParen (.expectedCloseParen .ifCondition)
          let consequence ← statement bound
          let alternative ←
            if (← accept .elseWord).isSome then some <$> statement bound else pure none
          return .branch condition consequence alternative
      | .printWord =>
          let _ ← take
          let value ← expression bound
          let _ ← expect .semicolon (.expectedSemicolon .value)
          return .print value
      | .returnWord =>
          let keyword ← take
          let value ← optionalExpression bound .semicolon
          let _ ← expect .semicolon (.expectedSemicolon .returnValue)
          return .leave keyword.line value
      | .whileWord =>
          let _ ← take
          let _ ← expect .leftParen (.expectedOpenParen .whileWord)
          let condition ← expression bound
          let _ ← expect .rightParen (.expectedCloseParen .condition)
          let body ← statement bound
          return .loop condition body
      | .leftBrace =>
          let _ ← take
          return .block (← blockBody bound)
      | _ => expressionStatement bound

def forStatement : Nat → Parse Stmt
  | 0 => throw .bound
  | bound + 1 => do
      let _ ← expect .leftParen (.expectedOpenParen .forWord)
      let initial ← forInitializer bound
      let condition ← optionalExpression bound .semicolon
      let _ ← expect .semicolon (.expectedSemicolon .loopCondition)
      let increment ← optionalExpression bound .rightParen
      let _ ← expect .rightParen (.expectedCloseParen .forClauses)
      let body ← statement bound
      return lowerFor initial condition increment body

end

def programFrom : Nat → Parse (List Stmt)
  | 0 => throw .bound
  | bound + 1 => do
      if ← atEnd then
        return []
      else
        match ← recovering bound with
        | some first => return first :: (← programFrom bound)
        | none => programFrom bound

/-- The parser before the first token. -/
def State.start (tokens : List Token) (nextId : RefId) : State :=
  ⟨tokens, 0, [], nextId⟩

end Parser

/-- Parse tokens by position. -/
def parse (tokens : List Token) (nextId : RefId) :
    EStateM.Result Parser.Abort Parser.State (List Stmt) :=
  Parser.programFrom (LoxLang.Parser.boundFor tokens) (.start tokens nextId)

end Indexed

end LoxLang
