import LoxLang.Diagnostic
import LoxLang.Program.Basic

/-!
From tokens to trees, by recursive descent.  A syntax error is reported and
gives up the statement it stands in; reading resumes at the next statement
boundary.  The recursion is bounded by an argument that `parse` computes from
the number of tokens.
-/

namespace LoxLang

namespace Parser

/-- The tokens still to be read, the errors so far, and the next unused
identity. -/
structure State where
  rest : List Token
  errors : List Diagnostic
  nextId : RefId

/-- Why a phrase could not be read. -/
inductive Abort where
  | syntaxError
  | bound
deriving DecidableEq, Repr

abbrev Parse := EStateM Abort State

/-- Calls and declarations have at most this many arguments or parameters. -/
def maxArguments : Nat := 255

def peek : Parse Token := fun state =>
  .ok (state.rest.headD (.endOfSource 0)) state

def atEnd : Parse Bool := do
  return (← peek).kind = .eof

def check (kind : Token.Kind) : Parse Bool := do
  let next ← peek
  return next.kind ≠ .eof && next.kind = kind

def skip : Parse Unit :=
  modify fun state => { state with rest := state.rest.drop 1 }

/-- Take the next token if `choose` selects it. -/
def acceptWith {α : Type} (choose : Token.Kind → Option α) : Parse (Option (α × Nat)) := do
  let next ← peek
  match choose next.kind with
  | none => return none
  | some chosen =>
      skip
      return some (chosen, next.line)

/-- Take the next token if it is of a kind.  The end is never taken. -/
def accept (kind : Token.Kind) : Parse (Option Token) := do
  let next ← peek
  if ← check kind then
    skip
    return some next
  else
    return none

def report (token : Token) (cause : Diagnostic.Cause) : Parse Unit :=
  modify fun state => { state with errors := state.errors ++ [.atToken token cause] }

/-- Report an error at the next token and give up the phrase. -/
def fail {α : Type} (cause : Diagnostic.Cause) : Parse α := do
  report (← peek) cause
  throw .syntaxError

def expect (kind : Token.Kind) (cause : Diagnostic.Cause) : Parse Token := do
  match ← accept kind with
  | some token => return token
  | none => fail cause

def expectName (cause : Diagnostic.Cause) : Parse Name := do
  let token ← expect .identifier cause
  return ⟨token.lexeme, token.line⟩

def freshId : Parse RefId :=
  modifyGet fun state => (state.nextId, { state with nextId := state.nextId + 1 })

/-- The levels of left-associative operators. -/
inductive Precedence where
  | or | and | equality | comparison | term | factor
deriving DecidableEq, Repr

namespace Precedence

/-- From the loosest level to the tightest. -/
def all : List Precedence :=
  [.or, .and, .equality, .comparison, .term, .factor]

/-- The tree builder of an operator of a level. -/
def operator? : Precedence → Token.Kind → Option (Nat → Expr → Expr → Expr)
  | .or, .orWord => some fun _ => .logical .or
  | .and, .andWord => some fun _ => .logical .and
  | .equality, .equalEqual => some (.binary .equal)
  | .equality, .bangEqual => some (.binary .notEqual)
  | .comparison, .greater => some (.binary .greater)
  | .comparison, .greaterEqual => some (.binary .greaterEqual)
  | .comparison, .less => some (.binary .less)
  | .comparison, .lessEqual => some (.binary .lessEqual)
  | .term, .plus => some (.binary .add)
  | .term, .minus => some (.binary .subtract)
  | .factor, .star => some (.binary .multiply)
  | .factor, .slash => some (.binary .divide)
  | _, _ => none

end Precedence

def unaryOperator? : Token.Kind → Option UnaryOp
  | .bang => some .not
  | .minus => some .negate
  | _ => none

/-- A literal that one token denotes. -/
def literal? (token : Token) : Option Literal :=
  match token.kind with
  | .falseWord => some (.bool false)
  | .trueWord => some (.bool true)
  | .nilWord => some .nil
  | .number | .string => some (token.literal.getD .nil)
  | _ => none

mutual

/-- An assignment, or an expression of the loosest operator level.  What is
assigned to is read as an expression first. -/
def expression : Nat → Parse Expr
  | 0 => throw .bound
  | bound + 1 => do
      let target ← level bound Precedence.all
      match ← accept .equal with
      | none => return target
      | some equal =>
          let value ← expression bound
          match target with
          | .read id name => return .assign id name value
          | .get object name => return .set object name value
          | other =>
              report equal .invalidAssignmentTarget
              return other

/-- An expression whose operators are of the given levels or tighter. -/
def level : Nat → List Precedence → Parse Expr
  | 0, _ => throw .bound
  | bound + 1, [] => unary bound
  | bound + 1, precedence :: tighter => do
      let left ← level bound tighter
      levelRest bound precedence tighter left

/-- Further operands of one level. -/
def levelRest : Nat → Precedence → List Precedence → Expr → Parse Expr
  | 0, _, _, _ => throw .bound
  | bound + 1, precedence, tighter, left => do
      match ← acceptWith precedence.operator? with
      | none => return left
      | some (build, line) =>
          let right ← level bound tighter
          levelRest bound precedence tighter (build line left right)

def unary : Nat → Parse Expr
  | 0 => throw .bound
  | bound + 1 => do
      match ← acceptWith unaryOperator? with
      | some (op, line) => return .unary op line (← unary bound)
      | none =>
          let callee ← primary bound
          callRest bound callee

/-- Calls and property reads that follow an expression. -/
def callRest : Nat → Expr → Parse Expr
  | 0, _ => throw .bound
  | bound + 1, callee => do
      if (← accept .leftParen).isSome then
        let arguments ← if ← check .rightParen then pure [] else argumentsFrom bound 0
        let paren ← expect .rightParen (.expectedCloseParen .arguments)
        callRest bound (.call callee arguments paren.line)
      else if (← accept .dot).isSome then
        let name ← expectName .expectedPropertyName
        callRest bound (.get callee name)
      else
        return callee

/-- Arguments up to the closing parenthesis, `count` of them being read
already. -/
def argumentsFrom : Nat → Nat → Parse (List Expr)
  | 0, _ => throw .bound
  | bound + 1, count => do
      if maxArguments ≤ count then
        report (← peek) .tooManyArguments
      let first ← expression bound
      if (← accept .comma).isSome then
        return first :: (← argumentsFrom bound (count + 1))
      else
        return [first]

def primary : Nat → Parse Expr
  | 0 => throw .bound
  | bound + 1 => do
      let next ← peek
      match literal? next, next.kind with
      | some value, _ =>
          skip
          return .literal value
      | none, .superWord =>
          skip
          let _ ← expect .dot .expectedDotAfterSuper
          let method ← expectName .expectedSuperclassMethod
          return .superMethod (← freshId) next.line method
      | none, .thisWord =>
          skip
          return .self (← freshId) next.line
      | none, .identifier =>
          skip
          return .read (← freshId) ⟨next.lexeme, next.line⟩
      | none, .leftParen =>
          skip
          let inner ← expression bound
          let _ ← expect .rightParen .unclosedGroup
          return .group inner
      | none, _ => fail .expectedExpression

end

/-- An expression up to the semicolon that ends its statement. -/
def expressionStatement (bound : Nat) : Parse Stmt := do
  let value ← expression bound
  let _ ← expect .semicolon (.expectedSemicolon .expression)
  return .expression value !value.isAssignment

/-- An expression, unless a token of a kind stands in its place. -/
def optionalExpression (bound : Nat) (stop : Token.Kind) : Parse (Option Expr) := do
  if ← check stop then
    return none
  else
    return some (← expression bound)

/-- A variable declaration after its keyword. -/
def variableDeclaration (bound : Nat) : Parse Stmt := do
  let name ← expectName .expectedVariableName
  let initial ← if (← accept .equal).isSome then some <$> expression bound else pure none
  let _ ← expect .semicolon (.expectedSemicolon .variableDeclaration)
  return .declare name initial

/-- Parameters up to the closing parenthesis, `count` of them being read
already. -/
def parametersFrom : Nat → Nat → Parse (List Name)
  | 0, _ => throw .bound
  | bound + 1, count => do
      if maxArguments ≤ count then
        report (← peek) .tooManyParameters
      let first ← expectName .expectedParameterName
      if (← accept .comma).isSome then
        return first :: (← parametersFrom bound (count + 1))
      else
        return [first]

/-- The first clause of a loop over three clauses, with its semicolon. -/
def forInitializer (bound : Nat) : Parse (Option Stmt) := do
  if (← accept .semicolon).isSome then
    return none
  else if (← accept .varWord).isSome then
    return some (← variableDeclaration bound)
  else
    return some (← expressionStatement bound)

/-- A loop over three clauses, as a block around a loop over a condition. -/
def lowerFor (initial : Option Stmt) (condition increment : Option Expr) (body : Stmt) : Stmt :=
  let body := match increment with
    | some increment => .block [body, .expression increment false]
    | none => body
  let loop := .loop (condition.getD (.literal (.bool true))) body
  match initial with
  | some initial => .block [initial, loop]
  | none => loop

/-- The words that start a statement and so stop recovery. -/
def startsStatement : Token.Kind → Bool
  | .classWord | .funWord | .varWord | .forWord | .ifWord | .whileWord | .printWord
  | .returnWord => true
  | _ => false

/-- Pass over tokens up to a statement boundary: past a semicolon, before a
word that starts a statement, or at the end.  At least one token is passed
over if the end is not reached already. -/
def synchronize : List Token → List Token
  | [] => []
  | token :: rest =>
      if token.kind = .eof then
        token :: rest
      else if token.kind = .semicolon then
        rest
      else
        match rest with
        | [] => []
        | next :: _ => if startsStatement next.kind then rest else synchronize rest

mutual

/-- A declaration or statement, or nothing after a syntax error in it. -/
def recovering : Nat → Parse (Option Stmt)
  | 0 => throw .bound
  | bound + 1 => fun state =>
      match declaration bound state with
      | .ok statement next => .ok (some statement) next
      | .error .syntaxError next => .ok none { next with rest := synchronize next.rest }
      | .error .bound next => .error .bound next

def declaration : Nat → Parse Stmt
  | 0 => throw .bound
  | bound + 1 => do
      if (← accept .classWord).isSome then
        classDeclaration bound
      else if (← accept .funWord).isSome then
        return .function (← function bound .function)
      else if (← accept .varWord).isSome then
        variableDeclaration bound
      else
        statement bound

def classDeclaration : Nat → Parse Stmt
  | 0 => throw .bound
  | bound + 1 => do
      let name ← expectName (.expectedName .classDeclaration)
      let superclass ←
        if (← accept .less).isSome then
          let superclass ← expectName (.expectedName .superclass)
          pure (some (← freshId, superclass))
        else
          pure none
      let _ ← expect .leftBrace (.expectedOpenBrace .classBody)
      let methods ← methodsFrom bound
      let _ ← expect .rightBrace (.expectedCloseBrace .classBody)
      return .classDecl name superclass methods

def methodsFrom : Nat → Parse (List Function)
  | 0 => throw .bound
  | bound + 1 => do
      if (← check .rightBrace) || (← atEnd) then
        return []
      else
        let first ← function bound .method
        return first :: (← methodsFrom bound)

/-- A function from its name on. -/
def function : Nat → Diagnostic.Callable → Parse Function
  | 0, _ => throw .bound
  | bound + 1, form => do
      let name ← expectName (.expectedName (.callable form))
      let _ ← expect .leftParen (.expectedOpenParen (.name form))
      let parameters ← if ← check .rightParen then pure [] else parametersFrom bound 0
      let _ ← expect .rightParen (.expectedCloseParen .parameters)
      let _ ← expect .leftBrace (.expectedOpenBrace (.callable form))
      let body ← blockBody bound
      return .mk name parameters body

/-- The statements of a block after its opening brace, and its closing
brace. -/
def blockBody : Nat → Parse (List Stmt)
  | 0 => throw .bound
  | bound + 1 => do
      let body ← statementsFrom bound
      let _ ← expect .rightBrace (.expectedCloseBrace .block)
      return body

/-- Statements up to a closing brace or the end. -/
def statementsFrom : Nat → Parse (List Stmt)
  | 0 => throw .bound
  | bound + 1 => do
      if (← check .rightBrace) || (← atEnd) then
        return []
      else
        match ← recovering bound with
        | some first => return first :: (← statementsFrom bound)
        | none => statementsFrom bound

def statement : Nat → Parse Stmt
  | 0 => throw .bound
  | bound + 1 => do
      let next ← peek
      match next.kind with
      | .forWord =>
          skip
          forStatement bound
      | .ifWord =>
          skip
          let _ ← expect .leftParen (.expectedOpenParen .ifWord)
          let condition ← expression bound
          let _ ← expect .rightParen (.expectedCloseParen .ifCondition)
          let consequence ← statement bound
          let alternative ←
            if (← accept .elseWord).isSome then some <$> statement bound else pure none
          return .branch condition consequence alternative
      | .printWord =>
          skip
          let value ← expression bound
          let _ ← expect .semicolon (.expectedSemicolon .value)
          return .print value
      | .returnWord =>
          skip
          let value ← optionalExpression bound .semicolon
          let _ ← expect .semicolon (.expectedSemicolon .returnValue)
          return .leave next.line value
      | .whileWord =>
          skip
          let _ ← expect .leftParen (.expectedOpenParen .whileWord)
          let condition ← expression bound
          let _ ← expect .rightParen (.expectedCloseParen .condition)
          let body ← statement bound
          return .loop condition body
      | .leftBrace =>
          skip
          return .block (← blockBody bound)
      | _ => expressionStatement bound

def forStatement : Nat → Parse Stmt
  | 0 => throw .bound
  | bound + 1 => do
      let _ ← expect .leftParen (.expectedOpenParen .forWord)
      let initial ← forInitializer bound
      let condition ← optionalExpression bound .semicolon
      let _ ← expect .semicolon (.expectedSemicolon .loopCondition)
      let increment ← optionalExpression bound .rightParen
      let _ ← expect .rightParen (.expectedCloseParen .forClauses)
      let body ← statement bound
      return lowerFor initial condition increment body

end

def programFrom : Nat → Parse (List Stmt)
  | 0 => throw .bound
  | bound + 1 => do
      if ← atEnd then
        return []
      else
        match ← recovering bound with
        | some first => return first :: (← programFrom bound)
        | none => programFrom bound

/-- A bound that reading a list of tokens never reaches: fewer than twenty
calls are nested between two tokens. -/
def boundFor (tokens : List Token) : Nat :=
  20 * (tokens.length + 1)

structure Parsed where
  statements : List Stmt
  errors : List Diagnostic
  nextId : RefId

end Parser

/-- Parse tokens.  References get identities from `nextId` on. -/
def parse (tokens : List Token) (nextId : RefId) : Parser.Parsed :=
  match Parser.programFrom (Parser.boundFor tokens) ⟨tokens, [], nextId⟩ with
  | .ok statements state => ⟨statements, state.errors, state.nextId⟩
  | .error _ state => ⟨[], state.errors, state.nextId⟩

end LoxLang
