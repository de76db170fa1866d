import LoxLang.Token.Basic

/-!
Static errors: what source text can be reported for before anything runs.
A diagnostic is a cause at a place; the wording is a function of the cause.
-/

namespace LoxLang

namespace Diagnostic

/-- The two forms of function declaration. -/
inductive Callable where
  | function
  | method
deriving DecidableEq, Repr

def Callable.word : Callable → String
  | .function => "function"
  | .method => "method"

/-- What a missing semicolon should have followed. -/
inductive SemicolonAfter where
  | value | returnValue | variableDeclaration | loopCondition | expression
deriving DecidableEq, Repr

def SemicolonAfter.word : SemicolonAfter → String
  | .value => "value"
  | .returnValue => "return value"
  | .variableDeclaration => "variable declaration"
  | .loopCondition => "loop condition"
  | .expression => "expression"

/-- What a missing opening parenthesis should have followed. -/
inductive OpenParenAfter where
  | forWord | ifWord | whileWord
  | name (of : Callable)
deriving DecidableEq, Repr

def OpenParenAfter.word : OpenParenAfter → String
  | .forWord => "'for'"
  | .ifWord => "'if'"
  | .whileWord => "'while'"
  | .name form => form.word ++ " name"

/-- What a missing closing parenthesis should have followed. -/
inductive CloseParenAfter where
  | parameters | forClauses | ifCondition | condition | arguments
deriving DecidableEq, Repr

def CloseParenAfter.word : CloseParenAfter → String
  | .parameters => "parameters"
  | .forClauses => "for clauses"
  | .ifCondition => "if condition"
  | .condition => "condition"
  | .arguments => "arguments"

/-- The body a missing opening brace should have opened. -/
inductive BodyOf where
  | classBody
  | callable (of : Callable)
deriving DecidableEq, Repr

def BodyOf.word : BodyOf → String
  | .classBody => "class body"
  | .callable form => form.word ++ " body"

/-- What a missing closing brace should have closed. -/
inductive CloseBraceAfter where
  | classBody | block
deriving DecidableEq, Repr

def CloseBraceAfter.word : CloseBraceAfter → String
  | .classBody => "class body"
  | .block => "block"

/-- What a missing name should have named. -/
inductive NameOf where
  | classDeclaration | superclass
  | callable (of : Callable)
deriving DecidableEq, Repr

def NameOf.word : NameOf → String
  | .classDeclaration => "class"
  | .superclass => "superclass"
  | .callable form => form.word

/-- Why source text is rejected. -/
inductive Cause where
  | unexpectedCharacter
  | unterminatedString
  | unterminatedComment
  | expectedExpression
  | unclosedGroup
  | expectedSemicolon (after : SemicolonAfter)
  | expectedOpenParen (after : OpenParenAfter)
  | expectedCloseParen (after : CloseParenAfter)
  | expectedOpenBrace (body : BodyOf)
  | expectedCloseBrace (after : CloseBraceAfter)
  | expectedName (of : NameOf)
  | expectedVariableName
  | expectedParameterName
  | expectedPropertyName
  | expectedDotAfterSuper
  | expectedSuperclassMethod
  | tooManyParameters
  | tooManyArguments
  | invalidAssignmentTarget
  | alreadyDeclared
  | readInOwnInitializer
  | returnAtTopLevel
  | returnValueFromInitializer
  | thisOutsideClass
  | superOutsideClass
  | superWithoutSuperclass
  | inheritsFromItself
deriving DecidableEq, Repr

def Cause.message : Cause → String
  | .unexpectedCharacter => "Unexpected character."
  | .unterminatedString => "Unterminated string."
  | .unterminatedComment => "Unterminated block comment."
  | .expectedExpression => "Expect expression."
  | .unclosedGroup => "Expect ')' after expression."
  | .expectedSemicolon after => "Expect ';' after " ++ after.word ++ "."
  | .expectedOpenParen after => "Expect '(' after " ++ after.word ++ "."
  | .expectedCloseParen after => "Expect ')' after " ++ after.word ++ "."
  | .expectedOpenBrace body => "Expect '\x7b' before " ++ body.word ++ "."
  | .expectedCloseBrace after => "Expect '\x7d' after " ++ after.word ++ "."
  | .expectedName of => "Expect " ++ of.word ++ " name."
  | .expectedVariableName => "Expect variable name."
  | .expectedParameterName => "Expect parameter name."
  | .expectedPropertyName => "Expect property name after '.'."
  | .expectedDotAfterSuper => "Expect '.' after 'super'."
  | .expectedSuperclassMethod => "Expect superclass method name."
  | .tooManyParameters => "Can't have more than 255 parameters."
  | .tooManyArguments => "Can't have more than 255 arguments."
  | .invalidAssignmentTarget => "Invalid assignment target."
  | .alreadyDeclared => "Already a variable with this name in this scope."
  | .readInOwnInitializer => "Can't read local variable in its own initializer."
  | .returnAtTopLevel => "Can't return from top-level code."
  | .returnValueFromInitializer => "Can't return a value from an initializer."
  | .thisOutsideClass => "Can't use 'this' outside of a class."
  | .superOutsideClass => "Can't use 'super' outside of a class."
  | .superWithoutSuperclass => "Can't use 'super' in a class with no superclass."
  | .inheritsFromItself => "A class can't inherit from itself."

/-- The family of a cause: causes that differ only in where a mark is missing
share one. -/
def Cause.kind : Cause → String
  | .expectedSemicolon _ => "Expect ';'"
  | .expectedOpenParen _ => "Expect '('"
  | .expectedCloseParen _ => "Expect ')'"
  | .expectedOpenBrace _ => "Expect '\x7b'"
  | .expectedCloseBrace _ => "Expect '\x7d'"
  | .expectedName _ => "Expect name."
  | cause => cause.message

/-- Where an error stands, beside its line. -/
inductive Place where
  | unnamed
  | atEnd
  | atLexeme (lexeme : Bytes)
deriving DecidableEq, Repr

def Place.text : Place → Bytes
  | .unnamed => []
  | .atEnd => Bytes.ofString " at end"
  | .atLexeme lexeme => Bytes.ofString " at '" ++ lexeme ++ Bytes.ofString "'"

def Place.ofToken (token : Token) : Place :=
  if token.kind = .eof then .atEnd else .atLexeme token.lexeme

end Diagnostic

structure Diagnostic where
  cause : Diagnostic.Cause
  line : Nat
  place : Diagnostic.Place
deriving DecidableEq, Repr

namespace Diagnostic

def atToken (token : Token) (cause : Cause) : Diagnostic :=
  ⟨cause, token.line, .ofToken token⟩

def text (diagnostic : Diagnostic) : Bytes :=
  Bytes.ofString "[line " ++ Bytes.ofNat diagnostic.line ++ Bytes.ofString "] Error" ++
    diagnostic.place.text ++ Bytes.ofString ": " ++ Bytes.ofString diagnostic.cause.message

end Diagnostic

end LoxLang
