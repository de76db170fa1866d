import LoxLang.Number.Display

/-!
Tokens: the words of the language with their kinds, and the literal values
that number and string tokens carry.
-/

namespace LoxLang

/-- A constant that source text can denote. -/
inductive Literal where
  | nil
  | bool (value : Bool)
  | number (value : Float)
  | string (text : Bytes)
deriving DecidableEq

def Literal.display : Literal → Bytes
  | .nil => Bytes.ofString "nil"
  | .bool true => Bytes.ofString "true"
  | .bool false => Bytes.ofString "false"
  | .number value => Number.display value
  | .string text => text

namespace Token

inductive Kind where
  | eof
  | leftParen | rightParen | leftBrace | rightBrace
  | comma | dot | minus | plus | semicolon | slash | star
  | bang | bangEqual | equal | equalEqual
  | greater | greaterEqual | less | lessEqual
  | identifier | string | number
  | andWord | classWord | elseWord | falseWord | forWord | funWord | ifWord | nilWord
  | orWord | printWord | returnWord | superWord | thisWord | trueWord | varWord | whileWord
deriving DecidableEq, Repr

namespace Kind

/-- Every kind, in the order of their numbers. -/
def all : List Kind :=
  [.eof, .leftParen, .rightParen, .leftBrace, .rightBrace, .comma, .dot, .minus, .plus,
    .semicolon, .slash, .star, .bang, .bangEqual, .equal, .equalEqual, .greater,
    .greaterEqual, .less, .lessEqual, .identifier, .string, .number, .andWord, .classWord,
    .elseWord, .falseWord, .forWord, .funWord, .ifWord, .nilWord, .orWord, .printWord,
    .returnWord, .superWord, .thisWord, .trueWord, .varWord, .whileWord]

def name : Kind → String
  | .eof => "EOF"
  | .leftParen => "LEFT_PAREN"
  | .rightParen => "RIGHT_PAREN"
  | .leftBrace => "LEFT_BRACE"
  | .rightBrace => "RIGHT_BRACE"
  | .comma => "COMMA"
  | .dot => "DOT"
  | .minus => "MINUS"
  | .plus => "PLUS"
  | .semicolon => "SEMICOLON"
  | .slash => "SLASH"
  | .star => "STAR"
  | .bang => "BANG"
  | .bangEqual => "BANG_EQUAL"
  | .equal => "EQUAL"
  | .equalEqual => "EQUAL_EQUAL"
  | .greater => "GREATER"
  | .greaterEqual => "GREATER_EQUAL"
  | .less => "LESS"
  | .lessEqual => "LESS_EQUAL"
  | .identifier => "IDENTIFIER"
  | .string => "STRING"
  | .number => "NUMBER"
  | .andWord => "AND"
  | .classWord => "CLASS"
  | .elseWord => "ELSE"
  | .falseWord => "FALSE"
  | .forWord => "FOR"
  | .funWord => "FUN"
  | .ifWord => "IF"
  | .nilWord => "NIL"
  | .orWord => "OR"
  | .printWord => "PRINT"
  | .returnWord => "RETURN"
  | .superWord => "SUPER"
  | .thisWord => "THIS"
  | .trueWord => "TRUE"
  | .varWord => "VAR"
  | .whileWord => "WHILE"

/-- The name listed for a number; a number that belongs to no kind is shown
itself. -/
def nameOfNumber (number : Int) : String :=
  match number with
  | .ofNat index =>
      match all[index]? with
      | some kind => kind.name
      | none => s!"TokenType({number})"
  | .negSucc _ => s!"TokenType({number})"

def reserved : List (String × Kind) :=
  [("and", .andWord), ("class", .classWord), ("else", .elseWord), ("false", .falseWord),
    ("for", .forWord), ("fun", .funWord), ("if", .ifWord), ("nil", .nilWord), ("or", .orWord),
    ("print", .printWord), ("return", .returnWord), ("super", .superWord),
    ("this", .thisWord), ("true", .trueWord), ("var", .varWord), ("while", .whileWord)]

/-- The kind of a word: reserved exactly if the whole word is. -/
def ofWord (text : Bytes) : Kind :=
  match reserved.find? fun entry => Bytes.ofString entry.1 == text with
  | some entry => entry.2
  | none => .identifier

end Kind

end Token

/-- A word of the source.  `line` is the line on which it ends. -/
structure Token where
  kind : Token.Kind
  lexeme : Bytes
  literal : Option Literal
  line : Nat
deriving DecidableEq

namespace Token

/-- The token that ends every source. -/
def endOfSource (line : Nat) : Token :=
  ⟨.eof, [], none, line⟩

/-- A token is listed as its kind and lexeme, followed by its literal. -/
def display (token : Token) : Bytes :=
  let head := Bytes.ofString token.kind.name ++ Bytes.ofString " " ++ token.lexeme
  match token.literal with
  | none => head
  | some literal => head ++ Bytes.ofString " " ++ literal.display

end Token

end LoxLang
