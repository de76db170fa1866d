import LoxLang.Token.Basic

/-!
Programs as trees.  Every place that refers to a variable, to `this` or to
`super` carries an identity, so that scope resolution can be recorded beside
the tree.  Operators and keywords are kept as what they mean together with
their line; names keep their spelling.
-/

namespace LoxLang

structure Name where
  text : Bytes
  line : Nat
deriving DecidableEq, Repr

/-- The token that a name was read from. -/
def Name.token (name : Name) : Token :=
  ⟨.identifier, name.text, none, name.line⟩

/-- What tells two places of reference apart. -/
abbrev RefId := Nat

inductive BinaryOp where
  | equal | notEqual
  | greater | greaterEqual | less | lessEqual
  | add | subtract
  | multiply | divide
deriving DecidableEq, Repr

namespace BinaryOp

def kind : BinaryOp → Token.Kind
  | .equal => .equalEqual
  | .notEqual => .bangEqual
  | .greater => .greater
  | .greaterEqual => .greaterEqual
  | .less => .less
  | .lessEqual => .lessEqual
  | .add => .plus
  | .subtract => .minus
  | .multiply => .star
  | .divide => .slash

def lexeme : BinaryOp → Bytes
  | .equal => Bytes.ofString "=="
  | .notEqual => Bytes.ofString "!="
  | .greater => Bytes.ofString ">"
  | .greaterEqual => Bytes.ofString ">="
  | .less => Bytes.ofString "<"
  | .lessEqual => Bytes.ofString "<="
  | .add => Bytes.ofString "+"
  | .subtract => Bytes.ofString "-"
  | .multiply => Bytes.ofString "*"
  | .divide => Bytes.ofString "/"

def token (op : BinaryOp) (line : Nat) : Token :=
  ⟨op.kind, op.lexeme, none, line⟩

end BinaryOp

inductive LogicalOp where
  | or | and
deriving DecidableEq, Repr

def LogicalOp.lexeme : LogicalOp → Bytes
  | .or => Bytes.ofString "or"
  | .and => Bytes.ofString "and"

inductive UnaryOp where
  | not | negate
deriving DecidableEq, Repr

namespace UnaryOp

def kind : UnaryOp → Token.Kind
  | .not => .bang
  | .negate => .minus

def lexeme : UnaryOp → Bytes
  | .not => Bytes.ofString "!"
  | .negate => Bytes.ofString "-"

def token (op : UnaryOp) (line : Nat) : Token :=
  ⟨op.kind, op.lexeme, none, line⟩

end UnaryOp

inductive Expr where
  | literal (value : Literal)
  | read (id : RefId) (name : Name)
  | assign (id : RefId) (name : Name) (value : Expr)
  | unary (op : UnaryOp) (line : Nat) (operand : Expr)
  | binary (op : BinaryOp) (line : Nat) (left right : Expr)
  | logical (op : LogicalOp) (left right : Expr)
  | group (inner : Expr)
  /-- `line` is that of the closing parenthesis. -/
  | call (callee : Expr) (arguments : List Expr) (line : Nat)
  | get (object : Expr) (name : Name)
  | set (object : Expr) (name : Name) (value : Expr)
  | self (id : RefId) (line : Nat)
  | superMethod (id : RefId) (line : Nat) (method : Name)

namespace Expr

/-- The expression is itself an assignment to a variable or a field. -/
def isAssignment : Expr → Bool
  | .assign .. => true
  | .set .. => true
  | _ => false

end Expr

mutual

inductive Stmt where
  /-- `echo` marks a statement whose value an interactive session shows. -/
  | expression (value : Expr) (echo : Bool)
  | print (value : Expr)
  | declare (name : Name) (initial : Option Expr)
  | block (body : List Stmt)
  | branch (condition : Expr) (consequence : Stmt) (alternative : Option Stmt)
  | loop (condition : Expr) (body : Stmt)
  | function (declaration : Function)
  | leave (line : Nat) (value : Option Expr)
  | classDecl (name : Name) (superclass : Option (RefId × Name)) (methods : List Function)

inductive Function where
  | mk (name : Name) (parameters : List Name) (body : List Stmt)

end

namespace Function

def name : Function → Name
  | .mk name _ _ => name

def parameters : Function → List Name
  | .mk _ parameters _ => parameters

def body : Function → List Stmt
  | .mk _ _ body => body

end Function

namespace Stmt

/-- The echo mark of an expression statement; other statements have none. -/
def echo? : Stmt → Option Bool
  | .expression _ echo => some echo
  | _ => none

end Stmt

end LoxLang
