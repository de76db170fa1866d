import LoxLang.Program.Basic

/-!
The written form of a tree: every node in parentheses, its head first.  A
program is written one statement per line.
-/

namespace LoxLang

/-- Join parts with spaces inside parentheses. -/
def parenthesize (head : Bytes) (parts : List Bytes) : Bytes :=
  Bytes.ofString "(" ++ head ++ (parts.flatMap fun part => Bytes.ofString " " ++ part) ++
    Bytes.ofString ")"

/-- A literal as source text would denote it. -/
def Literal.render : Literal → Bytes
  | .string text => Bytes.ofString "\"" ++ text ++ Bytes.ofString "\""
  | other => other.display

namespace Expr

mutual

def render : Expr → Bytes
  | .literal value => value.render
  | .read _ name => name.text
  | .assign _ name value => parenthesize (Bytes.ofString "=") [name.text, value.render]
  | .unary op _ operand => parenthesize op.lexeme [operand.render]
  | .binary op _ left right => parenthesize op.lexeme [left.render, right.render]
  | .logical op left right => parenthesize op.lexeme [left.render, right.render]
  | .group inner => parenthesize (Bytes.ofString "group") [inner.render]
  | .call callee arguments _ =>
      parenthesize (Bytes.ofString "call") (callee.render :: renderAll arguments)
  | .get object name => parenthesize (Bytes.ofString ".") [object.render, name.text]
  | .set object name value =>
      parenthesize (Bytes.ofString "=") [object.render, name.text, value.render]
  | .self .. => Bytes.ofString "this"
  | .superMethod _ _ method => parenthesize (Bytes.ofString "super") [method.text]

def renderAll : List Expr → List Bytes
  | [] => []
  | first :: rest => first.render :: renderAll rest

end

end Expr

mutual

def Stmt.render : Stmt → Bytes
  | .expression value _ => parenthesize (Bytes.ofString ";") [value.render]
  | .print value => parenthesize (Bytes.ofString "print") [value.render]
  | .declare name none => parenthesize (Bytes.ofString "var") [name.text]
  | .declare name (some initial) =>
      parenthesize (Bytes.ofString "var") [name.text, Bytes.ofString "=", initial.render]
  | .block body => parenthesize (Bytes.ofString "block") (Stmt.renderAll body)
  | .branch condition consequence none =>
      parenthesize (Bytes.ofString "if") [condition.render, consequence.render]
  | .branch condition consequence (some alternative) =>
      parenthesize (Bytes.ofString "if-else")
        [condition.render, consequence.render, alternative.render]
  | .loop condition body =>
      parenthesize (Bytes.ofString "while") [condition.render, body.render]
  | .function declaration => declaration.render
  | .leave _ none => parenthesize (Bytes.ofString "return") []
  | .leave _ (some value) => parenthesize (Bytes.ofString "return") [value.render]
  | .classDecl name none methods =>
      parenthesize (Bytes.ofString "class") (name.text :: Function.renderAll methods)
  | .classDecl name (some (_, superclass)) methods =>
      parenthesize (Bytes.ofString "class")
        (name.text :: Bytes.ofString "<" :: superclass.text :: Function.renderAll methods)

def Stmt.renderAll : List Stmt → List Bytes
  | [] => []
  | first :: rest => first.render :: Stmt.renderAll rest

def Function.render : Function → Bytes
  | .mk name parameters body =>
      parenthesize (Bytes.ofString "fun")
        (name.text ::
          (Bytes.ofString "(" ++
            (Bytes.ofString " ").intercalate (parameters.map Name.text) ++
            Bytes.ofString ")") ::
          Stmt.renderAll body)

def Function.renderAll : List Function → List Bytes
  | [] => []
  | first :: rest => first.render :: Function.renderAll rest

end

/-- A program is written one statement per line. -/
def renderProgram (statements : List Stmt) : Bytes :=
  statements.flatMap fun statement => statement.render ++ [Bytes.lineFeed]

end LoxLang
