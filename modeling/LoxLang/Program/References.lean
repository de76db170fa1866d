import LoxLang.Program.Basic

/-!
The places of reference in a tree, in source order.  An assignment comes after
the references in its value, and a field assignment lists its object before
its value.
-/

namespace LoxLang

inductive Reference.Form where
  | read | assign | self | superclass
deriving DecidableEq, Repr

/-- A place that names a variable, `this` or `super`. -/
structure Reference where
  form : Reference.Form
  id : RefId
  name : Name
deriving DecidableEq, Repr

/-- The name that a reference to the receiver looks up. -/
def thisName (line : Nat) : Name :=
  ⟨Bytes.ofString "this", line⟩

/-- The name that a reference to the superclass looks up. -/
def superName (line : Nat) : Name :=
  ⟨Bytes.ofString "super", line⟩

namespace Expr

mutual

def references : Expr → List Reference
  | .literal _ => []
  | .read id name => [⟨.read, id, name⟩]
  | .assign id name value => value.references ++ [⟨.assign, id, name⟩]
  | .unary _ _ operand => operand.references
  | .binary _ _ left right => left.references ++ right.references
  | .logical _ left right => left.references ++ right.references
  | .group inner => inner.references
  | .call callee arguments _ => callee.references ++ referencesAll arguments
  | .get object _ => object.references
  | .set object _ value => object.references ++ value.references
  | .self id line => [⟨.self, id, thisName line⟩]
  | .superMethod id line _ => [⟨.superclass, id, superName line⟩]

def referencesAll : List Expr → List Reference
  | [] => []
  | first :: rest => first.references ++ referencesAll rest

end

def referencesOption : Option Expr → List Reference
  | none => []
  | some value => value.references

end Expr

mutual

def Stmt.references : Stmt → List Reference
  | .expression value _ => value.references
  | .print value => value.references
  | .declare _ initial => Expr.referencesOption initial
  | .block body => Stmt.referencesAll body
  | .branch condition consequence none => condition.references ++ consequence.references
  | .branch condition consequence (some alternative) =>
      condition.references ++ consequence.references ++ alternative.references
  | .loop condition body => condition.references ++ body.references
  | .function declaration => declaration.references
  | .leave _ value => Expr.referencesOption value
  | .classDecl _ none methods => Function.referencesAll methods
  | .classDecl _ (some (id, superclass)) methods =>
      ⟨.read, id, superclass⟩ :: Function.referencesAll methods

def Stmt.referencesAll : List Stmt → List Reference
  | [] => []
  | first :: rest => first.references ++ Stmt.referencesAll rest

def Function.references : Function → List Reference
  | .mk _ _ body => Stmt.referencesAll body

def Function.referencesAll : List Function → List Reference
  | [] => []
  | first :: rest => first.references ++ Function.referencesAll rest

end

end LoxLang
