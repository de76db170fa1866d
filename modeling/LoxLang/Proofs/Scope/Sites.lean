import LoxLang.Scope.Resolve

/-!
Where references stand.  A site is a reference together with the scopes that
enclose it, from the innermost outward.  Sites are read off the position in the
tree alone: each scope lists the names whose declarations come before the
reference, and all names that are declared anywhere in it.
-/

namespace LoxLang

namespace Scope

/-- What opens a scope.  A class body tells whether its class has a superclass,
whose own scope is then the next one out. -/
inductive Opener where
  | block | function | superclass
  | classBody (inherits : Bool)
deriving DecidableEq, Repr

/-- A scope as a place inside it sees it. -/
structure Region where
  opener : Opener
  /-- The names declared completely before the place. -/
  complete : List Bytes
  /-- The name that is being declared around the place, if it stands in an
  initializer or names a superclass. -/
  pending : List Bytes
  /-- Every name that the scope declares, before or after the place. -/
  all : List Bytes
deriving DecidableEq, Repr

namespace Region

/-- A declaration of the name comes before the place. -/
def Holds (region : Region) (name : Bytes) : Prop :=
  name ∈ region.complete ∨ name ∈ region.pending

instance (region : Region) (name : Bytes) : Decidable (region.Holds name) :=
  inferInstanceAs (Decidable (_ ∨ _))

/-- The scope of a class body, which binds only the receiver. -/
def receiver (inherits : Bool) : Region :=
  ⟨.classBody inherits, [(thisName 0).text], [], [(thisName 0).text]⟩

/-- The scope around the body of a class with a superclass. -/
def superclass : Region :=
  ⟨.superclass, [(superName 0).text], [], [(superName 0).text]⟩

end Region

/-- The scopes seen inside the declaration of a name, before it is complete.
At top level names are global and belong to no scope. -/
def declaring (name : Bytes) : List Region → List Region
  | [] => []
  | region :: outer => { region with pending := [name] } :: outer

/-- The scopes seen after names were declared in the innermost one. -/
def declared (names : List Bytes) : List Region → List Region
  | [] => []
  | region :: outer => { region with complete := region.complete ++ names } :: outer

/-- The kind of the innermost class around a place. -/
def classAround : List Region → InClass
  | [] => .none
  | region :: outer =>
      match region.opener with
      | .classBody false => .plain
      | .classBody true => .subclass
      | _ => classAround outer

/-- A reference and the scopes around it, from the innermost outward. -/
structure Site where
  reference : Reference
  regions : List Region
deriving DecidableEq, Repr

namespace Site

/-- How many scopes out the first one is that holds the reference's name. -/
def distance? (site : Site) : Option Nat :=
  site.regions.findIdx? fun region => region.Holds site.reference.name.text

/-- The scope at a distance holds the reference's name, and no nearer one
does. -/
def FirstHeldAt (site : Site) (distance : Nat) : Prop :=
  (∃ region, site.regions[distance]? = some region ∧
    region.Holds site.reference.name.text) ∧
  ∀ nearer < distance, ∀ region, site.regions[nearer]? = some region →
    ¬ region.Holds site.reference.name.text

/-- What resolution records for the reference: its distance, except that a
receiver outside every class is not looked up. -/
def record? (site : Site) : Option Nat :=
  if site.reference.form = .self ∧ classAround site.regions = .none then none
  else site.distance?

/-- A receiver is named inside a class, and a superclass inside a class that
has one. -/
def IsPlaced (site : Site) : Prop :=
  match site.reference.form with
  | .self => classAround site.regions ≠ .none
  | .superclass => classAround site.regions = .subclass
  | .read | .assign => True

end Site

end Scope

open Scope

/-- The names that a statement declares in the scope it stands in. -/
def Stmt.declares : Stmt → List Bytes
  | .expression _ _ => []
  | .print _ => []
  | .declare name _ => [name.text]
  | .block _ => []
  | .branch _ consequence none => consequence.declares
  | .branch _ consequence (some alternative) => consequence.declares ++ alternative.declares
  | .loop _ body => body.declares
  | .function declaration => [declaration.name.text]
  | .leave _ _ => []
  | .classDecl name _ _ => [name.text]

/-- The names that statements declare in the scope they stand in. -/
def Stmt.declaresAll (statements : List Stmt) : List Bytes :=
  statements.flatMap Stmt.declares

namespace Scope.Region

/-- The scope of a block, at its start. -/
def block (body : List Stmt) : Region :=
  ⟨.block, [], [], Stmt.declaresAll body⟩

/-- The scope of a function, at the start of its body.  Parameters and body
share it. -/
def function (parameters : List Name) (body : List Stmt) : Region :=
  ⟨.function, parameters.map Name.text, [], parameters.map Name.text ++ Stmt.declaresAll body⟩

end Scope.Region

namespace Scope

/-- Places that all have the same scopes around them. -/
def sitesAt (around : List Region) (references : List Reference) : List Site :=
  references.map (⟨·, around⟩)

end Scope

mutual

/-- The references of a statement with the scopes around them, given the scopes
around the statement. -/
def Stmt.sites (around : List Region) : Stmt → List Site
  | .expression value _ => sitesAt around value.references
  | .print value => sitesAt around value.references
  | .declare name initial =>
      sitesAt (declaring name.text around) (Expr.referencesOption initial)
  | .block body => Stmt.sitesAll (.block body :: around) body
  | .branch condition consequence none =>
      sitesAt around condition.references ++ consequence.sites around
  | .branch condition consequence (some alternative) =>
      sitesAt around condition.references ++ consequence.sites around ++
        alternative.sites (declared consequence.declares around)
  | .loop condition body => sitesAt around condition.references ++ body.sites around
  | .function declaration => declaration.sites (declared [declaration.name.text] around)
  | .leave _ value => sitesAt around (Expr.referencesOption value)
  | .classDecl name none methods =>
      Function.sitesAll (.receiver false :: declared [name.text] around) methods
  | .classDecl name (some (id, superclass)) methods =>
      sitesAt (declaring name.text around) [⟨.read, id, superclass⟩] ++
        Function.sitesAll
          (.receiver true :: .superclass :: declared [name.text] around) methods

def Stmt.sitesAll (around : List Region) : List Stmt → List Site
  | [] => []
  | first :: rest =>
      first.sites around ++ Stmt.sitesAll (declared first.declares around) rest

def Function.sites (around : List Region) : Function → List Site
  | .mk _ parameters body => Stmt.sitesAll (.function parameters body :: around) body

def Function.sitesAll (around : List Region) : List Function → List Site
  | [] => []
  | first :: rest => first.sites around ++ Function.sitesAll around rest

end

@[simp]
theorem Scope.map_reference_sitesAt (around : List Region) (references : List Reference) :
    (sitesAt around references).map Site.reference = references := by
  simp [sitesAt, Function.comp_def]

mutual

theorem Stmt.map_reference_sites (around : List Region) :
    ∀ statement : Stmt, (statement.sites around).map Site.reference = statement.references
  | .expression _ _ => by simp [Stmt.sites, Stmt.references]
  | .print _ => by simp [Stmt.sites, Stmt.references]
  | .declare _ _ => by simp [Stmt.sites, Stmt.references]
  | .block body => by simp [Stmt.sites, Stmt.references, Stmt.map_reference_sitesAll _ body]
  | .branch _ consequence none => by
      simp [Stmt.sites, Stmt.references, consequence.map_reference_sites]
  | .branch _ consequence (some alternative) => by
      simp [Stmt.sites, Stmt.references, consequence.map_reference_sites,
        alternative.map_reference_sites]
  | .loop _ body => by simp [Stmt.sites, Stmt.references, body.map_reference_sites]
  | .function declaration => by
      simp [Stmt.sites, Stmt.references, declaration.map_reference_sites]
  | .leave _ _ => by simp [Stmt.sites, Stmt.references]
  | .classDecl _ none methods => by
      simp [Stmt.sites, Stmt.references, Function.map_reference_sitesAll _ methods]
  | .classDecl _ (some (_, _)) methods => by
      simp [Stmt.sites, Stmt.references, Function.map_reference_sitesAll _ methods]

theorem Stmt.map_reference_sitesAll (around : List Region) :
    ∀ statements : List Stmt,
      (Stmt.sitesAll around statements).map Site.reference = Stmt.referencesAll statements
  | [] => rfl
  | first :: rest => by
      simp [Stmt.sitesAll, Stmt.referencesAll, first.map_reference_sites,
        Stmt.map_reference_sitesAll _ rest]

theorem Function.map_reference_sites (around : List Region) :
    ∀ function : Function, (function.sites around).map Site.reference = function.references
  | .mk _ _ body => by
      simp [Function.sites, Function.references, Stmt.map_reference_sitesAll _ body]

theorem Function.map_reference_sitesAll (around : List Region) :
    ∀ functions : List Function,
      (Function.sitesAll around functions).map Site.reference = Function.referencesAll functions
  | [] => rfl
  | first :: rest => by
      simp [Function.sitesAll, Function.referencesAll, first.map_reference_sites,
        Function.map_reference_sitesAll _ rest]

end

end LoxLang
