import LoxLang.Proofs.Scope.Sound

/-!
Which class a reference to a superclass belongs to.  The references that a method makes
to the superclass of its own class are those in its body, at any depth of blocks and
functions, but not those in the classes that are declared there.
-/

namespace LoxLang

open Scope

/-- The references to a superclass among references. -/
def Reference.supers (references : List Reference) : List RefId :=
  (references.filter fun reference => reference.form = .superclass).map Reference.id

mutual

/-- The references of a statement to the superclass of the class around it. -/
def Stmt.supers : Stmt → List RefId
  | .expression value _ => Reference.supers value.references
  | .print value => Reference.supers value.references
  | .declare _ initial => Reference.supers (Expr.referencesOption initial)
  | .block body => Stmt.supersAll body
  | .branch condition consequence none =>
      Reference.supers condition.references ++ consequence.supers
  | .branch condition consequence (some alternative) =>
      Reference.supers condition.references ++ consequence.supers ++ alternative.supers
  | .loop condition body => Reference.supers condition.references ++ body.supers
  | .function declaration => declaration.supers
  | .leave _ value => Reference.supers (Expr.referencesOption value)
  | .classDecl _ _ _ => []

def Stmt.supersAll : List Stmt → List RefId
  | [] => []
  | first :: rest => first.supers ++ Stmt.supersAll rest

def Function.supers : Function → List RefId
  | .mk _ _ body => Stmt.supersAll body

end

theorem Function.supers_eq (declaration : Function) :
    declaration.supers = Stmt.supersAll declaration.body := by
  cases declaration
  rfl

namespace Reference

variable {id : RefId}

theorem mem_supers {references : List Reference} :
    id ∈ supers references ↔
      ∃ reference ∈ references, reference.form = .superclass ∧ reference.id = id := by
  simp [supers, and_assoc]

@[simp]
theorem supers_append (first second : List Reference) :
    supers (first ++ second) = supers first ++ supers second := by
  simp [supers]

end Reference

namespace Scope

/-- A site of a reference to the superclass of the class around it. -/
def Site.RefersOutside (site : Site) (id : RefId) (around : List Region) : Prop :=
  site.reference.form = .superclass ∧ site.reference.id = id ∧
    classAround site.regions = classAround around

theorem exists_sitesAt {id : RefId} {references : List Reference}
    (member : id ∈ Reference.supers references) (around : List Region) :
    ∃ site ∈ sitesAt around references, site.RefersOutside id around := by
  obtain ⟨reference, listed, isSuper, same⟩ := Reference.mem_supers.mp member
  exact ⟨⟨reference, around⟩, List.mem_map_of_mem listed, isSuper, same, rfl⟩

end Scope

mutual

/-- Every reference to the superclass of the class around a statement has a site with the
same class around it. -/
theorem Stmt.exists_site {id : RefId} : ∀ {statement : Stmt} {around : List Region},
    id ∈ statement.supers → ∃ site ∈ statement.sites around, site.RefersOutside id around
  | .expression _ _, around, member => exists_sitesAt member around
  | .print _, around, member => exists_sitesAt member around
  | .declare name initial, around, member => by
      obtain ⟨site, listed, isSuper, same, inside⟩ :=
        exists_sitesAt member (declaring name.text around)
      exact ⟨site, listed, isSuper, same, inside.trans (classAround_declaring name.text around)⟩
  | .block body, around, member => @Stmt.exists_siteAll id body (.block body :: around) member
  | .branch condition consequence none, around, member => by
      rcases List.mem_append.mp member with inCondition | inConsequence
      · obtain ⟨site, listed, refers⟩ := exists_sitesAt inCondition around
        exact ⟨site, List.mem_append_left _ listed, refers⟩
      · obtain ⟨site, listed, refers⟩ := Stmt.exists_site inConsequence
        exact ⟨site, List.mem_append_right _ listed, refers⟩
  | .branch condition consequence (some alternative), around, member => by
      rcases List.mem_append.mp member with inFront | inAlternative
      · rcases List.mem_append.mp inFront with inCondition | inConsequence
        · obtain ⟨site, listed, refers⟩ := exists_sitesAt inCondition around
          exact ⟨site, List.mem_append_left _ (List.mem_append_left _ listed), refers⟩
        · obtain ⟨site, listed, refers⟩ := Stmt.exists_site inConsequence
          exact ⟨site, List.mem_append_left _ (List.mem_append_right _ listed), refers⟩
      · obtain ⟨site, listed, isSuper, same, inside⟩ := Stmt.exists_site inAlternative
        exact ⟨site, List.mem_append_right _ listed, isSuper, same,
          inside.trans (classAround_declared _ _)⟩
  | .loop condition body, around, member => by
      rcases List.mem_append.mp member with inCondition | inBody
      · obtain ⟨site, listed, refers⟩ := exists_sitesAt inCondition around
        exact ⟨site, List.mem_append_left _ listed, refers⟩
      · obtain ⟨site, listed, refers⟩ := Stmt.exists_site inBody
        exact ⟨site, List.mem_append_right _ listed, refers⟩
  | .function declaration, around, member => by
      obtain ⟨site, listed, isSuper, same, inside⟩ := Function.exists_site member
      exact ⟨site, listed, isSuper, same, inside.trans (classAround_declared _ _)⟩
  | .leave _ _, around, member => exists_sitesAt member around
  | .classDecl _ _ _, _, member => by cases member

theorem Stmt.exists_siteAll {id : RefId} : ∀ {statements : List Stmt} {around : List Region},
    id ∈ Stmt.supersAll statements →
      ∃ site ∈ Stmt.sitesAll around statements, site.RefersOutside id around
  | [], _, member => by cases member
  | first :: rest, around, member => by
      rcases List.mem_append.mp member with inFirst | inRest
      · obtain ⟨site, listed, refers⟩ := Stmt.exists_site inFirst
        exact ⟨site, List.mem_append_left _ listed, refers⟩
      · obtain ⟨site, listed, isSuper, same, inside⟩ := Stmt.exists_siteAll inRest
        exact ⟨site, List.mem_append_right _ listed, isSuper, same,
          inside.trans (classAround_declared _ _)⟩

theorem Function.exists_site {id : RefId} : ∀ {declaration : Function} {around : List Region},
    id ∈ declaration.supers →
      ∃ site ∈ declaration.sites around, site.RefersOutside id around
  | .mk _ parameters body, around, member =>
      @Stmt.exists_siteAll id body (.function parameters body :: around) member

end

end LoxLang
