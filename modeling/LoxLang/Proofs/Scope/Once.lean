import LoxLang.Proofs.Scope.Violations

/-!
Scopes that declare each of their names once.  Resolution reports every other scope,
so in a program that it accepts a name of a variable is not also the name of a function
or a class of the same scope.
-/

namespace LoxLang

open Scope

/-- The functions and classes that a statement declares in the scope it stands in. -/
def Stmt.callables : Stmt → List Bytes
  | .branch _ consequence none => consequence.callables
  | .branch _ consequence (some alternative) => consequence.callables ++ alternative.callables
  | .loop _ body => body.callables
  | .function declaration => [declaration.name.text]
  | .classDecl name _ _ => [name.text]
  | _ => []

theorem Stmt.declares_of_callables {text : Bytes} :
    ∀ {statement : Stmt}, text ∈ statement.callables → text ∈ statement.declares
  | .branch _ consequence none, member => @declares_of_callables _ consequence member
  | .branch _ consequence (some alternative), member => by
      rcases List.mem_append.mp member with first | second
      · exact List.mem_append_left _ (declares_of_callables first)
      · exact List.mem_append_right _ (declares_of_callables second)
  | .loop _ body, member => @declares_of_callables _ body member
  | .function _, member => member
  | .classDecl _ _ _, member => member

/-- The functions and classes of a list of statements. -/
def Stmt.callablesAll (statements : List Stmt) : List Bytes :=
  statements.flatMap Stmt.callables

theorem Stmt.declaresAll_of_callablesAll {text : Bytes} {statements : List Stmt}
    (member : text ∈ Stmt.callablesAll statements) : text ∈ Stmt.declaresAll statements := by
  obtain ⟨statement, listed, named⟩ := List.mem_flatMap.mp member
  exact List.mem_flatMap.mpr ⟨statement, listed, Stmt.declares_of_callables named⟩

/-- Where a name is declared once, and as a variable, no function or class has it. -/
theorem Stmt.not_mem_callablesAll {name : Name} {initial : Option Expr} {statements : List Stmt}
    (distinct : (Stmt.declaresAll statements).Nodup)
    (member : .declare name initial ∈ statements) :
    name.text ∉ Stmt.callablesAll statements := by
  induction statements with
  | nil => cases member
  | cons first rest inductionHypothesis =>
      rw [Stmt.declaresAll, List.flatMap_cons, List.nodup_append] at distinct
      obtain ⟨-, restDistinct, apart⟩ := distinct
      rw [Stmt.callablesAll, List.flatMap_cons, List.mem_append]
      rintro (inFirst | inRest)
      · rcases List.mem_cons.mp member with rfl | later
        · cases inFirst
        · have again : name.text ∈ Stmt.declaresAll rest :=
            List.mem_flatMap.mpr ⟨_, later, List.mem_singleton_self _⟩
          exact apart _ (Stmt.declares_of_callables inFirst) _ again rfl
      · rcases List.mem_cons.mp member with rfl | later
        · exact apart _ (List.mem_singleton_self _) _ (Stmt.declaresAll_of_callablesAll inRest) rfl
        · exact inductionHypothesis restDistinct later inRest

mutual

/-- Every scope of a statement declares each of its names once. -/
def Stmt.DeclaresOnce : Stmt → Prop
  | .block body => (Stmt.declaresAll body).Nodup ∧ Stmt.DeclaresOnceAll body
  | .branch _ consequence none => consequence.DeclaresOnce
  | .branch _ consequence (some alternative) =>
      consequence.DeclaresOnce ∧ alternative.DeclaresOnce
  | .loop _ body => body.DeclaresOnce
  | .function declaration => declaration.DeclaresOnce
  | .classDecl _ _ methods => Function.DeclaresOnceAll methods
  | _ => True

def Stmt.DeclaresOnceAll : List Stmt → Prop
  | [] => True
  | first :: rest => first.DeclaresOnce ∧ Stmt.DeclaresOnceAll rest

def Function.DeclaresOnce : Function → Prop
  | .mk _ parameters body =>
      (parameters.map Name.text ++ Stmt.declaresAll body).Nodup ∧ Stmt.DeclaresOnceAll body

def Function.DeclaresOnceAll : List Function → Prop
  | [] => True
  | first :: rest => first.DeclaresOnce ∧ Function.DeclaresOnceAll rest

end

/-- A function has a parameter or a variable of its body with the name. -/
def Function.DeclaresVariable (name : Bytes) : Function → Prop
  | .mk _ parameters body =>
      name ∈ parameters.map Name.text ∨
        ∃ declared initial, .declare declared initial ∈ body ∧ declared.text = name

theorem Function.DeclaresOnce.not_mem_callablesAll {text : Bytes} {name : Name}
    {parameters : List Name} {body : List Stmt}
    (once : Function.DeclaresOnce (.mk name parameters body))
    (declares : Function.DeclaresVariable text (.mk name parameters body)) :
    text ∉ Stmt.callablesAll body := by
  obtain ⟨-, distinct, apart⟩ := List.nodup_append.mp once.1
  rcases declares with parameter | ⟨declared, initial, member, rfl⟩
  · exact fun callable => apart _ parameter _ (Stmt.declaresAll_of_callablesAll callable) rfl
  · exact Stmt.not_mem_callablesAll distinct member

namespace Scope

variable {region : Region} {outer : List Region} {functions : List Surrounding}

theorem nodup_append_of_not_holds {name : Bytes} (held : ¬ region.Holds name)
    (distinct : region.complete.Nodup) : (region.complete ++ [name]).Nodup := by
  rw [List.nodup_append]
  refine ⟨distinct, by simp, fun earlier member later isName same => ?_⟩
  rw [same, List.mem_singleton.mp isName] at member
  exact held (.inl member)

/-- A scope without a redeclaration holds each of its names once. -/
theorem nodup_declares : ∀ (statement : Stmt) {region : Region},
    (∀ place ∈ statement.places (region :: outer) functions, place.redeclares = false) →
      region.complete.Nodup → (region.complete ++ statement.declares).Nodup
  | .expression _ _, _, _, distinct => by simpa [Stmt.declares] using distinct
  | .print _, _, _, distinct => by simpa [Stmt.declares] using distinct
  | .declare name _, _, apart, distinct =>
      nodup_append_of_not_holds (by simpa using (List.forall_mem_cons.mp apart).1) distinct
  | .block _, _, _, distinct => by simpa [Stmt.declares] using distinct
  | .branch _ consequence none, _, apart, distinct =>
      nodup_declares consequence (List.forall_mem_append.mp apart).2 distinct
  | .branch _ consequence (some alternative), _, apart, distinct => by
      obtain ⟨first, second⟩ := List.forall_mem_append.mp apart
      have middle := nodup_declares consequence (List.forall_mem_append.mp first).2 distinct
      have whole := nodup_declares alternative second middle
      rwa [List.append_assoc] at whole
  | .loop _ body, _, apart, distinct =>
      nodup_declares body (List.forall_mem_append.mp apart).2 distinct
  | .function declaration, _, apart, distinct =>
      nodup_append_of_not_holds (by simpa using (List.forall_mem_cons.mp apart).1) distinct
  | .leave _ _, _, _, distinct => by simpa [Stmt.declares] using distinct
  | .classDecl name none _, _, apart, distinct =>
      nodup_append_of_not_holds (by simpa using (List.forall_mem_cons.mp apart).1) distinct
  | .classDecl name (some _) _, _, apart, distinct =>
      nodup_append_of_not_holds (by simpa using (List.forall_mem_cons.mp apart).1) distinct

theorem nodup_declaresAll : ∀ (statements : List Stmt) {region : Region},
    (∀ place ∈ Stmt.placesAll (region :: outer) functions statements, place.redeclares = false) →
      region.complete.Nodup → (region.complete ++ Stmt.declaresAll statements).Nodup
  | [], _, _, distinct => by simpa [Stmt.declaresAll] using distinct
  | first :: rest, _, apart, distinct => by
      obtain ⟨inFirst, inRest⟩ := List.forall_mem_append.mp apart
      have whole := nodup_declaresAll rest inRest (nodup_declares first inFirst distinct)
      rwa [List.append_assoc] at whole

theorem nodup_parameters : ∀ (parameters : List Name) {region : Region},
    (∀ place ∈ parameterPlaces (region :: outer) parameters, place.redeclares = false) →
      region.complete.Nodup → (region.complete ++ parameters.map Name.text).Nodup
  | [], _, _, distinct => by simpa using distinct
  | first :: rest, _, apart, distinct => by
      obtain ⟨inFirst, inRest⟩ := List.forall_mem_cons.mp apart
      have whole := nodup_parameters rest inRest
        (nodup_append_of_not_holds (by simpa using inFirst) distinct)
      rwa [List.append_assoc] at whole

mutual

theorem declaresOnce : ∀ (statement : Stmt) {regions : List Region}
    {functions : List Surrounding},
    (∀ place ∈ statement.places regions functions, place.redeclares = false) →
      statement.DeclaresOnce
  | .expression _ _, _, _, _ => trivial
  | .print _, _, _, _ => trivial
  | .declare _ _, _, _, _ => trivial
  | .block body, _, _, apart =>
      ⟨nodup_declaresAll body apart List.nodup_nil, declaresOnceAll body apart⟩
  | .branch _ consequence none, _, _, apart =>
      declaresOnce consequence (List.forall_mem_append.mp apart).2
  | .branch _ consequence (some alternative), _, _, apart => by
      obtain ⟨first, second⟩ := List.forall_mem_append.mp apart
      exact ⟨declaresOnce consequence (List.forall_mem_append.mp first).2,
        declaresOnce alternative second⟩
  | .loop _ body, _, _, apart => declaresOnce body (List.forall_mem_append.mp apart).2
  | .function declaration, _, _, apart =>
      function_declaresOnce declaration (List.forall_mem_cons.mp apart).2
  | .leave _ _, _, _, _ => trivial
  | .classDecl _ none methods, _, _, apart =>
      functions_declareOnce methods (List.forall_mem_cons.mp apart).2
  | .classDecl _ (some (_, _)) methods, _, _, apart =>
      functions_declareOnce methods fun place member =>
        apart place (.tail _ (.tail _ (.tail _ member)))

theorem declaresOnceAll : ∀ (statements : List Stmt) {regions : List Region}
    {functions : List Surrounding},
    (∀ place ∈ Stmt.placesAll regions functions statements, place.redeclares = false) →
      Stmt.DeclaresOnceAll statements
  | [], _, _, _ => trivial
  | first :: rest, _, _, apart => by
      obtain ⟨inFirst, inRest⟩ := List.forall_mem_append.mp apart
      exact ⟨declaresOnce first inFirst, declaresOnceAll rest inRest⟩

theorem function_declaresOnce : ∀ (declaration : Function) {regions : List Region}
    {functions : List Surrounding} {form : Diagnostic.Callable},
    (∀ place ∈ declaration.places regions functions form, place.redeclares = false) →
      declaration.DeclaresOnce
  | .mk _ parameters body, _, _, _, apart => by
      obtain ⟨inParameters, inBody⟩ := List.forall_mem_append.mp apart
      have distinct := nodup_parameters parameters inParameters List.nodup_nil
      exact ⟨nodup_declaresAll body inBody distinct, declaresOnceAll body inBody⟩

theorem functions_declareOnce : ∀ (declarations : List Function) {regions : List Region}
    {functions : List Surrounding},
    (∀ place ∈ Function.placesAll regions functions declarations, place.redeclares = false) →
      Function.DeclaresOnceAll declarations
  | [], _, _, _ => trivial
  | first :: rest, _, _, apart => by
      obtain ⟨inFirst, inRest⟩ := List.forall_mem_append.mp apart
      exact ⟨function_declaresOnce first inFirst, functions_declareOnce rest inRest⟩

end

end Scope

/-- In a program that is resolved without an error every scope declares each of its
names once. -/
theorem Stmt.declaresOnceAll_of_silent {statements : List Stmt} {table : Resolution}
    (silent : (resolve statements table).2 = []) : Stmt.DeclaresOnceAll statements := by
  have reports := (resolveStmts_reports {} [] [] rfl rfl statements ⟨[], table, []⟩ .nil).1
  unfold Reports at reports
  rw [show (resolveStmts {} statements ⟨[], table, []⟩).errors = [] from silent,
    List.nil_perm, List.nil_append, List.flatMap_eq_nil_iff] at reports
  have apart : ∀ place ∈ Stmt.placesAll [] [] statements, place.redeclares = false :=
    fun place member => (Place.violations_eq_nil_iff place).mp (reports place member)
      .alreadyDeclared
  exact declaresOnceAll statements apart

end LoxLang
