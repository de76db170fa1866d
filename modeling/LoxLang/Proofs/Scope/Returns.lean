import LoxLang.Proofs.Scope.Violations

/-!
Where programs return.  At top level nothing returns, and an initializer returns without a
value.  A program that breaks no rule keeps to this in all its functions and methods.
-/

namespace LoxLang

open Scope

/-- A return that the function around it allows. -/
def Scope.InFunction.AllowsReturn (form : InFunction) (hasValue : Bool) : Prop :=
  form ≠ .none ∧ (form = .initializer → hasValue = false)

mutual

/-- The returns of a statement are allowed by the functions around them, of which the
innermost around the statement is given. -/
def Stmt.ReturnsIn (form : InFunction) : Stmt → Prop
  | .block body => Stmt.AllReturnIn form body
  | .branch _ consequence none => consequence.ReturnsIn form
  | .branch _ consequence (some alternative) =>
      consequence.ReturnsIn form ∧ alternative.ReturnsIn form
  | .loop _ body => body.ReturnsIn form
  | .function declaration => declaration.ReturnsIn .function
  | .leave _ value => form.AllowsReturn value.isSome
  | .classDecl _ _ methods => Function.MethodsReturn methods
  | .expression _ _ | .print _ | .declare _ _ => True

def Stmt.AllReturnIn (form : InFunction) : List Stmt → Prop
  | [] => True
  | first :: rest => first.ReturnsIn form ∧ Stmt.AllReturnIn form rest

/-- The returns of a function of the given form are allowed. -/
def Function.ReturnsIn (form : InFunction) : Function → Prop
  | .mk _ _ body => Stmt.AllReturnIn form body

def Function.MethodsReturn : List Function → Prop
  | [] => True
  | first :: rest => first.ReturnsIn (inMethod first.name) ∧ Function.MethodsReturn rest

end

theorem Function.returnsIn_iff {declaration : Function} {form : InFunction} :
    declaration.ReturnsIn form ↔ Stmt.AllReturnIn form declaration.body := by
  cases declaration
  exact Iff.rfl

theorem Function.MethodsReturn.returnsIn {methods : List Function}
    (returns : Function.MethodsReturn methods) {method : Function} (listed : method ∈ methods) :
    method.ReturnsIn (inMethod method.name) := by
  induction methods with
  | nil => cases listed
  | cons first rest inductionHypothesis =>
      rcases List.mem_cons.mp listed with rfl | later
      · exact returns.1
      · exact inductionHypothesis returns.2 later

theorem Stmt.AllReturnIn.returnsIn {form : InFunction} {statements : List Stmt}
    (returns : Stmt.AllReturnIn form statements) {statement : Stmt}
    (listed : statement ∈ statements) : statement.ReturnsIn form := by
  induction statements with
  | nil => cases listed
  | cons first rest inductionHypothesis =>
      rcases List.mem_cons.mp listed with rfl | later
      · exact returns.1
      · exact inductionHypothesis returns.2 later

namespace Scope

/-- No place breaks a rule about returns. -/
def ReturnsAllowed (places : List Place) : Prop :=
  ∀ place ∈ places, place.returnsOutside = false ∧ place.returnsFromInitializer = false

theorem ReturnsAllowed.append {first second : List Place}
    (allowed : ReturnsAllowed (first ++ second)) :
    ReturnsAllowed first ∧ ReturnsAllowed second :=
  List.forall_mem_append.mp allowed

theorem ReturnsAllowed.tail {first : Place} {rest : List Place}
    (allowed : ReturnsAllowed (first :: rest)) : ReturnsAllowed rest :=
  fun place member => allowed place (List.mem_cons_of_mem _ member)

/-- A return that breaks no rule. -/
theorem allowsReturn_of_place {line : Nat} {hasValue : Bool} {functions : List Surrounding}
    (outside : (Place.leave line hasValue functions).returnsOutside = false)
    (inside : (Place.leave line hasValue functions).returnsFromInitializer = false) :
    (functionAround functions).AllowsReturn hasValue := by
  cases functions with
  | nil => cases outside
  | cons innermost around =>
      obtain ⟨form, name⟩ := innermost
      cases form with
      | function => exact ⟨InFunction.noConfusion, fun wrong => InFunction.noConfusion wrong⟩
      | method =>
          simp only [functionAround, InFunction.AllowsReturn]
          by_cases isInitializer : name = initializerName
          · rw [if_pos isInitializer]
            refine ⟨InFunction.noConfusion, fun _ => ?_⟩
            cases hasValue with
            | false => rfl
            | true => simp [isInitializer] at inside
          · rw [if_neg isInitializer]
            exact ⟨InFunction.noConfusion, fun wrong => InFunction.noConfusion wrong⟩

end Scope

mutual

/-- A statement whose places break no rule about returns. -/
theorem Stmt.returnsIn_of_places (functions : List Surrounding) :
    ∀ (statement : Stmt) (regions : List Region),
      ReturnsAllowed (statement.places regions functions) →
        statement.ReturnsIn (functionAround functions)
  | .expression _ _, _, _ => trivial
  | .print _, _, _ => trivial
  | .declare _ _, _, _ => trivial
  | .block body, _, allowed => Stmt.allReturnIn_of_places functions body _ allowed
  | .branch _ consequence none, _, allowed =>
      Stmt.returnsIn_of_places functions consequence _ allowed.append.2
  | .branch _ consequence (some alternative), _, allowed =>
      ⟨Stmt.returnsIn_of_places functions consequence _ allowed.append.1.append.2,
        Stmt.returnsIn_of_places functions alternative _ allowed.append.2⟩
  | .loop _ body, _, allowed => Stmt.returnsIn_of_places functions body _ allowed.append.2
  | .function declaration, _, allowed =>
      Function.returnsIn_of_places functions .function declaration _ allowed.tail
  | .leave _ _, _, allowed => by
      obtain ⟨outside, inside⟩ := allowed _ List.mem_cons_self
      exact allowsReturn_of_place outside inside
  | .classDecl _ none methods, _, allowed =>
      Function.methodsReturn_of_places functions methods _ allowed.tail
  | .classDecl _ (some _) methods, _, allowed =>
      Function.methodsReturn_of_places functions methods _ allowed.tail.tail.tail

theorem Stmt.allReturnIn_of_places (functions : List Surrounding) :
    ∀ (statements : List Stmt) (regions : List Region),
      ReturnsAllowed (Stmt.placesAll regions functions statements) →
        Stmt.AllReturnIn (functionAround functions) statements
  | [], _, _ => trivial
  | first :: rest, _, allowed =>
      ⟨Stmt.returnsIn_of_places functions first _ allowed.append.1,
        Stmt.allReturnIn_of_places functions rest _ allowed.append.2⟩

theorem Function.returnsIn_of_places (functions : List Surrounding)
    (form : Diagnostic.Callable) :
    ∀ (declaration : Function) (regions : List Region),
      ReturnsAllowed (declaration.places regions functions form) →
        declaration.ReturnsIn (functionAround (⟨form, declaration.name.text⟩ :: functions))
  | .mk name _ body, _, allowed =>
      Stmt.allReturnIn_of_places (⟨form, name.text⟩ :: functions) body _ allowed.append.2

theorem Function.methodsReturn_of_places (functions : List Surrounding) :
    ∀ (methods : List Function) (regions : List Region),
      ReturnsAllowed (Function.placesAll regions functions methods) →
        Function.MethodsReturn methods
  | [], _, _ => trivial
  | first :: rest, _, allowed =>
      ⟨Function.returnsIn_of_places functions .method first _ allowed.append.1,
        Function.methodsReturn_of_places functions rest _ allowed.append.2⟩

end

/-- What resolves without an error returns only where it may. -/
theorem Stmt.allReturnIn_of_resolve {statements : List Stmt} {table : Resolution}
    (silent : (resolve statements table).2 = []) : Stmt.AllReturnIn .none statements := by
  have reports : (resolve statements table).2.Perm
      ((Stmt.placesAll [] [] statements).flatMap Place.violations) :=
    (resolveStmts_reports {} [] [] rfl rfl statements ⟨[], table, []⟩ .nil).1
  rw [silent, List.nil_perm, List.flatMap_eq_nil_iff] at reports
  refine Stmt.allReturnIn_of_places [] statements [] fun place member => ?_
  have kept := (place.violations_eq_nil_iff).mp (reports place member)
  exact ⟨kept .returnAtTopLevel, kept .returnValueFromInitializer⟩

end LoxLang
