import LoxLang.Proofs.Scope.Lexical

/-!
The scope rules and what breaks them.  A place is a declaration, a reference, a
return or the naming of a superclass, together with the scopes and functions
around it; places are read off the position in the tree alone.  Each rule is a
test on one place.  Resolution reports one error for every rule that a place
breaks, and nothing else.
-/

namespace LoxLang

namespace Scope

/-- A function around a place. -/
structure Surrounding where
  form : Diagnostic.Callable
  name : Bytes
deriving DecidableEq, Repr

/-- A place that the rules speak about.  Scopes and functions are listed from the
innermost outward. -/
inductive Place where
  | declaration (name : Name) (regions : List Region)
  | reference (site : Site)
  | leave (line : Nat) (hasValue : Bool) (functions : List Surrounding)
  | inheritance (name superclass : Name)
deriving DecidableEq, Repr

namespace Place

/-- A declaration in a local scope of a name that this scope already holds. -/
@[simp]
def redeclares : Place → Bool
  | .declaration name (region :: _) => region.Holds name.text
  | _ => false

/-- A variable read in the initializer of a local variable of the same name. -/
@[simp]
def readsOwnInitial : Place → Bool
  | .reference ⟨⟨.read, _, name⟩, region :: _⟩ => region.pending.contains name.text
  | _ => false

@[simp]
def returnsOutside : Place → Bool
  | .leave _ _ functions => functions.isEmpty
  | _ => false

/-- A return with a value whose innermost function is an initializer. -/
@[simp]
def returnsFromInitializer : Place → Bool
  | .leave _ true (innermost :: _) => innermost = ⟨.method, initializerName⟩
  | _ => false

@[simp]
def namesReceiverOutside : Place → Bool
  | .reference ⟨⟨.self, _, _⟩, regions⟩ => classAround regions = .none
  | _ => false

@[simp]
def namesSuperOutside : Place → Bool
  | .reference ⟨⟨.superclass, _, _⟩, regions⟩ => classAround regions = .none
  | _ => false

/-- A superclass named where the innermost class has none. -/
@[simp]
def namesMissingSuper : Place → Bool
  | .reference ⟨⟨.superclass, _, _⟩, regions⟩ => classAround regions = .plain
  | _ => false

@[simp]
def inheritsItself : Place → Bool
  | .inheritance name superclass => superclass.text = name.text
  | _ => false

/-- The place breaks the rule that a cause stands for. -/
@[simp]
def breaks (place : Place) : Diagnostic.Cause → Bool
  | .alreadyDeclared => place.redeclares
  | .readInOwnInitializer => place.readsOwnInitial
  | .returnAtTopLevel => place.returnsOutside
  | .returnValueFromInitializer => place.returnsFromInitializer
  | .thisOutsideClass => place.namesReceiverOutside
  | .superOutsideClass => place.namesSuperOutside
  | .superWithoutSuperclass => place.namesMissingSuper
  | .inheritsFromItself => place.inheritsItself
  | _ => false

/-- The name that a broken rule is reported at. -/
def name : Place → Name
  | .declaration name _ => name
  | .reference site => site.reference.name
  | .leave line _ _ => returnName line
  | .inheritance _ superclass => superclass

/-- The rules, each by the cause that it is reported with. -/
def rules : List Diagnostic.Cause :=
  [.alreadyDeclared, .readInOwnInitializer, .returnAtTopLevel, .returnValueFromInitializer,
    .thisOutsideClass, .superOutsideClass, .superWithoutSuperclass, .inheritsFromItself]

/-- One error for every rule that the place breaks. -/
def violations (place : Place) : List Diagnostic :=
  (rules.filter place.breaks).map fun cause => ⟨cause, place.name.line, .atLexeme place.name.text⟩

theorem mem_rules_of_breaks {place : Place} {cause : Diagnostic.Cause}
    (broken : place.breaks cause = true) : cause ∈ rules := by
  cases cause <;> first | decide | simp at broken

theorem filter_rules :
    ∀ cause ∈ rules, rules.filter (fun other => decide (other = cause)) = [cause] := by
  decide

theorem violations_eq_nil_iff (place : Place) :
    place.violations = [] ↔ ∀ cause, place.breaks cause = false := by
  unfold violations
  rw [List.map_eq_nil_iff, List.filter_eq_nil_iff]
  constructor
  · intro kept cause
    by_contra broken
    have broken := eq_true_of_ne_false broken
    exact kept cause (mem_rules_of_breaks broken) broken
  · intro kept cause _
    rw [kept cause]
    exact Bool.false_ne_true

end Place

/-- References that all have the same scopes around them. -/
def referencePlaces (regions : List Region) (references : List Reference) : List Place :=
  references.map fun reference => .reference ⟨reference, regions⟩

/-- Parameters are declared one after the other. -/
def parameterPlaces (regions : List Region) : List Name → List Place
  | [] => []
  | first :: rest =>
      .declaration first regions :: parameterPlaces (declared [first.text] regions) rest

end Scope

open Scope

mutual

/-- The places of a statement, given the scopes and functions around it. -/
def Stmt.places (regions : List Region) (functions : List Surrounding) : Stmt → List Place
  | .expression value _ => referencePlaces regions value.references
  | .print value => referencePlaces regions value.references
  | .declare name initial =>
      .declaration name regions ::
        referencePlaces (declaring name.text regions) (Expr.referencesOption initial)
  | .block body => Stmt.placesAll (.block body :: regions) functions body
  | .branch condition consequence none =>
      referencePlaces regions condition.references ++ consequence.places regions functions
  | .branch condition consequence (some alternative) =>
      referencePlaces regions condition.references ++ consequence.places regions functions ++
        alternative.places (declared consequence.declares regions) functions
  | .loop condition body =>
      referencePlaces regions condition.references ++ body.places regions functions
  | .function declaration =>
      .declaration declaration.name regions ::
        declaration.places (declared [declaration.name.text] regions) functions .function
  | .leave line value =>
      .leave line value.isSome functions ::
        referencePlaces regions (Expr.referencesOption value)
  | .classDecl name none methods =>
      .declaration name regions ::
        Function.placesAll (.receiver false :: declared [name.text] regions) functions methods
  | .classDecl name (some (id, superclass)) methods =>
      .declaration name regions :: .inheritance name superclass ::
        .reference ⟨⟨.read, id, superclass⟩, declared [name.text] regions⟩ ::
        Function.placesAll (.receiver true :: .superclass :: declared [name.text] regions)
          functions methods

def Stmt.placesAll (regions : List Region) (functions : List Surrounding) :
    List Stmt → List Place
  | [] => []
  | first :: rest =>
      first.places regions functions ++
        Stmt.placesAll (declared first.declares regions) functions rest

def Function.places (regions : List Region) (functions : List Surrounding)
    (form : Diagnostic.Callable) : Function → List Place
  | .mk name parameters body =>
      parameterPlaces ({ Region.function parameters body with complete := [] } :: regions)
          parameters ++
        Stmt.placesAll (.function parameters body :: regions) (⟨form, name.text⟩ :: functions)
          body

def Function.placesAll (regions : List Region) (functions : List Surrounding) :
    List Function → List Place
  | [] => []
  | first :: rest =>
      first.places regions functions .method ++ Function.placesAll regions functions rest

end

namespace Scope

/-- A walk over a piece of the tree with these places reports what they
violate. -/
def Reports (places : List Place) (before after : State) : Prop :=
  after.errors.Perm (before.errors ++ places.flatMap Place.violations)

namespace Reports

variable {before middle after : State}

theorem ofErrors (same : after.errors = before.errors) : Reports [] before after := by
  simp [Reports, same]

theorem append {first second : List Place} (left : Reports first before middle)
    (right : Reports second middle after) : Reports (first ++ second) before after := by
  unfold Reports at *
  rw [List.flatMap_append, ← List.append_assoc]
  exact right.trans (left.append_right _)

theorem cons {place : Place} {rest : List Place} (left : Reports [place] before middle)
    (right : Reports rest middle after) : Reports (place :: rest) before after :=
  left.append right

/-- The order of a list of places does not matter. -/
theorem ofPerm {places others : List Place} (reports : Reports places before after)
    (same : places.Perm others) : Reports others before after :=
  reports.trans (List.Perm.append_left _ (same.flatMap_right _))

/-- Only the errors count. -/
theorem ofSame {places : List Place} {earlier later : State}
    (reports : Reports places before after) (start : before.errors = earlier.errors)
    (final : later.errors = after.errors) : Reports places earlier later := by
  unfold Reports at *
  rw [final, ← start]
  exact reports

/-- A place that breaks exactly one rule is reported once. -/
theorem single {place : Place} (cause : Diagnostic.Cause)
    (only : ∀ other, place.breaks other = decide (other = cause)) (known : cause ∈ Place.rules) :
    Reports [place] before (before.report place.name cause) := by
  have broken : place.violations = [⟨cause, place.name.line, .atLexeme place.name.text⟩] := by
    unfold Place.violations
    rw [funext only, Place.filter_rules cause known]
    rfl
  simp [Reports, State.report, broken]

theorem quiet {place : Place} (kept : ∀ cause, place.breaks cause = false)
    (same : after.errors = before.errors) : Reports [place] before after := by
  simp [Reports, same, (Place.violations_eq_nil_iff place).mpr kept]

/-- A test that decides the only rule a place can break. -/
theorem ofTest (place : Place) (cause : Diagnostic.Cause) (test : Prop) [Decidable test]
    (known : cause ∈ Place.rules)
    (only : ∀ other, place.breaks other = (decide (other = cause) && decide test)) :
    Reports [place] before (if test then before.report place.name cause else before) := by
  split
  · next holds =>
      refine single cause (fun other => ?_) known
      rw [only other, decide_eq_true holds, Bool.and_true]
  · next fails =>
      refine quiet (fun other => ?_) rfl
      rw [only other, decide_eq_false fails, Bool.and_false]

end Reports

/-- The function around a place as resolution tracks it. -/
def functionAround : List Surrounding → InFunction
  | [] => .none
  | ⟨.function, _⟩ :: _ => .function
  | ⟨.method, name⟩ :: _ => if name = initializerName then .initializer else .method

theorem Reflects.isIncomplete_iff {state : State} {regions : List Region}
    (reflects : Reflects state.scopes regions) (text : Bytes) :
    state.isIncomplete text = true ↔ ∃ region ∈ regions.head?, text ∈ region.pending := by
  rw [State.isIncomplete_iff, reflects.marks]

/-- A variable read is reported inside the initializer of its name. -/
theorem Reports.read {state : State} {regions : List Region} (id : RefId) (name : Name)
    (reflects : Reflects state.scopes regions) :
    Reports [.reference ⟨⟨.read, id, name⟩, regions⟩] state (state.read id name) := by
  have tested : Reports [.reference ⟨⟨.read, id, name⟩, regions⟩] state
      (if state.isIncomplete name.text = true then state.report name .readInOwnInitializer
        else state) := by
    refine Reports.ofTest (.reference _) _ _ (by decide) fun other => ?_
    rw [Bool.eq_iff_iff, Bool.and_eq_true, decide_eq_true_iff, decide_eq_true_iff,
      reflects.isIncomplete_iff]
    cases regions <;> cases other <;> simp
  exact tested.ofSame rfl (State.bind_errors _ _ _)

/-- An assignment breaks no rule by itself. -/
theorem Reports.assign (state : State) (regions : List Region) (id : RefId) (name : Name) :
    Reports [.reference ⟨⟨.assign, id, name⟩, regions⟩] state (state.bind id name.text) := by
  refine Reports.quiet (fun other => ?_) (State.bind_errors _ _ _)
  cases other <;> simp

@[simp]
theorem referencePlaces_append (regions : List Region) (first second : List Reference) :
    referencePlaces regions (first ++ second) =
      referencePlaces regions first ++ referencePlaces regions second :=
  List.map_append

mutual

theorem resolveExpr_reports {context : Context} {regions : List Region}
    (inside : context.inClass = classAround regions) :
    ∀ (value : Expr) (state : State), Reflects state.scopes regions →
      Reports (referencePlaces regions value.references) state (resolveExpr context value state)
  | .literal _, _, _ => .ofErrors rfl
  | .read id name, _, reflects => .read id name reflects
  | .assign id name value, state, reflects => by
      simp only [Expr.references, referencePlaces_append]
      exact (resolveExpr_reports inside value state reflects).append (.assign _ _ id name)
  | .unary _ _ operand, state, reflects => resolveExpr_reports inside operand state reflects
  | .binary _ _ left right, state, reflects => by
      simp only [Expr.references, referencePlaces_append]
      exact (resolveExpr_reports inside left state reflects).append
        (resolveExpr_reports inside right _ (reflects.afterExpr context left))
  | .logical _ left right, state, reflects => by
      simp only [Expr.references, referencePlaces_append]
      exact (resolveExpr_reports inside left state reflects).append
        (resolveExpr_reports inside right _ (reflects.afterExpr context left))
  | .group inner, state, reflects => resolveExpr_reports inside inner state reflects
  | .call callee arguments _, state, reflects => by
      simp only [Expr.references, referencePlaces_append]
      exact (resolveExpr_reports inside callee state reflects).append
        (resolveExprs_reports inside arguments _ (reflects.afterExpr context callee))
  | .get object _, state, reflects => resolveExpr_reports inside object state reflects
  | .set object _ value, state, reflects => by
      simp only [Expr.references, referencePlaces_append]
      -- The value is visited first, although its references come last.
      exact ((resolveExpr_reports inside value state reflects).append
        (resolveExpr_reports inside object _ (reflects.afterExpr context value))).ofPerm
          List.perm_append_comm
  | .self id line, state, _ => by
      have tested : Reports [.reference ⟨⟨.self, id, thisName line⟩, regions⟩] state
          (if context.inClass = .none then state.report (thisName line) .thisOutsideClass
            else state) := by
        refine Reports.ofTest (.reference _) _ _ (by decide) fun other => ?_
        rw [inside]
        cases other <;> simp
      refine tested.ofSame rfl ?_
      simp only [resolveExpr]
      split
      · rfl
      · exact State.bind_errors _ _ _
  | .superMethod id line _, state, _ => by
      have tested : Reports [.reference ⟨⟨.superclass, id, superName line⟩, regions⟩] state
          (match context.inClass with
            | .none => state.report (superName line) .superOutsideClass
            | .plain => state.report (superName line) .superWithoutSuperclass
            | .subclass => state) := by
        rw [inside]
        cases kind : classAround regions with
        | none =>
            exact .single .superOutsideClass (fun other => by cases other <;> simp [kind])
              (by decide)
        | plain =>
            exact .single .superWithoutSuperclass (fun other => by cases other <;> simp [kind])
              (by decide)
        | subclass => exact .quiet (fun other => by cases other <;> simp [kind]) rfl
      exact tested.ofSame rfl (State.bind_errors _ _ _)

theorem resolveExprs_reports {context : Context} {regions : List Region}
    (inside : context.inClass = classAround regions) :
    ∀ (values : List Expr) (state : State), Reflects state.scopes regions →
      Reports (referencePlaces regions (Expr.referencesAll values)) state
        (resolveExprs context values state)
  | [], _, _ => .ofErrors rfl
  | first :: rest, state, reflects => by
      simp only [Expr.referencesAll, referencePlaces_append]
      exact (resolveExpr_reports inside first state reflects).append
        (resolveExprs_reports inside rest _ (reflects.afterExpr context first))

end

theorem resolveOption_reports {context : Context} {regions : List Region}
    (inside : context.inClass = classAround regions) (value : Option Expr) (state : State)
    (reflects : Reflects state.scopes regions) :
    Reports (referencePlaces regions (Expr.referencesOption value)) state
      (resolveOption context value state) := by
  cases value with
  | none => exact .ofErrors rfl
  | some value => exact resolveExpr_reports inside value state reflects

/-- A declaration is reported if its scope holds the name already. -/
theorem Reports.declare {state : State} {regions : List Region} (name : Name)
    (mirrors : List.Forall₂ Mirrors state.scopes regions) :
    Reports [.declaration name regions] state (state.declare name) := by
  unfold State.declare
  split
  · next scopes =>
      rw [scopes] at mirrors
      cases mirrors
      exact .quiet (fun other => by cases other <;> simp) rfl
  · next names outer scopes =>
      rw [scopes] at mirrors
      cases mirrors with
      | @cons _ region _ around first _ =>
          have held := first.shows name.text
          have tested : Reports [.declaration name (region :: around)] state
              (if (names.get? name.text).isSome then state.report name .alreadyDeclared
                else state) :=
            Reports.ofTest (.declaration name (region :: around)) _ _ (by decide)
              fun other => by cases other <;> simp [← held]
          exact tested.ofSame rfl (State.put_errors _ _ _)

theorem Reports.introduce {state : State} {regions : List Region} (name : Name)
    (mirrors : List.Forall₂ Mirrors state.scopes regions) :
    Reports [.declaration name regions] state (state.introduce name) :=
  (Reports.declare name mirrors).ofSame rfl (State.define_errors _ _)

theorem introduceAll_reports (parameters : List Name) (state : State) {regions : List Region}
    (mirrors : List.Forall₂ Mirrors state.scopes regions) :
    Reports (parameterPlaces regions parameters) state
      (parameters.foldl State.introduce state) := by
  induction parameters generalizing state regions with
  | nil => exact .ofErrors rfl
  | cons first rest inductionHypothesis =>
      exact (Reports.introduce first mirrors).cons
        (inductionHypothesis _ (Mirrors.introduce first mirrors))

theorem checkReturn_reports {context : Context} {functions : List Surrounding}
    (around : context.function = functionAround functions) (line : Nat) (hasValue : Bool)
    (state : State) :
    Reports [.leave line hasValue functions] state (checkReturn context line hasValue state) := by
  unfold checkReturn
  rw [around]
  match functions with
  | [] =>
      simp only [functionAround, if_true, reduceCtorEq, and_false, if_false]
      exact .single .returnAtTopLevel (fun other => by cases other <;> simp) (by decide)
  | ⟨.function, name⟩ :: outer =>
      simp only [functionAround, reduceCtorEq, if_false, and_false]
      exact .quiet (fun other => by cases other <;> cases hasValue <;> simp) rfl
  | ⟨.method, name⟩ :: outer =>
      have inner : functionAround (⟨.method, name⟩ :: outer) ≠ .none := by
        simp only [functionAround]
        split <;> simp
      have named : functionAround (⟨.method, name⟩ :: outer) = .initializer ↔
          name = initializerName := by
        simp only [functionAround]
        split <;> simp [*]
      simp only [inner, if_false, named]
      refine Reports.ofTest (.leave line hasValue (⟨.method, name⟩ :: outer)) _ _ (by decide)
        fun other => ?_
      cases other <;> cases hasValue <;> simp

/-- Naming a class as its own superclass is reported; the superclass is then read
where no declaration is under way. -/
theorem enterSuperclass_reports {state : State} {regions : List Region} (name : Name)
    (id : RefId) (superclass : Name) (mirrors : List.Forall₂ Mirrors state.scopes regions) :
    Reports [.inheritance name superclass, .reference ⟨⟨.read, id, superclass⟩, regions⟩] state
      (enterSuperclass name id superclass state) := by
  have compared : Reports [.inheritance name superclass] state
      (if superclass.text = name.text then state.report superclass .inheritsFromItself
        else state) :=
    Reports.ofTest (.inheritance name superclass) _ _ (by decide)
      fun other => by cases other <;> simp
  refine compared.cons (Reports.ofSame (Reports.read id superclass ?_) rfl rfl)
  have scopes : (if superclass.text = name.text then
      state.report superclass .inheritsFromItself else state).scopes = state.scopes := by
    split <;> rfl
  rw [scopes]
  exact Mirrors.reflects mirrors

theorem Mirrors.enterSuperclass {state : State} {regions : List Region} (name : Name)
    (id : RefId) (superclass : Name) (mirrors : List.Forall₂ Mirrors state.scopes regions) :
    List.Forall₂ Mirrors (enterSuperclass name id superclass state).scopes
      (.superclass :: regions) := by
  rw [enterSuperclass_scopes]
  exact .cons Mirrors.superclass mirrors

/-- The scope of a function, with its parameters. -/
theorem Mirrors.enterFunction {state : State} {regions : List Region} (parameters : List Name)
    (body : List Stmt) (mirrors : List.Forall₂ Mirrors state.scopes regions) :
    List.Forall₂ Mirrors (parameters.foldl State.introduce (state.enter [])).scopes
      (.function parameters body :: regions) :=
  Mirrors.introduceAll parameters (state.enter []) (.cons (Mirrors.opened .function
    (parameters.map Name.text ++ Stmt.declaresAll body)) mirrors)

mutual

/-- A walk over a statement reports what its places violate and leaves the open
scopes as they are after it. -/
theorem resolveStmt_reports (context : Context) (regions : List Region)
    (functions : List Surrounding) (inside : context.inClass = classAround regions)
    (around : context.function = functionAround functions) :
    ∀ (statement : Stmt) (state : State), List.Forall₂ Mirrors state.scopes regions →
      Reports (statement.places regions functions) state (resolveStmt context statement state) ∧
        List.Forall₂ Mirrors (resolveStmt context statement state).scopes
          (declared statement.declares regions)
  | .expression value _, state, mirrors => by
      refine ⟨resolveExpr_reports inside value state (Mirrors.reflects mirrors), ?_⟩
      simpa [resolveStmt, resolveExpr_scopes, Stmt.declares] using mirrors
  | .print value, state, mirrors => by
      refine ⟨resolveExpr_reports inside value state (Mirrors.reflects mirrors), ?_⟩
      simpa [resolveStmt, resolveExpr_scopes, Stmt.declares] using mirrors
  | .declare name initial, state, mirrors => by
      have initialized := resolveOption_reports
        (inside.trans (classAround_declaring name.text regions).symm) initial _
        (Mirrors.reflects_declare name mirrors)
      constructor
      · exact (Reports.declare name mirrors).cons
          (initialized.ofSame rfl (State.define_errors _ _))
      · exact Mirrors.define name mirrors (resolveOption_scopes context initial _)
  | .block body, state, mirrors => by
      obtain ⟨reports, inner⟩ := resolveStmts_reports context (.block body :: regions) functions
        inside around body (state.enter []) (.cons (Mirrors.opened _ _) mirrors)
      refine ⟨reports.ofSame rfl rfl, ?_⟩
      simpa [resolveStmt, Stmt.declares] using Mirrors.leave inner
  | .branch condition consequence none, state, mirrors => by
      have first := resolveExpr_reports inside condition state (Mirrors.reflects mirrors)
      rw [← resolveExpr_scopes context condition state] at mirrors
      obtain ⟨second, scopes⟩ := resolveStmt_reports context regions functions inside around
        consequence _ mirrors
      exact ⟨first.append second, scopes⟩
  | .branch condition consequence (some alternative), state, mirrors => by
      have first := resolveExpr_reports inside condition state (Mirrors.reflects mirrors)
      rw [← resolveExpr_scopes context condition state] at mirrors
      obtain ⟨second, scopes⟩ := resolveStmt_reports context regions functions inside around
        consequence _ mirrors
      obtain ⟨third, final⟩ := resolveStmt_reports context _ functions
        (inside.trans (classAround_declared _ _).symm) around alternative _ scopes
      refine ⟨(first.append second).append third, ?_⟩
      rw [declared_declared] at final
      exact final
  | .loop condition body, state, mirrors => by
      have first := resolveExpr_reports inside condition state (Mirrors.reflects mirrors)
      rw [← resolveExpr_scopes context condition state] at mirrors
      obtain ⟨second, scopes⟩ := resolveStmt_reports context regions functions inside around
        body _ mirrors
      exact ⟨first.append second, scopes⟩
  | .function declaration, state, mirrors => by
      obtain ⟨reports, scopes⟩ := resolveFunction_reports
        { context with function := .function } _ functions .function
        (inside.trans (classAround_declared _ _).symm) declaration _ rfl
        (Mirrors.introduce declaration.name mirrors)
      exact ⟨(Reports.introduce declaration.name mirrors).cons reports, scopes⟩
  | .leave line value, state, mirrors => by
      have checked := checkReturn_reports around line value.isSome state
      rw [← checkReturn_scopes context line value.isSome state] at mirrors
      refine ⟨checked.cons (resolveOption_reports inside value _ (Mirrors.reflects mirrors)), ?_⟩
      simpa [resolveStmt, resolveOption_scopes, Stmt.declares] using mirrors
  | .classDecl name none methods, state, mirrors => by
      obtain ⟨reports, scopes⟩ := resolveMethods_reports { context with inClass := .plain }
        (.receiver false :: declared [name.text] regions) functions rfl methods
        ((state.introduce name).enter [((thisName 0).text, true)])
        (.cons (Mirrors.receiver false) (Mirrors.introduce name mirrors))
      exact ⟨(Reports.introduce name mirrors).cons (reports.ofSame rfl rfl),
        Mirrors.leave scopes⟩
  | .classDecl name (some (id, superclass)) methods, state, mirrors => by
      have introduced := Mirrors.introduce name mirrors
      have inherited := enterSuperclass_reports name id superclass introduced
      obtain ⟨reports, scopes⟩ := resolveMethods_reports { context with inClass := .subclass }
        (.receiver true :: .superclass :: declared [name.text] regions) functions rfl methods
        ((enterSuperclass name id superclass (state.introduce name)).enter
          [((thisName 0).text, true)])
        (.cons (Mirrors.receiver true) (Mirrors.enterSuperclass name id superclass introduced))
      exact ⟨(Reports.introduce name mirrors).cons
          (inherited.append (reports.ofSame rfl rfl)),
        Mirrors.leave (Mirrors.leave scopes)⟩

theorem resolveStmts_reports (context : Context) (regions : List Region)
    (functions : List Surrounding) (inside : context.inClass = classAround regions)
    (around : context.function = functionAround functions) :
    ∀ (statements : List Stmt) (state : State), List.Forall₂ Mirrors state.scopes regions →
      Reports (Stmt.placesAll regions functions statements) state
          (resolveStmts context statements state) ∧
        List.Forall₂ Mirrors (resolveStmts context statements state).scopes
          (declared (Stmt.declaresAll statements) regions)
  | [], state, mirrors => by
      refine ⟨.ofErrors rfl, ?_⟩
      simpa [resolveStmts, Stmt.declaresAll] using mirrors
  | first :: rest, state, mirrors => by
      obtain ⟨left, middle⟩ := resolveStmt_reports context regions functions inside around first
        state mirrors
      obtain ⟨right, scopes⟩ := resolveStmts_reports context _ functions
        (inside.trans (classAround_declared _ _).symm) around rest _ middle
      refine ⟨left.append right, ?_⟩
      rw [declared_declared] at scopes
      exact scopes

theorem resolveFunction_reports (context : Context) (regions : List Region)
    (functions : List Surrounding) (form : Diagnostic.Callable)
    (inside : context.inClass = classAround regions) :
    ∀ (function : Function) (state : State),
      context.function = functionAround (⟨form, function.name.text⟩ :: functions) →
      List.Forall₂ Mirrors state.scopes regions →
        Reports (function.places regions functions form) state
            (resolveFunction context function state) ∧
          List.Forall₂ Mirrors (resolveFunction context function state).scopes regions
  | .mk name parameters body, state, around, mirrors => by
      have opened := List.Forall₂.cons (Mirrors.opened .function
        (parameters.map Name.text ++ Stmt.declaresAll body)) mirrors
      obtain ⟨reports, scopes⟩ := resolveStmts_reports context
        (.function parameters body :: regions) (⟨form, name.text⟩ :: functions) inside around
        body _ (Mirrors.enterFunction parameters body mirrors)
      have declared := introduceAll_reports parameters (state.enter []) opened
      exact ⟨(declared.append reports).ofSame rfl rfl, Mirrors.leave scopes⟩

theorem resolveMethods_reports (context : Context) (regions : List Region)
    (functions : List Surrounding) (inside : context.inClass = classAround regions) :
    ∀ (methods : List Function) (state : State), List.Forall₂ Mirrors state.scopes regions →
      Reports (Function.placesAll regions functions methods) state
          (resolveMethods context methods state) ∧
        List.Forall₂ Mirrors (resolveMethods context methods state).scopes regions
  | [], state, mirrors => ⟨.ofErrors rfl, mirrors⟩
  | method :: rest, state, mirrors => by
      obtain ⟨left, middle⟩ := resolveFunction_reports
        { context with function := inMethod method.name } regions functions .method inside
        method state rfl mirrors
      obtain ⟨right, scopes⟩ := resolveMethods_reports context regions functions inside rest _
        middle
      exact ⟨left.append right, scopes⟩

end

end Scope

open Scope

/-- The errors of resolution are exactly the violations of the scope rules, one
for each place and rule that it breaks.  So resolution is silent if and only if no
place of the program breaks a rule. -/
theorem resolve_reports_violations (statements : List Stmt) (table : Resolution) :
    (resolve statements table).2.Perm
        ((Stmt.placesAll [] [] statements).flatMap Place.violations) ∧
      ((resolve statements table).2 = [] ↔
        ∀ place ∈ Stmt.placesAll [] [] statements, ∀ cause, place.breaks cause = false) := by
  have reports : (resolve statements table).2.Perm
      ((Stmt.placesAll [] [] statements).flatMap Place.violations) :=
    (resolveStmts_reports {} [] [] rfl rfl statements ⟨[], table, []⟩ .nil).1
  refine ⟨reports, ?_⟩
  rw [← List.perm_nil]
  calc (resolve statements table).2.Perm []
      ↔ ((Stmt.placesAll [] [] statements).flatMap Place.violations).Perm [] :=
        ⟨fun silent => reports.symm.trans silent, fun silent => reports.trans silent⟩
    _ ↔ ∀ place ∈ Stmt.placesAll [] [] statements, place.violations = [] := by
        rw [List.perm_nil, List.flatMap_eq_nil_iff]
    _ ↔ ∀ place ∈ Stmt.placesAll [] [] statements, ∀ cause, place.breaks cause = false :=
        forall₂_congr fun place _ => place.violations_eq_nil_iff

/-- A local variable read in its own initializer, and a return outside every
function. -/
example : (Stmt.placesAll [] [] [.block [.declare ⟨[97], 1⟩ (some (.read 0 ⟨[97], 1⟩)),
    .leave 2 none]]).flatMap Place.violations =
    [⟨.readInOwnInitializer, 1, .atLexeme [97]⟩,
      ⟨.returnAtTopLevel, 2, .atLexeme (Bytes.ofString "return")⟩] := by
  decide

end LoxLang
