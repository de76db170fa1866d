import LoxLang.Program.Parser
import LoxLang.Program.Printer
import LoxLang.Program.References

/-!
Trees with other labels.  Identities and lines are labels: they can be exchanged
throughout a tree without touching its shape or its names.
-/

namespace LoxLang

/-- What becomes of identities and of lines. -/
structure Relabelling where
  ids : RefId → RefId
  lines : Nat → Nat

namespace Relabelling

/-- Other identities on the same lines. -/
def renumber (ids : RefId → RefId) : Relabelling :=
  ⟨ids, fun line => line⟩

/-- The same identities, some lines further down. -/
def moveDown (distance : Nat) : Relabelling :=
  ⟨fun id => id, (· + distance)⟩

variable (labels : Relabelling)

def name (name : Name) : Name :=
  ⟨name.text, labels.lines name.line⟩

def token (token : Token) : Token :=
  { token with line := labels.lines token.line }

def diagnostic (error : Diagnostic) : Diagnostic :=
  { error with line := labels.lines error.line }

def reference (reference : Reference) : Reference :=
  ⟨reference.form, labels.ids reference.id, labels.name reference.name⟩

@[simp]
theorem name_text (given : Name) : (labels.name given).text = given.text := rfl

end Relabelling

namespace Expr

mutual

def relabel (labels : Relabelling) : Expr → Expr
  | .literal value => .literal value
  | .read id name => .read (labels.ids id) (labels.name name)
  | .assign id name value => .assign (labels.ids id) (labels.name name) (value.relabel labels)
  | .unary op line operand => .unary op (labels.lines line) (operand.relabel labels)
  | .binary op line left right =>
      .binary op (labels.lines line) (left.relabel labels) (right.relabel labels)
  | .logical op left right => .logical op (left.relabel labels) (right.relabel labels)
  | .group inner => .group (inner.relabel labels)
  | .call callee arguments line =>
      .call (callee.relabel labels) (relabelAll labels arguments) (labels.lines line)
  | .get object name => .get (object.relabel labels) (labels.name name)
  | .set object name value =>
      .set (object.relabel labels) (labels.name name) (value.relabel labels)
  | .self id line => .self (labels.ids id) (labels.lines line)
  | .superMethod id line method =>
      .superMethod (labels.ids id) (labels.lines line) (labels.name method)

def relabelAll (labels : Relabelling) : List Expr → List Expr
  | [] => []
  | first :: rest => first.relabel labels :: relabelAll labels rest

end

end Expr

mutual

def Stmt.relabel (labels : Relabelling) : Stmt → Stmt
  | .expression value echo => .expression (value.relabel labels) echo
  | .print value => .print (value.relabel labels)
  | .declare name initial =>
      .declare (labels.name name) (initial.map (Expr.relabel labels))
  | .block body => .block (Stmt.relabelAll labels body)
  | .branch condition consequence none =>
      .branch (condition.relabel labels) (consequence.relabel labels) none
  | .branch condition consequence (some alternative) =>
      .branch (condition.relabel labels) (consequence.relabel labels)
        (some (alternative.relabel labels))
  | .loop condition body => .loop (condition.relabel labels) (body.relabel labels)
  | .function declaration => .function (declaration.relabel labels)
  | .leave line value => .leave (labels.lines line) (value.map (Expr.relabel labels))
  | .classDecl name superclass methods =>
      .classDecl (labels.name name)
        (superclass.map fun (id, parent) => (labels.ids id, labels.name parent))
        (Function.relabelAll labels methods)

def Stmt.relabelAll (labels : Relabelling) : List Stmt → List Stmt
  | [] => []
  | first :: rest => first.relabel labels :: Stmt.relabelAll labels rest

def Function.relabel (labels : Relabelling) : Function → Function
  | .mk name parameters body =>
      .mk (labels.name name) (parameters.map labels.name) (Stmt.relabelAll labels body)

def Function.relabelAll (labels : Relabelling) : List Function → List Function
  | [] => []
  | first :: rest => first.relabel labels :: Function.relabelAll labels rest

end

variable (labels : Relabelling)

@[simp]
theorem Stmt.length_relabelAll (statements : List Stmt) :
    (Stmt.relabelAll labels statements).length = statements.length := by
  induction statements with
  | nil => rfl
  | cons statement rest inductionHypothesis =>
      simp only [Stmt.relabelAll, List.length_cons, inductionHypothesis]

@[simp]
theorem Expr.length_relabelAll (expressions : List Expr) :
    (Expr.relabelAll labels expressions).length = expressions.length := by
  induction expressions with
  | nil => rfl
  | cons expression rest inductionHypothesis =>
      simp only [Expr.relabelAll, List.length_cons, inductionHypothesis]

@[simp]
theorem Expr.isAssignment_relabel (expression : Expr) :
    (expression.relabel labels).isAssignment = expression.isAssignment := by
  cases expression <;> rfl

theorem Stmt.relabel_lowerFor (initial : Option Stmt) (condition increment : Option Expr)
    (body : Stmt) :
    (Parser.lowerFor initial condition increment body).relabel labels =
      Parser.lowerFor (initial.map (Stmt.relabel labels)) (condition.map (Expr.relabel labels))
        (increment.map (Expr.relabel labels)) (body.relabel labels) := by
  cases initial <;> cases condition <;> cases increment <;> rfl

namespace Expr

mutual

theorem references_relabel : ∀ expression : Expr,
    (expression.relabel labels).references = expression.references.map labels.reference
  | .literal _ => rfl
  | .read _ _ => rfl
  | .assign _ _ value => by
      simp only [relabel, references, references_relabel value, List.map_append]
      rfl
  | .unary _ _ operand => references_relabel operand
  | .binary _ _ left right => by
      simp only [relabel, references, references_relabel left, references_relabel right,
        List.map_append]
  | .logical _ left right => by
      simp only [relabel, references, references_relabel left, references_relabel right,
        List.map_append]
  | .group inner => references_relabel inner
  | .call callee arguments _ => by
      simp only [relabel, references, references_relabel callee,
        referencesAll_relabelAll arguments, List.map_append]
  | .get object _ => references_relabel object
  | .set object _ value => by
      simp only [relabel, references, references_relabel object, references_relabel value,
        List.map_append]
  | .self _ _ => rfl
  | .superMethod _ _ _ => rfl

theorem referencesAll_relabelAll : ∀ expressions : List Expr,
    referencesAll (relabelAll labels expressions) =
      (referencesAll expressions).map labels.reference
  | [] => rfl
  | first :: rest => by
      simp only [relabelAll, referencesAll, references_relabel first,
        referencesAll_relabelAll rest, List.map_append]

end

theorem referencesOption_map_relabel (value : Option Expr) :
    referencesOption (value.map (relabel labels)) =
      (referencesOption value).map labels.reference := by
  cases value with
  | none => rfl
  | some value => exact references_relabel labels value

end Expr

mutual

theorem Stmt.references_relabel : ∀ statement : Stmt,
    (statement.relabel labels).references = statement.references.map labels.reference
  | .expression value _ => value.references_relabel labels
  | .print value => value.references_relabel labels
  | .declare _ initial => Expr.referencesOption_map_relabel labels initial
  | .block body => Stmt.referencesAll_relabelAll body
  | .branch condition consequence none => by
      simp only [Stmt.relabel, Stmt.references, condition.references_relabel labels,
        Stmt.references_relabel consequence, List.map_append]
  | .branch condition consequence (some alternative) => by
      simp only [Stmt.relabel, Stmt.references, condition.references_relabel labels,
        Stmt.references_relabel consequence, Stmt.references_relabel alternative,
        List.map_append]
  | .loop condition body => by
      simp only [Stmt.relabel, Stmt.references, condition.references_relabel labels,
        Stmt.references_relabel body, List.map_append]
  | .function declaration => Function.references_relabel declaration
  | .leave _ value => Expr.referencesOption_map_relabel labels value
  | .classDecl _ none methods => Function.referencesAll_relabelAll methods
  | .classDecl _ (some _) methods => by
      simp only [Stmt.relabel, Option.map_some, Stmt.references,
        Function.referencesAll_relabelAll methods, List.map_cons]
      rfl

theorem Stmt.referencesAll_relabelAll : ∀ statements : List Stmt,
    Stmt.referencesAll (Stmt.relabelAll labels statements) =
      (Stmt.referencesAll statements).map labels.reference
  | [] => rfl
  | first :: rest => by
      simp only [Stmt.relabelAll, Stmt.referencesAll, Stmt.references_relabel first,
        Stmt.referencesAll_relabelAll rest, List.map_append]

theorem Function.references_relabel : ∀ declaration : Function,
    (declaration.relabel labels).references = declaration.references.map labels.reference
  | .mk _ _ body => Stmt.referencesAll_relabelAll body

theorem Function.referencesAll_relabelAll : ∀ declarations : List Function,
    Function.referencesAll (Function.relabelAll labels declarations) =
      (Function.referencesAll declarations).map labels.reference
  | [] => rfl
  | first :: rest => by
      simp only [Function.relabelAll, Function.referencesAll, Function.references_relabel first,
        Function.referencesAll_relabelAll rest, List.map_append]

end

namespace Expr

mutual

theorem render_relabel : ∀ expression : Expr,
    (expression.relabel labels).render = expression.render
  | .literal _ => rfl
  | .read _ _ => rfl
  | .assign _ _ value => by
      simp only [relabel, render, render_relabel value, Relabelling.name_text]
  | .unary _ _ operand => by simp only [relabel, render, render_relabel operand]
  | .binary _ _ left right => by
      simp only [relabel, render, render_relabel left, render_relabel right]
  | .logical _ left right => by
      simp only [relabel, render, render_relabel left, render_relabel right]
  | .group inner => by simp only [relabel, render, render_relabel inner]
  | .call callee arguments _ => by
      simp only [relabel, render, render_relabel callee, renderAll_relabelAll arguments]
  | .get object _ => by
      simp only [relabel, render, render_relabel object, Relabelling.name_text]
  | .set object _ value => by
      simp only [relabel, render, render_relabel object, render_relabel value,
        Relabelling.name_text]
  | .self _ _ => rfl
  | .superMethod _ _ _ => rfl

theorem renderAll_relabelAll : ∀ expressions : List Expr,
    renderAll (relabelAll labels expressions) = renderAll expressions
  | [] => rfl
  | first :: rest => by
      simp only [relabelAll, renderAll, render_relabel first, renderAll_relabelAll rest]

end

end Expr

mutual

/-- A tree is written without its labels. -/
theorem Stmt.render_relabel : ∀ statement : Stmt,
    (statement.relabel labels).render = statement.render
  | .expression value _ => by
      simp only [Stmt.relabel, Stmt.render, value.render_relabel labels]
  | .print value => by simp only [Stmt.relabel, Stmt.render, value.render_relabel labels]
  | .declare _ none => rfl
  | .declare _ (some initial) => by
      simp only [Stmt.relabel, Option.map_some, Stmt.render, initial.render_relabel labels,
        Relabelling.name_text]
  | .block body => by simp only [Stmt.relabel, Stmt.render, Stmt.renderAll_relabelAll body]
  | .branch condition consequence none => by
      simp only [Stmt.relabel, Stmt.render, condition.render_relabel labels,
        Stmt.render_relabel consequence]
  | .branch condition consequence (some alternative) => by
      simp only [Stmt.relabel, Stmt.render, condition.render_relabel labels,
        Stmt.render_relabel consequence, Stmt.render_relabel alternative]
  | .loop condition body => by
      simp only [Stmt.relabel, Stmt.render, condition.render_relabel labels,
        Stmt.render_relabel body]
  | .function declaration => Function.render_relabel declaration
  | .leave _ none => rfl
  | .leave _ (some value) => by
      simp only [Stmt.relabel, Option.map_some, Stmt.render, value.render_relabel labels]
  | .classDecl _ none methods => by
      simp only [Stmt.relabel, Option.map_none, Stmt.render, Function.renderAll_relabelAll methods,
        Relabelling.name_text]
  | .classDecl _ (some _) methods => by
      simp only [Stmt.relabel, Option.map_some, Stmt.render, Function.renderAll_relabelAll methods,
        Relabelling.name_text]

theorem Stmt.renderAll_relabelAll : ∀ statements : List Stmt,
    Stmt.renderAll (Stmt.relabelAll labels statements) = Stmt.renderAll statements
  | [] => rfl
  | first :: rest => by
      simp only [Stmt.relabelAll, Stmt.renderAll, Stmt.render_relabel first,
        Stmt.renderAll_relabelAll rest]

theorem Function.render_relabel : ∀ declaration : Function,
    (declaration.relabel labels).render = declaration.render
  | .mk _ parameters body => by
      have texts : (parameters.map labels.name).map Name.text = parameters.map Name.text := by
        rw [List.map_map]
        rfl
      simp only [Function.relabel, Function.render, Stmt.renderAll_relabelAll body, texts,
        Relabelling.name_text]

theorem Function.renderAll_relabelAll : ∀ declarations : List Function,
    Function.renderAll (Function.relabelAll labels declarations) = Function.renderAll declarations
  | [] => rfl
  | first :: rest => by
      simp only [Function.relabelAll, Function.renderAll, Function.render_relabel first,
        Function.renderAll_relabelAll rest]

end

/-- The identities of references stay as they are. -/
def Relabelling.Fixes (ids : RefId → RefId) (references : List Reference) : Prop :=
  ∀ reference ∈ references, ids reference.id = reference.id

namespace Relabelling.Fixes

variable {ids : RefId → RefId} {first second : List Reference} {reference : Reference}

theorem left (fixes : Fixes ids (first ++ second)) : Fixes ids first :=
  fun reference member => fixes reference (List.mem_append_left _ member)

theorem right (fixes : Fixes ids (first ++ second)) : Fixes ids second :=
  fun reference member => fixes reference (List.mem_append_right _ member)

theorem head (fixes : Fixes ids (reference :: second)) : ids reference.id = reference.id :=
  fixes reference List.mem_cons_self

theorem tail (fixes : Fixes ids (reference :: second)) : Fixes ids second :=
  fun reference member => fixes reference (List.mem_cons_of_mem _ member)

end Relabelling.Fixes

namespace Expr

open Relabelling

variable {ids : RefId → RefId}

mutual

theorem relabel_eq_self : ∀ expression : Expr, Fixes ids expression.references →
    expression.relabel (renumber ids) = expression
  | .literal _, _ => rfl
  | .read _ _, fixes => congrArg (Expr.read · _) fixes.head
  | .assign _ name value, fixes => by
      have id := fixes.right.head
      rw [relabel, relabel_eq_self value fixes.left]
      exact congrArg (Expr.assign · name value) id
  | .unary _ _ operand, fixes => congrArg (Expr.unary _ _) (relabel_eq_self operand fixes)
  | .binary _ _ left right, fixes => by
      rw [relabel, relabel_eq_self left fixes.left, relabel_eq_self right fixes.right]
      rfl
  | .logical _ left right, fixes => by
      rw [relabel, relabel_eq_self left fixes.left, relabel_eq_self right fixes.right]
  | .group inner, fixes => congrArg Expr.group (relabel_eq_self inner fixes)
  | .call callee arguments _, fixes => by
      rw [relabel, relabel_eq_self callee fixes.left, relabelAll_eq_self arguments fixes.right]
      rfl
  | .get object name, fixes => congrArg (Expr.get · name) (relabel_eq_self object fixes)
  | .set object _ value, fixes => by
      rw [relabel, relabel_eq_self object fixes.left, relabel_eq_self value fixes.right]
      rfl
  | .self _ _, fixes => congrArg (Expr.self · _) fixes.head
  | .superMethod _ _ _, fixes => congrArg (Expr.superMethod · _ _) fixes.head

theorem relabelAll_eq_self : ∀ expressions : List Expr, Fixes ids (referencesAll expressions) →
    relabelAll (renumber ids) expressions = expressions
  | [], _ => rfl
  | first :: rest, fixes => by
      rw [relabelAll, relabel_eq_self first fixes.left, relabelAll_eq_self rest fixes.right]

end

theorem map_relabel_eq_self (value : Option Expr) (fixes : Fixes ids (referencesOption value)) :
    value.map (relabel (renumber ids)) = value := by
  cases value with
  | none => rfl
  | some value => exact congrArg some (relabel_eq_self value fixes)

end Expr

open Relabelling in
theorem Name.map_renumber (ids : RefId → RefId) (names : List Name) :
    names.map (renumber ids).name = names :=
  List.map_id names

mutual

theorem Stmt.relabel_eq_self {ids : RefId → RefId} : ∀ statement : Stmt,
    Relabelling.Fixes ids statement.references →
      statement.relabel (.renumber ids) = statement
  | .expression value echo, fixes =>
      congrArg (Stmt.expression · echo) (value.relabel_eq_self fixes)
  | .print value, fixes => congrArg Stmt.print (value.relabel_eq_self fixes)
  | .declare name initial, fixes =>
      congrArg (Stmt.declare name) (Expr.map_relabel_eq_self initial fixes)
  | .block body, fixes => congrArg Stmt.block (Stmt.relabelAll_eq_self body fixes)
  | .branch condition consequence none, fixes => by
      rw [Stmt.relabel, condition.relabel_eq_self fixes.left,
        Stmt.relabel_eq_self consequence fixes.right]
  | .branch condition consequence (some alternative), fixes => by
      rw [Stmt.relabel, condition.relabel_eq_self fixes.left.left,
        Stmt.relabel_eq_self consequence fixes.left.right,
        Stmt.relabel_eq_self alternative fixes.right]
  | .loop condition body, fixes => by
      rw [Stmt.relabel, condition.relabel_eq_self fixes.left,
        Stmt.relabel_eq_self body fixes.right]
  | .function declaration, fixes =>
      congrArg Stmt.function (Function.relabel_eq_self declaration fixes)
  | .leave line value, fixes =>
      congrArg (Stmt.leave line) (Expr.map_relabel_eq_self value fixes)
  | .classDecl name none methods, fixes =>
      congrArg (Stmt.classDecl name none) (Function.relabelAll_eq_self methods fixes)
  | .classDecl name (some (_, parent)) methods, fixes => by
      rw [Stmt.relabel, Function.relabelAll_eq_self methods fixes.tail]
      exact congrArg (fun id => Stmt.classDecl name (some (id, parent)) methods) fixes.head

theorem Stmt.relabelAll_eq_self {ids : RefId → RefId} : ∀ statements : List Stmt,
    Relabelling.Fixes ids (Stmt.referencesAll statements) →
      Stmt.relabelAll (.renumber ids) statements = statements
  | [], _ => rfl
  | first :: rest, fixes => by
      rw [Stmt.relabelAll, Stmt.relabel_eq_self first fixes.left,
        Stmt.relabelAll_eq_self rest fixes.right]

theorem Function.relabel_eq_self {ids : RefId → RefId} : ∀ declaration : Function,
    Relabelling.Fixes ids declaration.references →
      declaration.relabel (.renumber ids) = declaration
  | .mk name parameters body, fixes => by
      rw [Function.relabel, Stmt.relabelAll_eq_self body fixes, Name.map_renumber]
      rfl

theorem Function.relabelAll_eq_self {ids : RefId → RefId} : ∀ declarations : List Function,
    Relabelling.Fixes ids (Function.referencesAll declarations) →
      Function.relabelAll (.renumber ids) declarations = declarations
  | [], _ => rfl
  | first :: rest, fixes => by
      rw [Function.relabelAll, Function.relabel_eq_self first fixes.left,
        Function.relabelAll_eq_self rest fixes.right]

end

end LoxLang
