import LoxLang.Proofs.Program.Relabel
import LoxLang.Proofs.Scope.Lexical

/-!
Resolving trees with other labels.  Identities and lines play no part in the
scope rules: with other labels the same distances are recorded, under the other
identities, and the same errors are reported, at the other lines.
-/

namespace LoxLang

namespace Scope

/-- A resolution of a tree beside that of the tree with other labels. -/
structure Corresponds (labels : Relabelling) (state other : State) : Prop where
  distinct : ∀ {first second : RefId}, labels.ids first = labels.ids second → first = second
  scopes : other.scopes = state.scopes
  errors : other.errors = state.errors.map labels.diagnostic
  table : ∀ id, other.table[labels.ids id]? = state.table[id]?

namespace Corresponds

variable {labels : Relabelling} {state other : State}

theorem report (same : Corresponds labels state other) (name : Name) (cause : Diagnostic.Cause) :
    Corresponds labels (state.report name cause) (other.report (labels.name name) cause) where
  distinct := same.distinct
  scopes := same.scopes
  errors := by
    simp only [State.report, same.errors, List.map_append]
    rfl
  table := same.table

theorem reportIf (same : Corresponds labels state other) (name : Name) (cause : Diagnostic.Cause)
    {test otherTest : Prop} [Decidable test] [Decidable otherTest] (equal : otherTest ↔ test) :
    Corresponds labels (if test then state.report name cause else state)
      (if otherTest then other.report (labels.name name) cause else other) := by
  by_cases holds : test
  · rw [if_pos holds, if_pos (equal.mpr holds)]
    exact same.report name cause
  · rw [if_neg holds, if_neg fun otherHolds => holds (equal.mp otherHolds)]
    exact same

theorem enter (same : Corresponds labels state other) (names : Names) :
    Corresponds labels (state.enter names) (other.enter names) :=
  ⟨same.distinct, congrArg (names :: ·) same.scopes, same.errors, same.table⟩

theorem leave (same : Corresponds labels state other) :
    Corresponds labels state.leave other.leave :=
  ⟨same.distinct, congrArg List.tail same.scopes, same.errors, same.table⟩

theorem put (same : Corresponds labels state other) (text : Bytes) (complete : Bool) :
    Corresponds labels (state.put text complete) (other.put text complete) := by
  obtain ⟨distinct, scopes, errors, table⟩ := same
  unfold State.put
  rw [scopes]
  split
  · exact ⟨distinct, scopes, errors, table⟩
  · exact ⟨distinct, rfl, errors, table⟩

theorem declare (same : Corresponds labels state other) (name : Name) :
    Corresponds labels (state.declare name) (other.declare (labels.name name)) := by
  unfold State.declare
  rw [same.scopes]
  split
  · exact same
  · exact (same.reportIf name _ Iff.rfl).put name.text false

theorem introduce (same : Corresponds labels state other) (name : Name) :
    Corresponds labels (state.introduce name) (other.introduce (labels.name name)) :=
  (same.declare name).put name.text true

theorem introduceAll :
    ∀ (names : List Name) {state other : State}, Corresponds labels state other →
      Corresponds labels (names.foldl State.introduce state)
        ((names.map labels.name).foldl State.introduce other)
  | [], _, _, same => same
  | name :: rest, _, _, same => introduceAll rest (same.introduce name)

theorem bind (same : Corresponds labels state other) (id : RefId) (text : Bytes) :
    Corresponds labels (state.bind id text) (other.bind (labels.ids id) text) := by
  unfold State.bind
  rw [same.scopes]
  split
  · refine ⟨same.distinct, rfl, same.errors, fun asked => ?_⟩
    simp only [Std.HashMap.getElem?_insert, beq_iff_eq]
    by_cases equal : id = asked
    · simp [equal]
    · rw [if_neg fun images => equal (same.distinct images), if_neg equal]
      exact same.table asked
  · exact same

theorem read (same : Corresponds labels state other) (id : RefId) (name : Name) :
    Corresponds labels (state.read id name) (other.read (labels.ids id) (labels.name name)) := by
  have incomplete : other.isIncomplete name.text = state.isIncomplete name.text := by
    simp only [State.isIncomplete, same.scopes]
  exact (same.reportIf name _ (by rw [Relabelling.name_text, incomplete])).bind id name.text

mutual

theorem resolveExpr (context : Context) :
    ∀ (expression : Expr) {state other : State}, Corresponds labels state other →
      Corresponds labels (Scope.resolveExpr context expression state)
        (Scope.resolveExpr context (expression.relabel labels) other)
  | .literal _, _, _, same => same
  | .read id name, _, _, same => same.read id name
  | .assign id name value, _, _, same =>
      (resolveExpr context value same).bind id name.text
  | .unary _ _ operand, _, _, same => resolveExpr context operand same
  | .binary _ _ left right, _, _, same =>
      resolveExpr context right (resolveExpr context left same)
  | .logical _ left right, _, _, same =>
      resolveExpr context right (resolveExpr context left same)
  | .group inner, _, _, same => resolveExpr context inner same
  | .call callee arguments _, _, _, same =>
      resolveExprs context arguments (resolveExpr context callee same)
  | .get object _, _, _, same => resolveExpr context object same
  | .set object _ value, _, _, same =>
      resolveExpr context object (resolveExpr context value same)
  | .self id line, _, _, same => by
      simp only [Expr.relabel, Scope.resolveExpr]
      split
      · exact same.report (thisName line) _
      · exact same.bind id _
  | .superMethod id line _, _, _, same => by
      simp only [Expr.relabel, Scope.resolveExpr]
      apply bind
      cases context.inClass with
      | none => exact same.report (superName line) _
      | plain => exact same.report (superName line) _
      | subclass => exact same

theorem resolveExprs (context : Context) :
    ∀ (expressions : List Expr) {state other : State}, Corresponds labels state other →
      Corresponds labels (Scope.resolveExprs context expressions state)
        (Scope.resolveExprs context (Expr.relabelAll labels expressions) other)
  | [], _, _, same => same
  | first :: rest, _, _, same => resolveExprs context rest (resolveExpr context first same)

end

theorem resolveOption (context : Context) (value : Option Expr)
    (same : Corresponds labels state other) :
    Corresponds labels (Scope.resolveOption context value state)
      (Scope.resolveOption context (value.map (Expr.relabel labels)) other) := by
  cases value with
  | none => exact same
  | some value => exact resolveExpr context value same

theorem checkReturn (context : Context) (line : Nat) (hasValue : Bool)
    (same : Corresponds labels state other) :
    Corresponds labels (Scope.checkReturn context line hasValue state)
      (Scope.checkReturn context (labels.lines line) hasValue other) :=
  (same.reportIf (returnName line) _ Iff.rfl).reportIf (returnName line) _ Iff.rfl

theorem enterSuperclass (name : Name) (id : RefId) (superclass : Name)
    (same : Corresponds labels state other) :
    Corresponds labels (Scope.enterSuperclass name id superclass state)
      (Scope.enterSuperclass (labels.name name) (labels.ids id) (labels.name superclass)
        other) :=
  ((same.reportIf superclass _ Iff.rfl).read id superclass).enter _

mutual

theorem resolveStmt (context : Context) :
    ∀ (statement : Stmt) {state other : State}, Corresponds labels state other →
      Corresponds labels (Scope.resolveStmt context statement state)
        (Scope.resolveStmt context (statement.relabel labels) other)
  | .expression value _, _, _, same => resolveExpr context value same
  | .print value, _, _, same => resolveExpr context value same
  | .declare name initial, _, _, same =>
      (resolveOption context initial (same.declare name)).put name.text true
  | .block body, _, _, same => (resolveStmts context body (same.enter [])).leave
  | .branch condition consequence none, _, _, same =>
      resolveStmt context consequence (resolveExpr context condition same)
  | .branch condition consequence (some alternative), _, _, same =>
      resolveStmt context alternative
        (resolveStmt context consequence (resolveExpr context condition same))
  | .loop condition body, _, _, same =>
      resolveStmt context body (resolveExpr context condition same)
  | .function (.mk name parameters body), _, _, same =>
      resolveFunction _ (.mk name parameters body) (same.introduce name)
  | .leave line value, _, _, same => by
      simp only [Stmt.relabel, Scope.resolveStmt, Option.isSome_map]
      exact resolveOption context value (same.checkReturn context line value.isSome)
  | .classDecl name none methods, _, _, same =>
      (resolveMethods _ methods ((same.introduce name).enter _)).leave
  | .classDecl name (some (id, superclass)) methods, _, _, same =>
      (resolveMethods _ methods
        (((same.introduce name).enterSuperclass name id superclass).enter _)).leave.leave

theorem resolveStmts (context : Context) :
    ∀ (statements : List Stmt) {state other : State}, Corresponds labels state other →
      Corresponds labels (Scope.resolveStmts context statements state)
        (Scope.resolveStmts context (Stmt.relabelAll labels statements) other)
  | [], _, _, same => same
  | first :: rest, _, _, same => resolveStmts context rest (resolveStmt context first same)

theorem resolveFunction (context : Context) :
    ∀ (declaration : Function) {state other : State}, Corresponds labels state other →
      Corresponds labels (Scope.resolveFunction context declaration state)
        (Scope.resolveFunction context (declaration.relabel labels) other)
  | .mk _ parameters body, _, _, same =>
      (resolveStmts context body (introduceAll parameters (same.enter []))).leave

theorem resolveMethods (context : Context) :
    ∀ (methods : List Function) {state other : State}, Corresponds labels state other →
      Corresponds labels (Scope.resolveMethods context methods state)
        (Scope.resolveMethods context (Function.relabelAll labels methods) other)
  | [], _, _, same => same
  | .mk name parameters body :: rest, _, _, same =>
      resolveMethods context rest
        (resolveFunction { context with function := inMethod name } (.mk name parameters body) same)

end

end Corresponds

end Scope

/-- With other labels the same distances are recorded and the same errors reported. -/
theorem resolve_relabel {labels : Relabelling}
    (distinct : ∀ {first second : RefId}, labels.ids first = labels.ids second → first = second)
    (statements : List Stmt) {table other : Resolution}
    (same : ∀ id, other[labels.ids id]? = table[id]?) :
    (∀ id, (resolve (Stmt.relabelAll labels statements) other).1[labels.ids id]? =
        (resolve statements table).1[id]?) ∧
      (resolve (Stmt.relabelAll labels statements) other).2 =
        (resolve statements table).2.map labels.diagnostic := by
  have start : Scope.Corresponds labels ⟨[], table, []⟩ ⟨[], other, []⟩ :=
    ⟨distinct, rfl, rfl, same⟩
  have final := start.resolveStmts {} statements
  exact ⟨final.table, final.errors⟩

end LoxLang
