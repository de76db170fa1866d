import LoxLang.Proofs.Scope.Lexical

/-!
What a resolution leaves alone.  It touches the records of the references in its
tree and of no others, well scoped or not, and between top-level statements no scope
is open, so programs can be resolved one after the other.
-/

namespace LoxLang

/-- No reference in a list has the identity. -/
def Avoids (id : RefId) (references : List Reference) : Prop :=
  ∀ reference ∈ references, reference.id ≠ id

namespace Avoids

variable {id : RefId} {reference : Reference} {first second : List Reference}

theorem left (avoids : Avoids id (first ++ second)) : Avoids id first :=
  fun reference member => avoids reference (List.mem_append_left _ member)

theorem right (avoids : Avoids id (first ++ second)) : Avoids id second :=
  fun reference member => avoids reference (List.mem_append_right _ member)

theorem head (avoids : Avoids id (reference :: second)) : reference.id ≠ id :=
  avoids reference List.mem_cons_self

theorem tail (avoids : Avoids id (reference :: second)) : Avoids id second :=
  fun reference member => avoids reference (List.mem_cons_of_mem _ member)

end Avoids

namespace Scope

variable {id : RefId}

theorem read_table_of_ne (state : State) {other : RefId} (name : Name) (apart : other ≠ id) :
    (state.read other name).table[id]? = state.table[id]? := by
  unfold State.read
  dsimp only
  rw [State.bind_table_of_ne _ _ apart]
  split <;> rfl

mutual

theorem resolveExpr_getElem? (context : Context) :
    ∀ (expression : Expr) (state : State), Avoids id expression.references →
      (resolveExpr context expression state).table[id]? = state.table[id]?
  | .literal _, _, _ => rfl
  | .read _ name, state, avoids => read_table_of_ne state name avoids.head
  | .assign _ _ value, state, avoids =>
      (State.bind_table_of_ne _ _ avoids.right.head).trans
        (resolveExpr_getElem? context value state avoids.left)
  | .unary _ _ operand, state, avoids => resolveExpr_getElem? context operand state avoids
  | .binary _ _ left right, state, avoids =>
      (resolveExpr_getElem? context right _ avoids.right).trans
        (resolveExpr_getElem? context left state avoids.left)
  | .logical _ left right, state, avoids =>
      (resolveExpr_getElem? context right _ avoids.right).trans
        (resolveExpr_getElem? context left state avoids.left)
  | .group inner, state, avoids => resolveExpr_getElem? context inner state avoids
  | .call callee arguments _, state, avoids =>
      (resolveExprs_getElem? context arguments _ avoids.right).trans
        (resolveExpr_getElem? context callee state avoids.left)
  | .get object _, state, avoids => resolveExpr_getElem? context object state avoids
  | .set object _ value, state, avoids =>
      (resolveExpr_getElem? context object _ avoids.left).trans
        (resolveExpr_getElem? context value state avoids.right)
  | .self _ _, state, avoids => by
      unfold resolveExpr
      split
      · rfl
      · exact State.bind_table_of_ne _ _ avoids.head
  | .superMethod _ _ _, state, avoids => by
      unfold resolveExpr
      dsimp only
      rw [State.bind_table_of_ne _ _ avoids.head]
      split <;> rfl

theorem resolveExprs_getElem? (context : Context) :
    ∀ (expressions : List Expr) (state : State), Avoids id (Expr.referencesAll expressions) →
      (resolveExprs context expressions state).table[id]? = state.table[id]?
  | [], _, _ => rfl
  | first :: rest, state, avoids =>
      (resolveExprs_getElem? context rest _ avoids.right).trans
        (resolveExpr_getElem? context first state avoids.left)

end

theorem resolveOption_getElem? (context : Context) (value : Option Expr) (state : State)
    (avoids : Avoids id (Expr.referencesOption value)) :
    (resolveOption context value state).table[id]? = state.table[id]? := by
  cases value with
  | none => rfl
  | some value => exact resolveExpr_getElem? context value state avoids

theorem introduce_table (state : State) (name : Name) :
    (state.introduce name).table = state.table := by
  rw [State.introduce, State.define_table, State.declare_table]

theorem introduceAll_table (names : List Name) (state : State) :
    (names.foldl State.introduce state).table = state.table := by
  induction names generalizing state with
  | nil => rfl
  | cons name rest inductionHypothesis =>
      exact (inductionHypothesis _).trans (introduce_table state name)

theorem enterSuperclass_table_of_ne (name : Name) {other : RefId} (superclass : Name)
    (state : State) (apart : other ≠ id) :
    (enterSuperclass name other superclass state).table[id]? = state.table[id]? := by
  unfold enterSuperclass
  refine (read_table_of_ne _ superclass apart).trans ?_
  split <;> rfl

mutual

theorem resolveStmt_getElem? (context : Context) :
    ∀ (statement : Stmt) (state : State), Avoids id statement.references →
      (resolveStmt context statement state).table[id]? = state.table[id]?
  | .expression value _, state, avoids => resolveExpr_getElem? context value state avoids
  | .print value, state, avoids => resolveExpr_getElem? context value state avoids
  | .declare name initial, state, avoids => by
      unfold resolveStmt
      rw [State.define_table, resolveOption_getElem? context initial _ avoids, State.declare_table]
  | .block body, state, avoids => resolveStmts_getElem? context body (state.enter []) avoids
  | .branch condition consequence none, state, avoids =>
      (resolveStmt_getElem? context consequence _ avoids.right).trans
        (resolveExpr_getElem? context condition state avoids.left)
  | .branch condition consequence (some alternative), state, avoids =>
      (resolveStmt_getElem? context alternative _ avoids.right).trans
        ((resolveStmt_getElem? context consequence _ avoids.left.right).trans
          (resolveExpr_getElem? context condition state avoids.left.left))
  | .loop condition body, state, avoids =>
      (resolveStmt_getElem? context body _ avoids.right).trans
        (resolveExpr_getElem? context condition state avoids.left)
  | .function declaration, state, avoids => by
      unfold resolveStmt
      rw [resolveFunction_getElem? _ declaration _ avoids, introduce_table]
  | .leave line value, state, avoids => by
      unfold resolveStmt
      rw [resolveOption_getElem? context value _ avoids, checkReturn_table]
  | .classDecl name none methods, state, avoids => by
      unfold resolveStmt
      dsimp only [State.leave]
      rw [resolveMethods_getElem? _ methods _ avoids]
      exact congrArg (·[id]?) (introduce_table state name)
  | .classDecl name (some (other, superclass)) methods, state, avoids => by
      unfold resolveStmt
      dsimp only [State.leave]
      rw [resolveMethods_getElem? _ methods _ avoids.tail]
      refine (enterSuperclass_table_of_ne name superclass _ avoids.head).trans ?_
      rw [introduce_table]

theorem resolveStmts_getElem? (context : Context) :
    ∀ (statements : List Stmt) (state : State), Avoids id (Stmt.referencesAll statements) →
      (resolveStmts context statements state).table[id]? = state.table[id]?
  | [], _, _ => rfl
  | first :: rest, state, avoids =>
      (resolveStmts_getElem? context rest _ avoids.right).trans
        (resolveStmt_getElem? context first state avoids.left)

theorem resolveFunction_getElem? (context : Context) :
    ∀ (declaration : Function) (state : State), Avoids id declaration.references →
      (resolveFunction context declaration state).table[id]? = state.table[id]?
  | .mk _ parameters body, state, avoids => by
      unfold resolveFunction
      dsimp only [State.leave]
      rw [resolveStmts_getElem? context body _ avoids, introduceAll_table]
      rfl

theorem resolveMethods_getElem? (context : Context) :
    ∀ (methods : List Function) (state : State), Avoids id (Function.referencesAll methods) →
      (resolveMethods context methods state).table[id]? = state.table[id]?
  | [], _, _ => rfl
  | first :: rest, state, avoids =>
      (resolveMethods_getElem? context rest _ avoids.right).trans
        (resolveFunction_getElem? _ first state avoids.left)

end

end Scope

/-- The record of an identity that is not in the tree stays as it is. -/
theorem resolve_getElem?_of_avoids {id : RefId} {statements : List Stmt} (table : Resolution)
    (avoids : Avoids id (Stmt.referencesAll statements)) :
    (resolve statements table).1[id]? = table[id]? :=
  Scope.resolveStmts_getElem? {} statements ⟨[], table, []⟩ avoids

open Scope

theorem Scope.resolveStmts_append (context : Context) (first second : List Stmt) (state : State) :
    resolveStmts context (first ++ second) state =
      resolveStmts context second (resolveStmts context first state) := by
  induction first generalizing state with
  | nil => rfl
  | cons statement rest inductionHypothesis => exact inductionHypothesis _

/-- A program that is resolved without an error opens no scope for the one after
it. -/
theorem resolve_append {first : List Stmt} (second : List Stmt) {table : Resolution}
    (distinct : ((Stmt.referencesAll first).map Reference.id).Nodup)
    (silent : (resolve first table).2 = []) :
    resolve (first ++ second) table = resolve second (resolve first table).1 := by
  have scopes : (resolveStmts {} first ⟨[], table, []⟩).scopes = [] := by
    have closed := (resolveStmts_resolves {} [] rfl first ⟨[], table, []⟩ .nil
      (distinct_sitesAll [] distinct)).2
    exact List.forall₂_nil_right_iff.mp closed
  unfold resolve at silent ⊢
  rw [resolveStmts_append]
  generalize resolveStmts {} first ⟨[], table, []⟩ = between at scopes silent ⊢
  obtain ⟨remaining, recorded, errors⟩ := between
  obtain rfl : remaining = [] := scopes
  obtain rfl : errors = [] := silent
  rfl

end LoxLang
