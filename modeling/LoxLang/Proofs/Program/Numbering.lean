import LoxLang.Proofs.Program.Grammar
import LoxLang.Proofs.Scope.Sound

/-!
What derivations grant to scope resolution.  References are numbered without
repetition, and a tree declares only names that identifier tokens spell, never in
the parts of a branch or a loop.
-/

namespace LoxLang

open Scope

namespace Grammar

/-- Identifiers spell ordinary names. -/
def Named (tokens : List Token) : Prop :=
  ∀ token ∈ tokens, token.kind = .identifier → IsOrdinary token.lexeme

theorem Named.head {token : Token} {rest : List Token} (named : Named (token :: rest))
    (isName : token.kind = .identifier) : IsOrdinary (nameOf token).text :=
  named token List.mem_cons_self isName

theorem Named.tail {token : Token} {rest : List Token} (named : Named (token :: rest)) :
    Named rest :=
  fun other member => named other (List.mem_cons_of_mem _ member)

/-- References are numbered from an identity up to a cursor. -/
structure Numbers (first : RefId) (after : Cursor) (references : List Reference) : Prop where
  le : first ≤ after.nextId
  range : ∀ reference ∈ references, first ≤ reference.id ∧ reference.id < after.nextId
  distinct : (references.map Reference.id).Nodup
  regular : ∀ reference ∈ references, reference.IsRegular
  named : Named after.tokens

namespace Numbers

variable {first : RefId} {middle after : Cursor} {references others : List Reference}

theorem nil {tokens : List Token} (named : Named tokens) : Numbers first ⟨tokens, first⟩ [] :=
  ⟨Nat.le_refl _, by simp, by simp, by simp, named⟩

theorem single {tokens : List Token} {reference : Reference} (named : Named tokens)
    (id : reference.id = first) (regular : reference.IsRegular) :
    Numbers first ⟨tokens, first + 1⟩ [reference] :=
  ⟨Nat.le_succ _, by simp [id], by simp, by simpa using regular, named⟩

/-- Tokens after the last reference do not count. -/
theorem drop {token : Token} {rest : List Token} {last : RefId}
    (numbers : Numbers first ⟨token :: rest, last⟩ references) :
    Numbers first ⟨rest, last⟩ references :=
  ⟨numbers.le, numbers.range, numbers.distinct, numbers.regular, numbers.named.tail⟩

theorem append (before : Numbers first middle references)
    (later : Numbers middle.nextId after others) : Numbers first after (references ++ others) where
  le := Nat.le_trans before.le later.le
  range reference member := by
    rcases List.mem_append.mp member with inBefore | inLater
    · have range := before.range reference inBefore
      exact ⟨range.1, Nat.lt_of_lt_of_le range.2 later.le⟩
    · have range := later.range reference inLater
      exact ⟨Nat.le_trans before.le range.1, range.2⟩
  distinct := by
    rw [List.map_append, List.nodup_append]
    refine ⟨before.distinct, later.distinct, ?_⟩
    intro id inBefore other inLater same
    obtain ⟨reference, member, rfl⟩ := List.mem_map.mp inBefore
    obtain ⟨second, memberLater, rfl⟩ := List.mem_map.mp inLater
    have below := (before.range reference member).2
    rw [same] at below
    exact absurd below (Nat.not_lt.mpr (later.range second memberLater).1)
  regular reference member := by
    rcases List.mem_append.mp member with inBefore | inLater
    · exact before.regular reference inBefore
    · exact later.regular reference inLater
  named := later.named

/-- The order in which references are listed does not count. -/
theorem perm (numbers : Numbers first after references) (same : references.Perm others) :
    Numbers first after others where
  le := numbers.le
  range reference member := numbers.range reference (same.mem_iff.mpr member)
  distinct := (same.map Reference.id).nodup_iff.mp numbers.distinct
  regular reference member := numbers.regular reference (same.mem_iff.mpr member)
  named := numbers.named

theorem appendSwapped (before : Numbers first middle references)
    (later : Numbers middle.nextId after others) : Numbers first after (others ++ references) :=
  (before.append later).perm List.perm_append_comm

end Numbers

mutual

theorem Expression.numbers {form : Form} {before after : Cursor} {tree : Expr} :
    Expression form before tree after → Named before.tokens →
      Numbers before.nextId after tree.references
  | @Expression.assign name _ rest id _ _ isName _ value, named => by
      have first : Numbers id ⟨rest, id + 1⟩ [⟨.assign, id, nameOf name⟩] :=
        .single named.tail.tail rfl (named.head isName)
      exact first.appendSwapped (value.numbers named.tail.tail)
  | .set object _ _ _ value, named => by
      have first := object.numbers named
      exact first.append (value.numbers first.named.tail.tail.tail)
  | .operation tree, named => tree.numbers named
  | .binary left operator right, named => by
      have first := left.numbers named
      have both := first.append (right.numbers first.named.tail)
      cases operator <;> exact both
  | .tighter tree, named => tree.numbers named
  | .tightest tree, named => tree.numbers named
  | .signed _ operand, named => operand.numbers named.tail
  | .unsigned tree, named => tree.numbers named
  | .callNone callee _ _, named => by
      have first := callee.numbers named
      simpa [Expr.references, Expr.referencesAll] using first.drop.drop
  | .call callee _ arguments _ _, named => by
      have first := callee.numbers named
      exact first.append (arguments.numbers first.named.tail).drop
  | .get object _ _, named => (object.numbers named).drop.drop
  | .callee tree, named => tree.numbers named
  | .literal _, named => .nil named.tail
  | .read isName, named => .single named.tail rfl (named.head isName)
  | .self _, named => .single named.tail rfl rfl
  | .superMethod _ _ _, named => .single named.tail.tail.tail rfl rfl
  | .group _ inner _, named => (inner.numbers named.tail).drop

theorem Arguments.numbers {before after : Cursor} {trees : List Expr} :
    Arguments before trees after → Named before.tokens →
      Numbers before.nextId after (Expr.referencesAll trees)
  | .last tree, named => by
      simpa [Expr.referencesAll] using tree.numbers named
  | .more first _ others, named => by
      have numbers := first.numbers named
      exact numbers.append (others.numbers numbers.named.tail)

end

theorem Optional.numbers {before after : Cursor} {tree : Option Expr}
    (derived : Optional before tree after) (named : Named before.tokens) :
    Numbers before.nextId after (Expr.referencesOption tree) := by
  cases derived with
  | none => exact .nil named
  | some value => exact value.numbers named

theorem Superclass.numbers {before after : Cursor} {tree : Option (RefId × Name)}
    (derived : Superclass before tree after) (named : Named before.tokens) :
    Numbers before.nextId after (tree.toList.map fun (id, name) => ⟨.read, id, name⟩) := by
  cases derived with
  | none => exact .nil named
  | some _ isName => exact .single named.tail.tail rfl (named.tail.head isName)

/-- A statement is regular, and its references are numbered. -/
structure Orders (first : RefId) (after : Cursor) (tree : Stmt) : Prop where
  numbers : Numbers first after tree.references
  regular : tree.IsRegular

theorem ExpressionStatement.orders {before after : Cursor} {tree : Stmt}
    (derived : ExpressionStatement before tree after) (named : Named before.tokens) :
    Orders before.nextId after tree ∧ tree.declares = [] := by
  cases derived with
  | intro value _ _ => exact ⟨⟨(value.numbers named).drop, trivial⟩, rfl⟩

theorem VariableDeclaration.orders {before after : Cursor} {tree : Stmt}
    (derived : VariableDeclaration before tree after) (named : Named before.tokens) :
    Orders before.nextId after tree := by
  cases derived with
  | plain isName _ => exact ⟨.nil named.tail.tail, named.head isName⟩
  | initialized isName _ value _ =>
      exact ⟨(value.numbers named.tail.tail).drop, named.head isName⟩

theorem Initializer.orders {before after : Cursor} {tree : Option Stmt}
    (derived : Initializer before tree after) (named : Named before.tokens) :
    Numbers before.nextId after (tree.toList.flatMap Stmt.references) ∧
      ∀ statement ∈ tree, statement.IsRegular := by
  cases derived with
  | none _ => exact ⟨.nil named.tail, by simp⟩
  | declaration _ tree =>
      have orders := tree.orders named.tail
      exact ⟨by simpa using orders.numbers, by simpa using orders.regular⟩
  | expression tree =>
      have orders := (tree.orders named).1
      exact ⟨by simpa using orders.numbers, by simpa using orders.regular⟩

theorem Parameters.named {before after : List Token} {names : List Name}
    (derived : Parameters before names after) (named : Named before) :
    Named after ∧ ∀ name ∈ names, IsOrdinary name.text := by
  induction derived with
  | last isName => exact ⟨named.tail, by simpa using named.head isName⟩
  | more isName _ _ inductionHypothesis =>
      obtain ⟨rest, ordinary⟩ := inductionHypothesis named.tail.tail
      exact ⟨rest, by simpa using ⟨named.head isName, ordinary⟩⟩

theorem ParameterList.named {before after : List Token} {names : List Name}
    (derived : ParameterList before names after) (named : Named before) :
    Named after ∧ ∀ name ∈ names, IsOrdinary name.text := by
  cases derived with
  | none _ => exact ⟨named.tail, by simp⟩
  | some names _ _ =>
      obtain ⟨rest, ordinary⟩ := names.named named
      exact ⟨rest.tail, ordinary⟩

/-- The references of a `for` statement stand in its clauses and its body. -/
theorem perm_references_forTree (initial : Option Stmt) (condition increment : Option Expr)
    (body : Stmt) :
    (initial.toList.flatMap Stmt.references ++ (Expr.referencesOption condition ++
      (Expr.referencesOption increment ++ body.references))).Perm
        (forTree initial condition increment body).references := by
  have tested : (condition.getD (.literal (.bool true))).references =
      Expr.referencesOption condition := by
    cases condition <;> rfl
  have swapped : (Expr.referencesOption increment ++ body.references).Perm
      (body.references ++ Expr.referencesOption increment) := List.perm_append_comm
  cases initial <;> cases increment <;>
    simp only [forTree, Stmt.references, Stmt.referencesAll, tested, Option.toList,
      List.flatMap_cons, List.flatMap_nil, List.append_nil, List.nil_append,
      Expr.referencesOption] at swapped ⊢
  · exact .refl _
  · exact swapped.append_left _
  · exact .refl _
  · exact (swapped.append_left _).append_left _

theorem isRegular_forTree {initial : Option Stmt} {body : Stmt}
    (regularFirst : ∀ statement ∈ initial, statement.IsRegular) (regular : body.IsRegular)
    (quiet : body.declares = []) (condition increment : Option Expr) :
    (forTree initial condition increment body).IsRegular ∧
      (forTree initial condition increment body).declares = [] := by
  cases initial <;> cases increment <;>
    simp_all [forTree, Stmt.IsRegular, Stmt.IsRegularAll, Stmt.declares]

mutual

theorem Statement.orders {nearest dangling : Bool} {before after : Cursor} {tree : Stmt} :
    Statement nearest dangling before tree after → Named before.tokens →
      Orders before.nextId after tree ∧ tree.declares = []
  | .expression tree, named => tree.orders named
  | .print _ value _, named => ⟨⟨(value.numbers named.tail).drop, trivial⟩, rfl⟩
  | .leave _ value _, named => ⟨⟨(value.numbers named.tail).drop, trivial⟩, rfl⟩
  | .block _ body _, named => by
      obtain ⟨numbers, regular⟩ := body.orders named.tail
      exact ⟨⟨numbers.drop, regular⟩, rfl⟩
  | .ifThen _ _ condition _ consequence, named => by
      have first := condition.numbers named.tail.tail
      obtain ⟨orders, quiet⟩ := consequence.orders first.named.tail
      exact ⟨⟨first.append orders.numbers, orders.regular, quiet⟩, quiet⟩
  | .ifElse _ _ condition _ consequence _ _ alternative, named => by
      have first := condition.numbers named.tail.tail
      obtain ⟨orders, quiet⟩ := consequence.orders first.named.tail
      obtain ⟨ordersElse, quietElse⟩ := alternative.orders orders.numbers.named.tail
      refine ⟨⟨(first.append orders.numbers).append ordersElse.numbers,
        ⟨orders.regular, quiet⟩, ordersElse.regular, quietElse⟩, ?_⟩
      simp only [Stmt.declares, quiet, quietElse, List.append_nil]
  | .whileLoop _ _ condition _ body, named => by
      have first := condition.numbers named.tail.tail
      obtain ⟨orders, quiet⟩ := body.orders first.named.tail
      exact ⟨⟨first.append orders.numbers, orders.regular, quiet⟩, quiet⟩
  | .forLoop _ _ initial condition _ increment _ body lowered, named => by
      obtain ⟨first, regularFirst⟩ := initial.orders named.tail.tail
      have second := condition.numbers first.named
      have third := increment.numbers second.named.tail
      obtain ⟨orders, quiet⟩ := body.orders third.named.tail
      obtain ⟨regular, nothing⟩ := isRegular_forTree regularFirst orders.regular quiet _ _
      rw [lowered]
      refine ⟨⟨?_, regular⟩, nothing⟩
      exact (first.append (second.append (third.append orders.numbers))).perm
        (perm_references_forTree _ _ _ _)

theorem Declaration.orders {nearest : Bool} {before after : Cursor} {tree : Stmt} :
    Declaration nearest before tree after → Named before.tokens →
      Orders before.nextId after tree
  | @Declaration.classDecl _ _ _ _ _ _ _ _ _ _ _ superclass _ _ isName inherits _ methods _,
      named => by
      have first := inherits.numbers named.tail.tail
      obtain ⟨numbers, regular⟩ := methods.orders first.named.tail
      refine ⟨?_, named.tail.head isName, regular⟩
      cases superclass with
      | none => exact (first.append numbers).drop
      | some parent => exact (first.append numbers).drop
  | .function _ tree, named => by
      obtain ⟨numbers, regular⟩ := tree.orders named.tail
      exact ⟨numbers, regular⟩
  | .declare _ tree, named => tree.orders named.tail
  | .statement tree, named => (tree.orders named).1

theorem Declarations.orders {nearest : Bool} {before after : Cursor} {trees : List Stmt} :
    Declarations nearest before trees after → Named before.tokens →
      Numbers before.nextId after (Stmt.referencesAll trees) ∧ Stmt.IsRegularAll trees
  | .nil, named => ⟨.nil named, trivial⟩
  | .cons first rest, named => by
      have orders := first.orders named
      obtain ⟨numbers, regular⟩ := rest.orders orders.numbers.named
      exact ⟨orders.numbers.append numbers, orders.regular, regular⟩

theorem Callable.orders {nearest : Bool} {before after : Cursor} {tree : Function} :
    Callable nearest before tree after → Named before.tokens →
      Numbers before.nextId after tree.references ∧ tree.IsRegular
  | .intro isName _ parameters _ body _, named => by
      obtain ⟨inside, ordinary⟩ := parameters.named named.tail.tail
      obtain ⟨numbers, regular⟩ := body.orders inside.tail
      exact ⟨numbers.drop, named.head isName, ordinary, regular⟩

theorem Methods.orders {nearest : Bool} {before after : Cursor} {trees : List Function} :
    Methods nearest before trees after → Named before.tokens →
      Numbers before.nextId after (Function.referencesAll trees) ∧ Function.IsRegularAll trees
  | .nil, named => ⟨.nil named, trivial⟩
  | .cons first rest, named => by
      obtain ⟨numbers, regular⟩ := first.orders named
      obtain ⟨numbersRest, regularRest⟩ := rest.orders numbers.named
      exact ⟨numbers.append numbersRest, regular, regularRest⟩

end

end Grammar

end LoxLang
