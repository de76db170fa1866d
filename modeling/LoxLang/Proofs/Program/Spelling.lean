import LoxLang.Proofs.Number.Nearest
import LoxLang.Proofs.Program.Soundness
import LoxLang.Proofs.Token.Placed

/-!
Spelled trees.  The names of a parsed tree are identifiers, its strings hold no quote, and
its numbers are finite and not negative unless a numeral of the source is beyond the
greatest double.
-/

namespace LoxLang

/-- A numeral beyond the greatest double. -/
def Token.Overflows (token : Token) : Prop :=
  token.literal = some (.number (Binary.toFloat Binary.infinityRank))

instance (token : Token) : Decidable token.Overflows :=
  inferInstanceAs (Decidable (_ = _))

/-- The name is an identifier of the lexical grammar. -/
def Name.IsSpelled (name : Name) : Prop :=
  Lexeme .identifier name.text

/-- What a token of the source can denote: finite numbers and strings without quotes. -/
def Literal.IsSpelled : Literal → Prop
  | .nil => True
  | .bool _ => True
  | .number value => ∃ rank < Binary.infinityRank, value = Binary.toFloat rank
  | .string text => Chunk.quote ∉ text

namespace Expr

mutual

def IsSpelled : Expr → Prop
  | .literal value => value.IsSpelled
  | .read _ name => name.IsSpelled
  | .assign _ name value => name.IsSpelled ∧ value.IsSpelled
  | .unary _ _ operand => operand.IsSpelled
  | .binary _ _ left right => left.IsSpelled ∧ right.IsSpelled
  | .logical _ left right => left.IsSpelled ∧ right.IsSpelled
  | .group inner => inner.IsSpelled
  | .call callee arguments _ => callee.IsSpelled ∧ IsSpelledAll arguments
  | .get object name => object.IsSpelled ∧ name.IsSpelled
  | .set object name value => object.IsSpelled ∧ name.IsSpelled ∧ value.IsSpelled
  | .self _ _ => True
  | .superMethod _ _ method => method.IsSpelled

def IsSpelledAll : List Expr → Prop
  | [] => True
  | first :: rest => first.IsSpelled ∧ IsSpelledAll rest

end

end Expr

mutual

def Stmt.IsSpelled : Stmt → Prop
  | .expression value _ => value.IsSpelled
  | .print value => value.IsSpelled
  | .declare name none => name.IsSpelled
  | .declare name (some initial) => name.IsSpelled ∧ initial.IsSpelled
  | .block body => Stmt.IsSpelledAll body
  | .branch condition consequence none => condition.IsSpelled ∧ consequence.IsSpelled
  | .branch condition consequence (some alternative) =>
      condition.IsSpelled ∧ consequence.IsSpelled ∧ alternative.IsSpelled
  | .loop condition body => condition.IsSpelled ∧ body.IsSpelled
  | .function declaration => declaration.IsSpelled
  | .leave _ none => True
  | .leave _ (some value) => value.IsSpelled
  | .classDecl name none methods => name.IsSpelled ∧ Function.IsSpelledAll methods
  | .classDecl name (some (_, superclass)) methods =>
      name.IsSpelled ∧ superclass.IsSpelled ∧ Function.IsSpelledAll methods

def Stmt.IsSpelledAll : List Stmt → Prop
  | [] => True
  | first :: rest => first.IsSpelled ∧ Stmt.IsSpelledAll rest

def Function.IsSpelled : Function → Prop
  | .mk name parameters body =>
      name.IsSpelled ∧ (∀ parameter ∈ parameters, parameter.IsSpelled) ∧ Stmt.IsSpelledAll body

def Function.IsSpelledAll : List Function → Prop
  | [] => True
  | first :: rest => first.IsSpelled ∧ Function.IsSpelledAll rest

end

namespace Grammar

/-- Identifiers among the tokens are spelled as such, and literals can be denoted. -/
def Spelled (tokens : List Token) : Prop :=
  ∀ token ∈ tokens,
    (token.kind = .identifier → (nameOf token).IsSpelled) ∧
      (token.kind = .number ∨ token.kind = .string →
        ∃ value, token.literal = some value ∧ value.IsSpelled)

namespace Spelled

variable {token : Token} {rest : List Token}

theorem tail (spelled : Spelled (token :: rest)) : Spelled rest :=
  fun other member => spelled other (List.mem_cons_of_mem _ member)

theorem name (spelled : Spelled (token :: rest)) (isName : token.kind = .identifier) :
    (nameOf token).IsSpelled :=
  (spelled token List.mem_cons_self).1 isName

theorem constant (spelled : Spelled (token :: rest)) {value : Literal}
    (constant : Constant token value) : value.IsSpelled := by
  have denotes := (spelled token List.mem_cons_self).2
  cases constant with
  | no _ | yes _ | nil _ => trivial
  | number isNumber =>
      obtain ⟨value, same, holds⟩ := denotes (.inl isNumber)
      rw [same]
      exact holds
  | string isString =>
      obtain ⟨value, same, holds⟩ := denotes (.inr isString)
      rw [same]
      exact holds

end Spelled

theorem Operator.isSpelled {left right tree : Expr} {precedence : Parser.Precedence}
    {token : Token} (operator : Operator left right precedence token tree)
    (first : left.IsSpelled) (second : right.IsSpelled) : tree.IsSpelled := by
  cases operator <;> exact ⟨first, second⟩

/-! What stands behind a phrase is spelled as well, so the tokens are followed through it. -/

mutual

theorem Expression.spelled {form : Form} {before after : Cursor} {tree : Expr} :
    Expression form before tree after → Spelled before.tokens →
      tree.IsSpelled ∧ Spelled after.tokens
  | .assign isName _ value, spelled => by
      obtain ⟨holds, left⟩ := value.spelled spelled.tail.tail
      exact ⟨⟨spelled.name isName, holds⟩, left⟩
  | .set object _ isName _ value, spelled => by
      obtain ⟨first, middle⟩ := object.spelled spelled
      obtain ⟨second, left⟩ := value.spelled middle.tail.tail.tail
      exact ⟨⟨first, middle.tail.name isName, second⟩, left⟩
  | .operation tree, spelled => tree.spelled spelled
  | .binary left operator right, spelled => by
      obtain ⟨first, middle⟩ := left.spelled spelled
      obtain ⟨second, last⟩ := right.spelled middle.tail
      exact ⟨operator.isSpelled first second, last⟩
  | .tighter tree, spelled => tree.spelled spelled
  | .tightest tree, spelled => tree.spelled spelled
  | .signed _ operand, spelled => operand.spelled spelled.tail
  | .unsigned tree, spelled => tree.spelled spelled
  | .callNone callee _ _, spelled => by
      obtain ⟨holds, left⟩ := callee.spelled spelled
      exact ⟨⟨holds, trivial⟩, left.tail.tail⟩
  | .call callee _ arguments _ _, spelled => by
      obtain ⟨first, middle⟩ := callee.spelled spelled
      obtain ⟨others, left⟩ := arguments.spelled middle.tail
      exact ⟨⟨first, others⟩, left.tail⟩
  | .get object _ isName, spelled => by
      obtain ⟨holds, left⟩ := object.spelled spelled
      exact ⟨⟨holds, left.tail.name isName⟩, left.tail.tail⟩
  | .callee tree, spelled => tree.spelled spelled
  | .literal constant, spelled => ⟨spelled.constant constant, spelled.tail⟩
  | .read isName, spelled => ⟨spelled.name isName, spelled.tail⟩
  | .self _, spelled => ⟨trivial, spelled.tail⟩
  | .superMethod _ _ isName, spelled =>
      ⟨spelled.tail.tail.name isName, spelled.tail.tail.tail⟩
  | .group _ inner _, spelled => by
      obtain ⟨holds, left⟩ := inner.spelled spelled.tail
      exact ⟨holds, left.tail⟩

theorem Arguments.spelled {before after : Cursor} {trees : List Expr} :
    Arguments before trees after → Spelled before.tokens →
      Expr.IsSpelledAll trees ∧ Spelled after.tokens
  | .last tree, spelled => by
      obtain ⟨holds, left⟩ := tree.spelled spelled
      exact ⟨⟨holds, trivial⟩, left⟩
  | .more first _ others, spelled => by
      obtain ⟨holds, middle⟩ := first.spelled spelled
      obtain ⟨rest, left⟩ := others.spelled middle.tail
      exact ⟨⟨holds, rest⟩, left⟩

end

theorem Optional.spelled {before after : Cursor} {tree : Option Expr}
    (derived : Optional before tree after) (spelled : Spelled before.tokens) :
    (∀ value ∈ tree, value.IsSpelled) ∧ Spelled after.tokens := by
  cases derived with
  | none => exact ⟨by simp, spelled⟩
  | some value =>
      obtain ⟨holds, left⟩ := value.spelled spelled
      exact ⟨by simpa using holds, left⟩

theorem ExpressionStatement.spelled {before after : Cursor} {tree : Stmt}
    (derived : ExpressionStatement before tree after) (spelled : Spelled before.tokens) :
    tree.IsSpelled ∧ Spelled after.tokens := by
  cases derived with
  | intro value _ _ =>
      obtain ⟨holds, left⟩ := value.spelled spelled
      exact ⟨holds, left.tail⟩

theorem VariableDeclaration.spelled {before after : Cursor} {tree : Stmt}
    (derived : VariableDeclaration before tree after) (spelled : Spelled before.tokens) :
    tree.IsSpelled ∧ Spelled after.tokens := by
  cases derived with
  | plain isName _ => exact ⟨spelled.name isName, spelled.tail.tail⟩
  | initialized isName _ value _ =>
      obtain ⟨holds, left⟩ := value.spelled spelled.tail.tail
      exact ⟨⟨spelled.name isName, holds⟩, left.tail⟩

theorem Initializer.spelled {before after : Cursor} {tree : Option Stmt}
    (derived : Initializer before tree after) (spelled : Spelled before.tokens) :
    (∀ statement ∈ tree, statement.IsSpelled) ∧ Spelled after.tokens := by
  cases derived with
  | none _ => exact ⟨by simp, spelled.tail⟩
  | declaration _ tree =>
      obtain ⟨holds, left⟩ := tree.spelled spelled.tail
      exact ⟨by simpa using holds, left⟩
  | expression tree =>
      obtain ⟨holds, left⟩ := tree.spelled spelled
      exact ⟨by simpa using holds, left⟩

theorem Parameters.spelled {before after : List Token} {names : List Name}
    (derived : Parameters before names after) (spelled : Spelled before) :
    (∀ name ∈ names, name.IsSpelled) ∧ Spelled after := by
  induction derived with
  | last isName => exact ⟨by simpa using spelled.name isName, spelled.tail⟩
  | more isName _ _ inductionHypothesis =>
      obtain ⟨others, left⟩ := inductionHypothesis spelled.tail.tail
      exact ⟨by simpa using ⟨spelled.name isName, others⟩, left⟩

theorem ParameterList.spelled {before after : List Token} {names : List Name}
    (derived : ParameterList before names after) (spelled : Spelled before) :
    (∀ name ∈ names, name.IsSpelled) ∧ Spelled after := by
  cases derived with
  | none _ => exact ⟨by simp, spelled.tail⟩
  | some names _ _ =>
      obtain ⟨holds, left⟩ := names.spelled spelled
      exact ⟨holds, left.tail⟩

theorem Superclass.spelled {before after : Cursor} {tree : Option (RefId × Name)}
    (derived : Superclass before tree after) (spelled : Spelled before.tokens) :
    (∀ superclass ∈ tree, superclass.2.IsSpelled) ∧ Spelled after.tokens := by
  cases derived with
  | none => exact ⟨by simp, spelled⟩
  | some _ isName => exact ⟨by simpa using spelled.tail.name isName, spelled.tail.tail⟩

theorem isSpelled_forTree {initial : Option Stmt} {condition increment : Option Expr} {body : Stmt}
    (first : ∀ statement ∈ initial, statement.IsSpelled)
    (second : ∀ value ∈ condition, value.IsSpelled) (third : ∀ value ∈ increment, value.IsSpelled)
    (last : body.IsSpelled) : (forTree initial condition increment body).IsSpelled := by
  have tested : (condition.getD (.literal (.bool true))).IsSpelled := by
    cases condition with
    | none => trivial
    | some condition => exact second condition rfl
  cases initial <;> cases increment <;>
    simp_all [forTree, Stmt.IsSpelled, Stmt.IsSpelledAll]

mutual

theorem Statement.spelled {nearest dangling : Bool} {before after : Cursor} {tree : Stmt} :
    Statement nearest dangling before tree after → Spelled before.tokens →
      tree.IsSpelled ∧ Spelled after.tokens
  | .expression tree, spelled => tree.spelled spelled
  | .print _ value _, spelled => by
      obtain ⟨holds, left⟩ := value.spelled spelled.tail
      exact ⟨holds, left.tail⟩
  | @Statement.leave _ _ _ _ _ _ _ value _ derived _, spelled => by
      obtain ⟨holds, left⟩ := derived.spelled spelled.tail
      cases value with
      | none => exact ⟨trivial, left.tail⟩
      | some value => exact ⟨holds value rfl, left.tail⟩
  | .block _ body _, spelled => by
      obtain ⟨holds, left⟩ := body.spelled spelled.tail
      exact ⟨holds, left.tail⟩
  | .ifThen _ _ condition _ consequence, spelled => by
      obtain ⟨first, middle⟩ := condition.spelled spelled.tail.tail
      obtain ⟨second, left⟩ := consequence.spelled middle.tail
      exact ⟨⟨first, second⟩, left⟩
  | .ifElse _ _ condition _ consequence _ _ alternative, spelled => by
      obtain ⟨first, middle⟩ := condition.spelled spelled.tail.tail
      obtain ⟨second, further⟩ := consequence.spelled middle.tail
      obtain ⟨third, left⟩ := alternative.spelled further.tail
      exact ⟨⟨first, second, third⟩, left⟩
  | .whileLoop _ _ condition _ body, spelled => by
      obtain ⟨first, middle⟩ := condition.spelled spelled.tail.tail
      obtain ⟨second, left⟩ := body.spelled middle.tail
      exact ⟨⟨first, second⟩, left⟩
  | .forLoop _ _ initial condition _ increment _ body lowered, spelled => by
      obtain ⟨first, afterFirst⟩ := initial.spelled spelled.tail.tail
      obtain ⟨second, afterSecond⟩ := condition.spelled afterFirst
      obtain ⟨third, afterThird⟩ := increment.spelled afterSecond.tail
      obtain ⟨last, left⟩ := body.spelled afterThird.tail
      rw [lowered]
      exact ⟨isSpelled_forTree first second third last, left⟩

theorem Declaration.spelled {nearest : Bool} {before after : Cursor} {tree : Stmt} :
    Declaration nearest before tree after → Spelled before.tokens →
      tree.IsSpelled ∧ Spelled after.tokens
  | @Declaration.classDecl _ _ _ _ _ _ _ _ _ _ _ superclass _ _ isName inherits _ methods _,
      spelled => by
      obtain ⟨parent, middle⟩ := inherits.spelled spelled.tail.tail
      obtain ⟨holds, left⟩ := methods.spelled middle.tail
      cases superclass with
      | none => exact ⟨⟨spelled.tail.name isName, holds⟩, left.tail⟩
      | some superclass => exact ⟨⟨spelled.tail.name isName, parent _ rfl, holds⟩, left.tail⟩
  | .function _ tree, spelled => tree.spelled spelled.tail
  | .declare _ tree, spelled => tree.spelled spelled.tail
  | .statement tree, spelled => tree.spelled spelled

theorem Declarations.spelled {nearest : Bool} {before after : Cursor} {trees : List Stmt} :
    Declarations nearest before trees after → Spelled before.tokens →
      Stmt.IsSpelledAll trees ∧ Spelled after.tokens
  | .nil, spelled => ⟨trivial, spelled⟩
  | .cons first rest, spelled => by
      obtain ⟨holds, middle⟩ := first.spelled spelled
      obtain ⟨others, left⟩ := rest.spelled middle
      exact ⟨⟨holds, others⟩, left⟩

theorem Callable.spelled {nearest : Bool} {before after : Cursor} {tree : Function} :
    Callable nearest before tree after → Spelled before.tokens →
      tree.IsSpelled ∧ Spelled after.tokens
  | .intro isName _ parameters _ body _, spelled => by
      obtain ⟨names, inside⟩ := parameters.spelled spelled.tail.tail
      obtain ⟨holds, left⟩ := body.spelled inside.tail
      exact ⟨⟨spelled.name isName, names, holds⟩, left.tail⟩

theorem Methods.spelled {nearest : Bool} {before after : Cursor} {trees : List Function} :
    Methods nearest before trees after → Spelled before.tokens →
      Function.IsSpelledAll trees ∧ Spelled after.tokens
  | .nil, spelled => ⟨trivial, spelled⟩
  | .cons first rest, spelled => by
      obtain ⟨holds, middle⟩ := first.spelled spelled
      obtain ⟨others, left⟩ := rest.spelled middle
      exact ⟨⟨holds, others⟩, left⟩

end

end Grammar

/-- A numeral of the lexical grammar is read. -/
theorem exists_parse?_of_lexeme {text : Bytes} (lexeme : Lexeme .number text) :
    ∃ number, Decimal.parse? text = some number := by
  have marks : ∀ mark ∈ operators, mark.2 ≠ .number := by decide
  have words : ∀ entry ∈ Token.Kind.reserved, entry.2 ≠ .number := by decide
  cases lexeme with
  | operator listed => exact absurd rfl (marks _ listed)
  | whole isDigits => exact ⟨_, Decimal.parse?_of_digits isDigits.1 isDigits.2⟩
  | decimal isDigits isFraction =>
      exact ⟨_, Decimal.parse?_of_fraction isDigits.1 isDigits.2 isFraction.2⟩
  | reserved listed => exact absurd rfl (words _ listed)

theorem unquoted_of_lexeme {text : Bytes} (lexeme : Lexeme .string text) :
    Chunk.quote ∉ (text.drop 1).dropLast := by
  have marks : ∀ mark ∈ operators, mark.2 ≠ .string := by decide
  have words : ∀ entry ∈ Token.Kind.reserved, entry.2 ≠ .string := by decide
  cases lexeme with
  | operator listed => exact absurd rfl (marks _ listed)
  | string unquoted => simpa using unquoted
  | reserved listed => exact absurd rfl (words _ listed)

/-- Scanned tokens are spelled if no numeral overflows. -/
theorem spelled_scan {source : Bytes} (finite : ∀ token ∈ (scan source).tokens, ¬ token.Overflows) :
    Grammar.Spelled (scan source).tokens := by
  intro token member
  rcases lexeme_of_mem_scan member with ⟨lexeme, literal⟩ | rfl
  · refine ⟨fun isName => ?_, ?_⟩
    · rw [isName] at lexeme
      exact lexeme
    · rintro (isNumber | isString)
      · rw [isNumber] at lexeme literal
        obtain ⟨number, found⟩ := exists_parse?_of_lexeme lexeme
        have read : token.literal = some (.number (Binary.toFloat number.nearest)) := by
          rw [literal, Chunk.literal?, Number.read?, found]
          rfl
        refine ⟨_, read, number.nearest, Nat.lt_of_le_of_ne (Nat.min_le_right _ _) ?_, rfl⟩
        intro infinite
        rw [infinite] at read
        exact finite token member read
      · rw [isString] at lexeme literal
        exact ⟨_, literal, unquoted_of_lexeme lexeme⟩
  · constructor
    · intro isName
      cases isName
    · rintro (isNumber | isString)
      · cases isNumber
      · cases isString

/-- The trees of a source without syntax errors are spelled if no numeral overflows. -/
theorem isSpelled_parse {source : Bytes} {nextId : RefId}
    (finite : ∀ token ∈ (scan source).tokens, ¬ token.Overflows)
    (silent : (parse (scan source).tokens nextId).errors = []) :
    Stmt.IsSpelledAll (parse (scan source).tokens nextId).statements := by
  obtain ⟨taken, rest, -, -, -, derived⟩ := Parser.derivation_of_parse silent
  exact (derived.spelled (spelled_scan finite)).1

end LoxLang
