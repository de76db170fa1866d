import LoxLang.Proofs.Program.Reading

/-!
Silent readings are derivations.  Every parser reads on without reaching its
bound, and what it yields without an error is derived by the grammar with each
`else` at the nearest open `if`.
-/

namespace LoxLang

open Grammar

namespace Grammar

/-- The expression can stand to the left of an assignment. -/
def IsTarget : Expr → Prop
  | .read _ _ => True
  | .get _ _ => True
  | _ => False

/-- A target is never the result of an operator. -/
theorem Expression.call_of_isTarget {levels : List Parser.Precedence} {before after : Cursor}
    {tree : Expr} (target : IsTarget tree)
    (derived : Expression (.operators levels) before tree after) :
    Expression .call before tree after := by
  induction levels with
  | nil =>
      cases derived with
      | tightest inner =>
          cases inner with
          | signed _ _ => exact target.elim
          | unsigned inner => exact inner
  | cons precedence tighter inductionHypothesis =>
      cases derived with
      | binary _ operator _ => cases operator <;> exact target.elim
      | tighter inner => exact inductionHypothesis inner

/-- A variable by itself is an identifier. -/
theorem Expression.assign_of_read {levels : List Parser.Precedence} {before after : Cursor}
    {id last : RefId} {name : Name} {equal : Token} {rest : List Token} {value : Expr}
    (target : Expression (.operators levels) before (.read id name) ⟨equal :: rest, last⟩)
    (isEqual : equal.kind = .equal) (assigned : Expression .assignment ⟨rest, last⟩ value after) :
    Expression .assignment before (.assign id name value) after := by
  have isTarget : IsTarget (.read id name) := trivial
  cases target.call_of_isTarget isTarget with
  | callee primary =>
      cases primary with
      | read isName => exact .assign isName isEqual assigned

/-- A property read ends a chain of calls. -/
theorem Expression.set_of_get {levels : List Parser.Precedence} {before after : Cursor}
    {object : Expr} {last : RefId} {name : Name} {equal : Token} {rest : List Token} {value : Expr}
    (target : Expression (.operators levels) before (.get object name) ⟨equal :: rest, last⟩)
    (isEqual : equal.kind = .equal) (assigned : Expression .assignment ⟨rest, last⟩ value after) :
    Expression .assignment before (.set object name value) after := by
  have isTarget : IsTarget (.get object name) := trivial
  cases target.call_of_isTarget isTarget with
  | get inner isDot isName => exact .set inner isDot isName isEqual assigned
  | callee primary => cases primary

end Grammar

namespace Parser

theorem Precedence.operator_of_some {precedence : Precedence} {token : Token}
    {build : Nat → Expr → Expr → Expr} (found : precedence.operator? token.kind = some build)
    (left right : Expr) :
    Operator left right precedence token (build token.line left right) := by
  unfold Precedence.operator? at found
  split at found <;> cases found <;> constructor <;> assumption

theorem sign_of_some {kind : Token.Kind} {op : UnaryOp} (found : unaryOperator? kind = some op) :
    Sign kind op := by
  unfold unaryOperator? at found
  split at found <;> cases found <;> constructor

theorem constant_of_some {token : Token} {value : Literal} (found : literal? token = some value) :
    Constant token value := by
  unfold literal? at found
  split at found <;> cases found
  · next isFalse => exact .no isFalse
  · next isTrue => exact .yes isTrue
  · next isNil => exact .nil isNil
  · next isNumber => exact .number isNumber
  · next isString => exact .string isString

/-- The parsers of expressions read soundly within a bound. -/
structure ReadsExpressions (bound : Nat) : Prop where
  expression : ∀ {tokens : List Token} {errors : List Diagnostic} {id : RefId},
    20 * tokens.length + 10 ≤ bound →
      Reads ⟨tokens, errors, id⟩ (expression bound) 1 fun after tree =>
        Expression .assignment ⟨tokens, id⟩ tree after.cursor
  level : ∀ {tokens : List Token} {errors : List Diagnostic} {id : RefId}
    {levels : List Precedence}, levels.length ≤ 6 →
    20 * tokens.length + levels.length + 3 ≤ bound →
      Reads ⟨tokens, errors, id⟩ (level bound levels) 1 fun after tree =>
        Expression (.operators levels) ⟨tokens, id⟩ tree after.cursor
  levelRest : ∀ {tokens : List Token} {errors : List Diagnostic} {id : RefId}
    {precedence : Precedence} {tighter : List Precedence} {left : Expr}, tighter.length < 6 →
    20 * tokens.length + 1 ≤ bound →
      Reads ⟨tokens, errors, id⟩ (levelRest bound precedence tighter left) 0 fun after tree =>
        ∀ before, Expression (.operators (precedence :: tighter)) before left ⟨tokens, id⟩ →
          Expression (.operators (precedence :: tighter)) before tree after.cursor
  unary : ∀ {tokens : List Token} {errors : List Diagnostic} {id : RefId},
    20 * tokens.length + 2 ≤ bound →
      Reads ⟨tokens, errors, id⟩ (unary bound) 1 fun after tree =>
        Expression .unary ⟨tokens, id⟩ tree after.cursor
  callRest : ∀ {tokens : List Token} {errors : List Diagnostic} {id : RefId} {callee : Expr},
    20 * tokens.length + 1 ≤ bound →
      Reads ⟨tokens, errors, id⟩ (callRest bound callee) 0 fun after tree =>
        ∀ before, Expression .call before callee ⟨tokens, id⟩ →
          Expression .call before tree after.cursor
  argumentsFrom : ∀ {tokens : List Token} {errors : List Diagnostic} {id : RefId} {count : Nat},
    20 * tokens.length + 11 ≤ bound →
      Reads ⟨tokens, errors, id⟩ (argumentsFrom bound count) 1 fun after trees =>
        Arguments ⟨tokens, id⟩ trees after.cursor ∧ count + trees.length ≤ 255
  primary : ∀ {tokens : List Token} {errors : List Diagnostic} {id : RefId},
    20 * tokens.length + 1 ≤ bound →
      Reads ⟨tokens, errors, id⟩ (primary bound) 1 fun after tree =>
        Expression .primary ⟨tokens, id⟩ tree after.cursor

namespace ReadsExpressions

variable {bound : Nat} {tokens : List Token} {errors : List Diagnostic} {id : RefId}

theorem expression_succ (sound : ReadsExpressions bound)
    (room : 20 * tokens.length + 10 ≤ bound + 1) :
    Reads ⟨tokens, errors, id⟩ (Parser.expression (bound + 1)) 1 fun after tree =>
      Expression .assignment ⟨tokens, id⟩ tree after.cursor := by
  simp only [Parser.expression]
  apply Reads.bind (sound.level (by decide) (by simp [Precedence.all]; omega))
  intro tokens₁ errors₁ id₁ target _ length₁
  apply Reads.accept (by decide)
  · rintro equal rest rfl isEqual
    simp only [List.length_cons] at length₁
    dsimp only
    apply Reads.bind (sound.expression (by omega))
    intro tokens₂ errors₂ id₂ value _ _
    cases target with
    | read reference name =>
        exact Reads.pure rfl fun assigned target => target.assign_of_read isEqual assigned
    | get object name =>
        exact Reads.pure rfl fun assigned target => target.set_of_get isEqual assigned
    | _ => exact Reads.report (Reads.pure rfl trivial)
  · intro _
    exact Reads.pure rfl fun target => .operation target

theorem level_succ (sound : ReadsExpressions bound) {levels : List Precedence}
    (few : levels.length ≤ 6) (room : 20 * tokens.length + levels.length + 3 ≤ bound + 1) :
    Reads ⟨tokens, errors, id⟩ (Parser.level (bound + 1) levels) 1 fun after tree =>
      Expression (.operators levels) ⟨tokens, id⟩ tree after.cursor := by
  cases levels with
  | nil =>
      simp only [Parser.level]
      apply (sound.unary (by simp at room; omega)).weaken
      intro after tree derived
      exact .tightest derived
  | cons precedence tighter =>
      simp only [List.length_cons] at few room
      simp only [Parser.level]
      apply Reads.bind (sound.level (by omega) (by omega))
      intro tokens₁ errors₁ id₁ left _ length₁
      apply (sound.levelRest (by omega) (by omega)).weaken
      intro after tree continues first
      exact continues _ (.tighter first)

theorem levelRest_succ (sound : ReadsExpressions bound) {precedence : Precedence}
    {tighter : List Precedence} {left : Expr} (few : tighter.length < 6)
    (room : 20 * tokens.length + 1 ≤ bound + 1) :
    Reads ⟨tokens, errors, id⟩ (Parser.levelRest (bound + 1) precedence tighter left) 0
      fun after tree =>
        ∀ before, Expression (.operators (precedence :: tighter)) before left ⟨tokens, id⟩ →
          Expression (.operators (precedence :: tighter)) before tree after.cursor := by
  simp only [Parser.levelRest]
  apply Reads.acceptWith (by cases precedence <;> rfl)
  · rintro operator rest build rfl found
    simp only [List.length_cons] at room
    dsimp only
    apply Reads.bind (sound.level (by omega) (by omega))
    intro tokens₁ errors₁ id₁ right _ length₁
    apply (sound.levelRest few (by omega)).weaken
    intro after tree extended second before first
    exact extended before
      (.binary first (Precedence.operator_of_some found left right) second)
  · intro _
    exact Reads.pure rfl fun before first => first

theorem unary_succ (sound : ReadsExpressions bound) (room : 20 * tokens.length + 2 ≤ bound + 1) :
    Reads ⟨tokens, errors, id⟩ (Parser.unary (bound + 1)) 1 fun after tree =>
      Expression .unary ⟨tokens, id⟩ tree after.cursor := by
  simp only [Parser.unary]
  apply Reads.acceptWith rfl
  · rintro sign rest op rfl found
    simp only [List.length_cons] at room
    dsimp only
    apply Reads.bind (sound.unary (by omega))
    intro tokens₁ errors₁ id₁ operand _ _
    exact Reads.pure rfl fun operand => .signed (sign_of_some found) operand
  · intro _
    dsimp only
    apply Reads.bind (sound.primary (by omega))
    intro tokens₁ errors₁ id₁ callee _ length₁
    apply (sound.callRest (by omega)).weaken
    intro after tree extended first
    exact .unsigned (extended _ (.callee first))

theorem callRest_succ (sound : ReadsExpressions bound) {callee : Expr}
    (room : 20 * tokens.length + 1 ≤ bound + 1) :
    Reads ⟨tokens, errors, id⟩ (Parser.callRest (bound + 1) callee) 0 fun after tree =>
      ∀ before, Expression .call before callee ⟨tokens, id⟩ →
        Expression .call before tree after.cursor := by
  simp only [Parser.callRest]
  apply Reads.accept (by decide)
  · rintro opens rest rfl isOpen
    simp only [List.length_cons] at room
    simp only [Option.isSome_some, if_true]
    apply Reads.check (by decide)
    split
    · rw [pure_bind]
      apply Reads.expect (by decide)
      rintro closes rest rfl isClosed
      simp only [List.length_cons] at room
      apply (sound.callRest (by omega)).weaken
      intro after tree extended before first
      exact extended before (.callNone first isOpen isClosed)
    · apply Reads.bind (sound.argumentsFrom (by omega))
      intro tokens₁ errors₁ id₁ arguments _ length₁
      apply Reads.expect (by decide)
      rintro closes rest rfl isClosed
      simp only [List.length_cons] at length₁
      apply (sound.callRest (by omega)).weaken
      rintro after tree extended ⟨arguments, few⟩ before first
      exact extended before (.call first isOpen arguments (by omega) isClosed)
  · intro _
    simp only [Option.isSome_none, Bool.false_eq_true, if_false]
    apply Reads.accept (by decide)
    · rintro dot rest rfl isDot
      simp only [Option.isSome_some, if_true]
      apply Reads.expectName
      rintro name rest rfl isName
      simp only [List.length_cons] at room
      apply (sound.callRest (by omega)).weaken
      intro after tree extended before first
      exact extended before (.get first isDot isName)
    · intro _
      exact Reads.pure rfl fun before first => first

theorem argumentsFrom_succ (sound : ReadsExpressions bound) {count : Nat}
    (room : 20 * tokens.length + 11 ≤ bound + 1) :
    Reads ⟨tokens, errors, id⟩ (Parser.argumentsFrom (bound + 1) count) 1 fun after trees =>
      Arguments ⟨tokens, id⟩ trees after.cursor ∧ count + trees.length ≤ 255 := by
  have inside (errors : List Diagnostic) : Reads ⟨tokens, errors, id⟩ (do
      let first ← Parser.expression bound
      if (← Parser.accept .comma).isSome then
        return first :: (← Parser.argumentsFrom bound (count + 1))
      else
        return [first]) 1 fun after trees => Arguments ⟨tokens, id⟩ trees after.cursor ∧
          (count < 255 → count + trees.length ≤ 255) := by
    apply Reads.bind (sound.expression (by omega))
    intro tokens₁ errors₁ id₁ first _ length₁
    apply Reads.accept (by decide)
    · rintro comma rest rfl isComma
      simp only [List.length_cons] at length₁
      simp only [Option.isSome_some, if_true]
      apply Reads.bind (sound.argumentsFrom (by omega))
      intro tokens₂ errors₂ id₂ others _ _
      apply Reads.pure rfl
      rintro ⟨others, few⟩ first
      refine ⟨.more first isComma others, fun _ => ?_⟩
      rw [List.length_cons]
      omega
    · intro _
      apply Reads.pure rfl
      intro first
      exact ⟨.last first, fun few => few⟩
  simp only [Parser.argumentsFrom]
  split
  · apply Reads.peek
    apply Reads.report
    exact (inside _).weaken fun _ _ _ => trivial
  · next few =>
      apply (inside errors).weaken
      rintro after trees ⟨derived, count⟩
      exact ⟨derived, count (by simpa [maxArguments] using few)⟩

theorem primary_succ (sound : ReadsExpressions bound)
    (room : 20 * tokens.length + 1 ≤ bound + 1) :
    Reads ⟨tokens, errors, id⟩ (Parser.primary (bound + 1)) 1 fun after tree =>
      Expression .primary ⟨tokens, id⟩ tree after.cursor := by
  simp only [Parser.primary]
  apply Reads.peek
  cases tokens with
  | nil => exact Reads.fail
  | cons token rest =>
      simp only [List.length_cons] at room
      rw [List.headD_cons]
      split
      · next value found =>
          have constant := constant_of_some found
          apply Reads.skip constant.kind_ne_eof
          exact Reads.pure rfl (.literal constant)
      · next isSuper =>
          apply Reads.skip (by rw [isSuper]; decide)
          apply Reads.expect (by decide)
          rintro dot rest rfl isDot
          apply Reads.expectName
          rintro name rest rfl isName
          apply Reads.freshId
          exact Reads.pure rfl (.superMethod isSuper isDot isName)
      · next isThis =>
          apply Reads.skip (by rw [isThis]; decide)
          apply Reads.freshId
          exact Reads.pure rfl (.self isThis)
      · next isName =>
          apply Reads.skip (by rw [isName]; decide)
          apply Reads.freshId
          exact Reads.pure rfl (.read isName)
      · next isOpen =>
          apply Reads.skip (by rw [isOpen]; decide)
          apply Reads.bind (sound.expression (by omega))
          intro tokens₁ errors₁ id₁ inner _ _
          apply Reads.expect (by decide)
          rintro closes rest rfl isClosed
          exact Reads.pure rfl fun inner => .group isOpen inner isClosed
      · exact Reads.fail

theorem zero : ReadsExpressions 0 where
  expression room := absurd room (by omega)
  level _ room := absurd room (by omega)
  levelRest _ room := absurd room (by omega)
  unary room := absurd room (by omega)
  callRest room := absurd room (by omega)
  argumentsFrom room := absurd room (by omega)
  primary room := absurd room (by omega)

/-- The parsers of expressions read soundly within every bound. -/
theorem all (bound : Nat) : ReadsExpressions bound := by
  induction bound with
  | zero => exact zero
  | succ bound sound =>
      exact ⟨sound.expression_succ, sound.level_succ, sound.levelRest_succ, sound.unary_succ,
        sound.callRest_succ, sound.argumentsFrom_succ, sound.primary_succ⟩

end ReadsExpressions

theorem assigns_iff (value : Expr) : Assigns value ↔ value.isAssignment = true := by
  constructor
  · rintro (_ | _) <;> rfl
  · intro assigns
    cases value with
    | assign id name value => exact .assign
    | set object name value => exact .set
    | _ => cases assigns

theorem lowerFor_eq (initial : Option Stmt) (condition increment : Option Expr) (body : Stmt) :
    lowerFor initial condition increment body = forTree initial condition increment body := by
  cases initial <;> cases increment <;> rfl

/-- Recovery passes over tokens before the end, and over the next one if it is not
the end. -/
theorem exists_synchronize (tokens : List Token) :
    ∃ passed, tokens = passed ++ synchronize tokens ∧ (∀ token ∈ passed, token.kind ≠ .eof) ∧
      (ahead tokens ≠ .eof → passed ≠ []) := by
  induction tokens with
  | nil => exact ⟨[], rfl, by simp, by simp⟩
  | cons token rest inductionHypothesis =>
      obtain ⟨passed, same, real, -⟩ := inductionHypothesis
      unfold synchronize
      split
      · next isEnd => exact ⟨[], rfl, by simp, by simp [isEnd]⟩
      · next notEnd =>
          split
          · exact ⟨[token], rfl, by simpa using notEnd, by simp⟩
          · split
            · exact ⟨[token], rfl, by simpa using notEnd, by simp⟩
            · next next others =>
                split
                · exact ⟨[token], rfl, by simpa using notEnd, by simp⟩
                · refine ⟨token :: passed, ?_, ?_, by simp⟩
                  · rw [List.cons_append, ← same]
                  · intro other member
                    rcases List.mem_cons.mp member with rfl | inPassed
                    · exact notEnd
                    · exact real other inPassed

namespace Reads

variable {bound : Nat} {tokens : List Token} {errors : List Diagnostic} {id : RefId}

theorem expressionStatement (room : 20 * tokens.length + 10 ≤ bound) :
    Reads ⟨tokens, errors, id⟩ (expressionStatement bound) 1 fun after tree =>
      ExpressionStatement ⟨tokens, id⟩ tree after.cursor := by
  unfold Parser.expressionStatement
  apply Reads.bind ((ReadsExpressions.all bound).expression room)
  intro tokens₁ errors₁ id₁ value _ _
  apply Reads.expect (by decide)
  rintro semicolon rest rfl isSemicolon
  apply Reads.pure rfl
  intro derived
  exact .intro derived isSemicolon (by rw [assigns_iff, Bool.not_eq_false'])

theorem variableDeclaration (room : 20 * tokens.length ≤ bound) :
    Reads ⟨tokens, errors, id⟩ (variableDeclaration bound) 1 fun after tree =>
      VariableDeclaration ⟨tokens, id⟩ tree after.cursor := by
  unfold Parser.variableDeclaration
  apply Reads.expectName
  rintro name rest rfl isName
  simp only [List.length_cons] at room
  apply Reads.accept (by decide)
  · rintro equal rest rfl isEqual
    simp only [List.length_cons] at room
    simp only [Option.isSome_some, if_true, bind_map_left]
    apply Reads.bind ((ReadsExpressions.all bound).expression (by omega))
    intro tokens₁ errors₁ id₁ value _ _
    apply Reads.expect (by decide)
    rintro semicolon rest rfl isSemicolon
    exact Reads.pure rfl fun value => .initialized isName isEqual value isSemicolon
  · intro _
    simp only [Option.isSome_none, Bool.false_eq_true, if_false, pure_bind]
    apply Reads.expect (by decide)
    rintro semicolon rest rfl isSemicolon
    exact Reads.pure rfl (.plain isName isSemicolon)

theorem optionalExpression {stop : Token.Kind} (real : stop ≠ .eof)
    (room : 20 * tokens.length + 10 ≤ bound) :
    Reads ⟨tokens, errors, id⟩ (optionalExpression bound stop) 0 fun after tree =>
      Optional ⟨tokens, id⟩ tree after.cursor := by
  unfold Parser.optionalExpression
  apply Reads.check real
  split
  · exact Reads.pure rfl .none
  · apply Reads.bind ((ReadsExpressions.all bound).expression room)
    intro tokens₁ errors₁ id₁ value _ _
    exact Reads.pure rfl fun value => .some value

theorem forInitializer (room : 20 * tokens.length + 10 ≤ bound) :
    Reads ⟨tokens, errors, id⟩ (forInitializer bound) 1 fun after tree =>
      Initializer ⟨tokens, id⟩ tree after.cursor := by
  unfold Parser.forInitializer
  apply Reads.accept (by decide)
  · rintro semicolon rest rfl isSemicolon
    exact Reads.pure rfl (.none isSemicolon)
  intro _
  apply Reads.accept (by decide)
  · rintro word rest rfl isVar
    simp only [List.length_cons] at room
    apply Reads.bind (Reads.variableDeclaration (by omega))
    intro tokens₁ errors₁ id₁ tree _ _
    exact Reads.pure rfl fun tree => .declaration isVar tree
  intro _
  apply Reads.bind (Reads.expressionStatement room)
  intro tokens₁ errors₁ id₁ tree _ _
  exact Reads.pure rfl fun tree => .expression tree

/-- Parameters up to the closing parenthesis. -/
theorem parametersFrom {count : Nat} (room : 20 * tokens.length + 1 ≤ bound) :
    Reads ⟨tokens, errors, id⟩ (parametersFrom bound count) 1 fun after names =>
      Parameters tokens names after.rest ∧ after.nextId = id ∧ count + names.length ≤ 255 := by
  induction bound generalizing tokens errors count with
  | zero => exact absurd room (by omega)
  | succ bound inductionHypothesis =>
      have inside (errors : List Diagnostic) : Reads ⟨tokens, errors, id⟩ (do
          let first ← Parser.expectName .expectedParameterName
          if (← Parser.accept .comma).isSome then
            return first :: (← Parser.parametersFrom bound (count + 1))
          else
            return [first]) 1 fun after names =>
              Parameters tokens names after.rest ∧ after.nextId = id ∧
                (count < 255 → count + names.length ≤ 255) := by
        apply Reads.expectName
        rintro name rest rfl isName
        apply Reads.accept (by decide)
        · rintro comma rest rfl isComma
          simp only [List.length_cons] at room
          simp only [Option.isSome_some, if_true]
          apply Reads.bind (inductionHypothesis (by omega))
          intro tokens₁ errors₁ id₁ others _ _
          apply Reads.pure rfl
          rintro ⟨others, sameId, few⟩
          refine ⟨.more isName isComma others, sameId, fun _ => ?_⟩
          rw [List.length_cons]
          omega
        · intro _
          exact Reads.pure rfl ⟨.last isName, rfl, fun few => few⟩
      simp only [Parser.parametersFrom]
      split
      · apply Reads.peek
        apply Reads.report
        exact (inside _).weaken fun _ _ _ => trivial
      · next few =>
          apply (inside errors).weaken
          rintro after names ⟨derived, sameId, count⟩
          exact ⟨derived, sameId, count (by simpa [maxArguments] using few)⟩

end Reads

/-- A statement was read with every `else` that belongs to it. -/
def IsStatement (before : Cursor) (after : State) (tree : Stmt) : Prop :=
  ∃ dangling, Statement true dangling before tree after.cursor ∧
    (dangling = true → ahead after.rest ≠ .elseWord)

/-- The parsers of statements read soundly within a bound. -/
structure ReadsStatements (bound : Nat) : Prop where
  recovering : ∀ {tokens : List Token} {errors : List Diagnostic} {id : RefId},
    ahead tokens ≠ .eof → 20 * tokens.length + 13 ≤ bound →
      Reads ⟨tokens, errors, id⟩ (recovering bound) 1 fun after found =>
        ∃ tree, found = some tree ∧ Declaration true ⟨tokens, id⟩ tree after.cursor
  declaration : ∀ {tokens : List Token} {errors : List Diagnostic} {id : RefId},
    20 * tokens.length + 12 ≤ bound →
      Reads ⟨tokens, errors, id⟩ (declaration bound) 1 fun after tree =>
        Declaration true ⟨tokens, id⟩ tree after.cursor
  classDeclaration : ∀ {tokens : List Token} {errors : List Diagnostic} {id : RefId},
    20 * tokens.length + 1 ≤ bound →
      Reads ⟨tokens, errors, id⟩ (classDeclaration bound) 0 fun after tree =>
        ∀ word, word.kind = .classWord →
          Declaration true ⟨word :: tokens, id⟩ tree after.cursor
  methodsFrom : ∀ {tokens : List Token} {errors : List Diagnostic} {id : RefId},
    20 * tokens.length + 2 ≤ bound →
      Reads ⟨tokens, errors, id⟩ (methodsFrom bound) 0 fun after methods =>
        Methods true ⟨tokens, id⟩ methods after.cursor
  function : ∀ {tokens : List Token} {errors : List Diagnostic} {id : RefId}
    {form : Diagnostic.Callable}, 20 * tokens.length + 1 ≤ bound →
      Reads ⟨tokens, errors, id⟩ (function bound form) 1 fun after declaration =>
        Callable true ⟨tokens, id⟩ declaration after.cursor
  blockBody : ∀ {tokens : List Token} {errors : List Diagnostic} {id : RefId},
    20 * tokens.length + 15 ≤ bound →
      Reads ⟨tokens, errors, id⟩ (blockBody bound) 1 fun after body =>
        ∃ closes : Token, closes.kind = .rightBrace ∧
          Declarations true ⟨tokens, id⟩ body ⟨closes :: after.rest, after.nextId⟩
  statementsFrom : ∀ {tokens : List Token} {errors : List Diagnostic} {id : RefId},
    20 * tokens.length + 14 ≤ bound →
      Reads ⟨tokens, errors, id⟩ (statementsFrom bound) 0 fun after body =>
        Declarations true ⟨tokens, id⟩ body after.cursor
  statement : ∀ {tokens : List Token} {errors : List Diagnostic} {id : RefId},
    20 * tokens.length + 11 ≤ bound →
      Reads ⟨tokens, errors, id⟩ (statement bound) 1 (IsStatement ⟨tokens, id⟩)
  forStatement : ∀ {tokens : List Token} {errors : List Diagnostic} {id : RefId},
    20 * tokens.length + 1 ≤ bound →
      Reads ⟨tokens, errors, id⟩ (forStatement bound) 0 fun after tree =>
        ∀ word : Token, word.kind = .forWord → IsStatement ⟨word :: tokens, id⟩ after tree

namespace ReadsStatements

variable {bound : Nat} {tokens : List Token} {errors : List Diagnostic} {id : RefId}

/-- After an error in a declaration some token is passed over. -/
theorem recovering_succ (sound : ReadsStatements bound) (notEnd : ahead tokens ≠ .eof)
    (room : 20 * tokens.length + 13 ≤ bound + 1) :
    Reads ⟨tokens, errors, id⟩ (Parser.recovering (bound + 1)) 1 fun after found =>
      ∃ tree, found = some tree ∧ Declaration true ⟨tokens, id⟩ tree after.cursor := by
  have reads := @ReadsStatements.declaration _ sound tokens errors id (by omega)
  unfold Reads at reads ⊢
  simp only [Parser.recovering]
  cases result : Parser.declaration bound ⟨tokens, errors, id⟩ with
  | ok tree after =>
      rw [result] at reads
      exact ⟨reads.1, reads.2.1, fun silent => ⟨tree, rfl, reads.2.2 silent⟩⟩
  | error abort after =>
      rw [result] at reads
      cases abort with
      | bound => exact reads
      | syntaxError =>
          obtain ⟨advances, reported⟩ := reads
          obtain ⟨passed, same, real, some⟩ := exists_synchronize after.rest
          have further : Advances after { after with rest := synchronize after.rest } :=
            ⟨⟨passed, same, real⟩, List.prefix_refl _, Nat.le_refl _⟩
          refine ⟨advances.trans further, ?_, fun silent => absurd silent reported⟩
          obtain ⟨taken, rest, -⟩ := advances.taken
          dsimp only at rest ⊢
          rw [rest, List.length_append]
          have length := congrArg List.length same
          rw [List.length_append] at length
          cases taken with
          | cons token others =>
              rw [List.length_cons]
              omega
          | nil =>
              rw [List.nil_append] at rest
              have positive := List.length_pos_iff.mpr (some (rest ▸ notEnd))
              omega

theorem declaration_succ (sound : ReadsStatements bound)
    (room : 20 * tokens.length + 12 ≤ bound + 1) :
    Reads ⟨tokens, errors, id⟩ (Parser.declaration (bound + 1)) 1 fun after tree =>
      Declaration true ⟨tokens, id⟩ tree after.cursor := by
  simp only [Parser.declaration]
  apply Reads.accept (by decide)
  · rintro word rest rfl isClass
    simp only [List.length_cons] at room
    apply (sound.classDeclaration (by omega)).weaken
    intro after tree derived
    exact derived word isClass
  intro _
  apply Reads.accept (by decide)
  · rintro word rest rfl isFun
    simp only [List.length_cons] at room
    apply Reads.bind (sound.function (by omega))
    intro tokens₁ errors₁ id₁ declaration _ _
    exact Reads.pure rfl fun declaration => .function isFun declaration
  intro _
  apply Reads.accept (by decide)
  · rintro word rest rfl isVar
    simp only [List.length_cons] at room
    apply ((Reads.variableDeclaration (by omega)).relax (Nat.zero_le 1)).weaken
    intro after tree derived
    exact .declare isVar derived
  intro _
  apply (sound.statement (by omega)).weaken
  rintro after tree ⟨dangling, derived, -⟩
  exact .statement derived

theorem classDeclaration_succ (sound : ReadsStatements bound)
    (room : 20 * tokens.length + 1 ≤ bound + 1) :
    Reads ⟨tokens, errors, id⟩ (Parser.classDeclaration (bound + 1)) 0 fun after tree =>
      ∀ word, word.kind = .classWord →
        Declaration true ⟨word :: tokens, id⟩ tree after.cursor := by
  simp only [Parser.classDeclaration]
  apply Reads.expectName
  rintro name rest rfl isName
  simp only [List.length_cons] at room
  have body {tokens' : List Token} {id' : RefId} {superclass : Option (RefId × Name)}
      (inherits : Superclass ⟨rest, id⟩ superclass ⟨tokens', id'⟩)
      (length : tokens'.length ≤ rest.length) :
      Reads ⟨tokens', errors, id'⟩ (do
        let _ ← Parser.expect .leftBrace (.expectedOpenBrace .classBody)
        let methods ← Parser.methodsFrom bound
        let _ ← Parser.expect .rightBrace (.expectedCloseBrace .classBody)
        return .classDecl (nameOf name) superclass methods) 0 fun after tree =>
          ∀ word, word.kind = .classWord →
            Declaration true ⟨word :: name :: rest, id⟩ tree after.cursor := by
    apply Reads.expect (by decide)
    rintro opens inside rfl isOpen
    simp only [List.length_cons] at length
    apply Reads.bind (sound.methodsFrom (by omega))
    intro tokens₁ errors₁ id₁ methods _ _
    apply Reads.expect (by decide)
    rintro closes left rfl isClosed
    exact Reads.pure rfl fun methods word isClass =>
      .classDecl isClass isName inherits isOpen methods isClosed
  apply Reads.accept (by decide)
  · rintro less rest rfl isLess
    simp only [Option.isSome_some, if_true, pure_bind]
    apply Reads.expectName
    rintro parent left rfl isParent
    apply Reads.freshId
    exact body (.some isLess isParent) (Nat.le_add_right _ 2)
  · intro _
    exact body .none (Nat.le_refl _)

theorem methodsFrom_succ (sound : ReadsStatements bound)
    (room : 20 * tokens.length + 2 ≤ bound + 1) :
    Reads ⟨tokens, errors, id⟩ (Parser.methodsFrom (bound + 1)) 0 fun after methods =>
      Methods true ⟨tokens, id⟩ methods after.cursor := by
  simp only [Parser.methodsFrom]
  apply Reads.check (by decide)
  apply Reads.atEnd
  split
  · exact Reads.pure rfl .nil
  · apply Reads.bind (sound.function (by omega))
    intro tokens₁ errors₁ id₁ first _ length₁
    apply Reads.bind (sound.methodsFrom (by omega))
    intro tokens₂ errors₂ id₂ others _ _
    exact Reads.pure rfl fun others first => .cons first others

theorem function_succ (sound : ReadsStatements bound) {form : Diagnostic.Callable}
    (room : 20 * tokens.length + 1 ≤ bound + 1) :
    Reads ⟨tokens, errors, id⟩ (Parser.function (bound + 1) form) 1 fun after declaration =>
      Callable true ⟨tokens, id⟩ declaration after.cursor := by
  simp only [Parser.function]
  apply Reads.expectName
  rintro name rest rfl isName
  apply Reads.expect (by decide)
  rintro opens rest rfl isOpen
  simp only [List.length_cons] at room
  have body {tokens' : List Token} {errors' : List Diagnostic} {id' : RefId}
      {parameters : List Name} (length : tokens'.length ≤ rest.length) :
      Reads ⟨tokens', errors', id'⟩ (do
        let _ ← Parser.expect .rightParen (.expectedCloseParen .parameters)
        let _ ← Parser.expect .leftBrace (.expectedOpenBrace (.callable form))
        let body ← Parser.blockBody bound
        return .mk (nameOf name) parameters body) 0 fun after declaration =>
          (∀ closes left, tokens' = closes :: left → closes.kind = .rightParen →
            ParameterList rest parameters left) → id' = id →
              Callable true ⟨name :: opens :: rest, id⟩ declaration after.cursor := by
    apply Reads.expect (by decide)
    rintro closes left rfl isClosed
    apply Reads.expect (by decide)
    rintro brace inside rfl isBrace
    simp only [List.length_cons] at length
    apply Reads.bind (sound.blockBody (by omega))
    intro tokens₁ errors₁ id₁ statements _ _
    apply Reads.pure rfl
    rintro ⟨last, isLast, statements⟩ parameters rfl
    exact .intro isName isOpen (parameters closes _ rfl isClosed) isBrace statements isLast
  apply Reads.check (by decide)
  split
  · rw [pure_bind]
    apply (body (Nat.le_refl _)).weaken
    intro after declaration derived
    apply derived _ rfl
    rintro closes left rfl isClosed
    exact .none isClosed
  · apply Reads.bind ((Reads.parametersFrom (by omega)).relax (Nat.zero_le 1))
    intro tokens₁ errors₁ id₁ parameters _ length₁
    apply (body length₁).weaken
    rintro after declaration derived ⟨parameters, sameId, few⟩
    apply derived _ sameId
    rintro closes left rfl isClosed
    exact .some parameters (by omega) isClosed

theorem blockBody_succ (sound : ReadsStatements bound)
    (room : 20 * tokens.length + 15 ≤ bound + 1) :
    Reads ⟨tokens, errors, id⟩ (Parser.blockBody (bound + 1)) 1 fun after body =>
      ∃ closes : Token, closes.kind = .rightBrace ∧
        Declarations true ⟨tokens, id⟩ body ⟨closes :: after.rest, after.nextId⟩ := by
  simp only [Parser.blockBody]
  apply Reads.bind (sound.statementsFrom (by omega))
  intro tokens₁ errors₁ id₁ body _ _
  apply Reads.expect (by decide)
  rintro closes rest rfl isClosed
  exact Reads.pure rfl fun body => ⟨closes, isClosed, body⟩

theorem statementsFrom_succ (sound : ReadsStatements bound)
    (room : 20 * tokens.length + 14 ≤ bound + 1) :
    Reads ⟨tokens, errors, id⟩ (Parser.statementsFrom (bound + 1)) 0 fun after body =>
      Declarations true ⟨tokens, id⟩ body after.cursor := by
  simp only [Parser.statementsFrom]
  apply Reads.check (by decide)
  apply Reads.atEnd
  split
  · exact Reads.pure rfl .nil
  · next goesOn =>
      have notEnd : ahead tokens ≠ .eof := fun isEnd => goesOn (by simp [isEnd])
      apply Reads.bind (sound.recovering notEnd (by omega))
      intro tokens₁ errors₁ id₁ found _ length₁
      cases found with
      | none =>
          apply (sound.statementsFrom (by omega)).weaken
          rintro after body _ ⟨tree, absent, -⟩
          cases absent
      | some first =>
          apply Reads.bind (sound.statementsFrom (by omega))
          intro tokens₂ errors₂ id₂ others _ _
          apply Reads.pure rfl
          rintro others ⟨tree, same, first⟩
          obtain rfl := Option.some.inj same
          exact .cons first others

/-- One more step of a statement, by its first token. -/
theorem statement_succ (sound : ReadsStatements bound)
    (room : 20 * tokens.length + 11 ≤ bound + 1) :
    Reads ⟨tokens, errors, id⟩ (Parser.statement (bound + 1)) 1 (IsStatement ⟨tokens, id⟩) := by
  have expressions := ReadsExpressions.all bound
  have otherwise : Reads ⟨tokens, errors, id⟩ (Parser.expressionStatement bound) 1
      (IsStatement ⟨tokens, id⟩) := by
    apply (Reads.expressionStatement (by omega)).weaken
    intro after tree derived
    exact ⟨false, .expression derived, by simp⟩
  simp only [Parser.statement]
  apply Reads.peek
  cases tokens with
  | nil => exact otherwise
  | cons word rest =>
      simp only [List.length_cons] at room
      rw [List.headD_cons]
      split
      · next isFor =>
          apply Reads.skip (by rw [isFor]; decide)
          apply (sound.forStatement (by omega)).weaken
          intro after tree derived
          exact derived word isFor
      · next isIf =>
          apply Reads.skip (by rw [isIf]; decide)
          apply Reads.expect (by decide)
          rintro opens rest rfl isOpen
          simp only [List.length_cons] at room
          apply Reads.bind (expressions.expression (by omega))
          intro tokens₁ errors₁ id₁ condition _ length₁
          apply Reads.expect (by decide)
          rintro closes rest rfl isClosed
          simp only [List.length_cons] at length₁
          apply Reads.bind (sound.statement (by omega))
          intro tokens₂ errors₂ id₂ consequence _ length₂
          apply Reads.accept (by decide)
          · rintro other rest rfl isElse
            simp only [List.length_cons] at length₂
            simp only [Option.isSome_some, if_true, bind_map_left]
            apply Reads.bind (sound.statement (by omega))
            intro tokens₃ errors₃ id₃ alternative _ _
            apply Reads.pure rfl
            rintro ⟨ending, alternative, last⟩ ⟨dangling, consequence, whole⟩ condition
            refine ⟨ending, ?_, last⟩
            have closed : dangling = false := by
              rw [← Bool.not_eq_true]
              exact fun isOpen => whole isOpen isElse
            exact .ifElse isIf isOpen condition isClosed consequence (fun _ => closed) isElse
              alternative
          · intro noElse
            simp only [Option.isSome_none, Bool.false_eq_true, if_false, pure_bind]
            apply Reads.pure rfl
            rintro ⟨dangling, consequence, -⟩ condition
            exact ⟨true, .ifThen isIf isOpen condition isClosed consequence, fun _ => noElse⟩
      · next isPrint =>
          apply Reads.skip (by rw [isPrint]; decide)
          apply Reads.bind (expressions.expression (by omega))
          intro tokens₁ errors₁ id₁ value _ _
          apply Reads.expect (by decide)
          rintro semicolon rest rfl isSemicolon
          exact Reads.pure rfl fun value => ⟨false, .print isPrint value isSemicolon, by simp⟩
      · next isReturn =>
          apply Reads.skip (by rw [isReturn]; decide)
          apply Reads.bind (Reads.optionalExpression (by decide) (by omega))
          intro tokens₁ errors₁ id₁ value _ _
          apply Reads.expect (by decide)
          rintro semicolon rest rfl isSemicolon
          exact Reads.pure rfl fun value => ⟨false, .leave isReturn value isSemicolon, by simp⟩
      · next isWhile =>
          apply Reads.skip (by rw [isWhile]; decide)
          apply Reads.expect (by decide)
          rintro opens rest rfl isOpen
          simp only [List.length_cons] at room
          apply Reads.bind (expressions.expression (by omega))
          intro tokens₁ errors₁ id₁ condition _ length₁
          apply Reads.expect (by decide)
          rintro closes rest rfl isClosed
          simp only [List.length_cons] at length₁
          apply Reads.bind (sound.statement (by omega))
          intro tokens₂ errors₂ id₂ body _ _
          apply Reads.pure rfl
          rintro ⟨dangling, body, whole⟩ condition
          exact ⟨dangling, .whileLoop isWhile isOpen condition isClosed body, whole⟩
      · next isBrace =>
          apply Reads.skip (by rw [isBrace]; decide)
          apply Reads.bind (sound.blockBody (by omega))
          intro tokens₁ errors₁ id₁ body _ _
          apply Reads.pure rfl
          rintro ⟨closes, isClosed, body⟩
          exact ⟨false, .block isBrace body isClosed, by simp⟩
      · exact otherwise

theorem forStatement_succ (sound : ReadsStatements bound)
    (room : 20 * tokens.length + 1 ≤ bound + 1) :
    Reads ⟨tokens, errors, id⟩ (Parser.forStatement (bound + 1)) 0 fun after tree =>
      ∀ word : Token, word.kind = .forWord → IsStatement ⟨word :: tokens, id⟩ after tree := by
  simp only [Parser.forStatement]
  apply Reads.expect (by decide)
  rintro opens rest rfl isOpen
  simp only [List.length_cons] at room
  apply Reads.bind (Reads.forInitializer (by omega))
  intro tokens₁ errors₁ id₁ initial _ length₁
  apply Reads.bind (Reads.optionalExpression (by decide) (by omega))
  intro tokens₂ errors₂ id₂ condition _ length₂
  apply Reads.expect (by decide)
  rintro semicolon rest rfl isSemicolon
  simp only [List.length_cons] at length₂
  apply Reads.bind (Reads.optionalExpression (by decide) (by omega))
  intro tokens₃ errors₃ id₃ increment _ length₃
  apply Reads.expect (by decide)
  rintro closes rest rfl isClosed
  simp only [List.length_cons] at length₃
  apply Reads.bind ((sound.statement (by omega)).relax (Nat.zero_le 1))
  intro tokens₄ errors₄ id₄ body _ _
  apply Reads.pure rfl
  rintro ⟨dangling, body, whole⟩ increment condition initial word isFor
  exact ⟨dangling, .forLoop isFor isOpen initial condition isSemicolon increment isClosed body
    (lowerFor_eq ..), whole⟩

theorem zero : ReadsStatements 0 where
  recovering _ room := absurd room (by omega)
  declaration room := absurd room (by omega)
  classDeclaration room := absurd room (by omega)
  methodsFrom room := absurd room (by omega)
  function room := absurd room (by omega)
  blockBody room := absurd room (by omega)
  statementsFrom room := absurd room (by omega)
  statement room := absurd room (by omega)
  forStatement room := absurd room (by omega)

/-- The parsers of statements read soundly within every bound. -/
theorem all (bound : Nat) : ReadsStatements bound := by
  induction bound with
  | zero => exact zero
  | succ bound sound =>
      exact ⟨sound.recovering_succ, sound.declaration_succ, sound.classDeclaration_succ,
        sound.methodsFrom_succ, sound.function_succ, sound.blockBody_succ,
        sound.statementsFrom_succ, sound.statement_succ, sound.forStatement_succ⟩

end ReadsStatements

/-- A program is read up to the end of its source. -/
theorem Reads.programFrom {bound : Nat} {tokens : List Token} {errors : List Diagnostic}
    {id : RefId} (room : 20 * tokens.length + 14 ≤ bound) :
    Reads ⟨tokens, errors, id⟩ (programFrom bound) 0 fun after statements =>
      ahead after.rest = .eof ∧ Declarations true ⟨tokens, id⟩ statements after.cursor := by
  induction bound generalizing tokens errors id with
  | zero => exact absurd room (by omega)
  | succ bound inductionHypothesis =>
      simp only [Parser.programFrom]
      apply Reads.atEnd
      split
      · next isEnd => exact Reads.pure rfl ⟨by simpa using isEnd, .nil⟩
      · next goesOn =>
          have notEnd : ahead tokens ≠ .eof := by simpa using goesOn
          apply Reads.bind ((ReadsStatements.all bound).recovering notEnd (by omega))
          intro tokens₁ errors₁ id₁ found _ length₁
          cases found with
          | none =>
              apply (inductionHypothesis (by omega)).weaken
              rintro after statements _ ⟨tree, absent, -⟩
              cases absent
          | some first =>
              apply Reads.bind (inductionHypothesis (by omega))
              intro tokens₂ errors₂ id₂ others _ _
              apply Reads.pure rfl
              rintro ⟨isEnd, others⟩ ⟨tree, same, first⟩
              obtain rfl := Option.some.inj same
              exact ⟨isEnd, .cons first others⟩

theorem nextId_le_parse (tokens : List Token) (nextId : RefId) :
    nextId ≤ (parse tokens nextId).nextId := by
  have reads := @Reads.programFrom (boundFor tokens) tokens [] nextId (by simp [boundFor]; omega)
  unfold Reads at reads
  unfold parse
  cases result : programFrom (boundFor tokens) ⟨tokens, [], nextId⟩ with
  | ok statements after =>
      rw [result] at reads
      exact reads.1.nextId
  | error abort after =>
      rw [result] at reads
      cases abort with
      | syntaxError => exact reads.1.nextId
      | bound => exact reads.elim

/-- What is parsed without an error is derived from the tokens up to the first
one that ends the source. -/
theorem derivation_of_parse {tokens : List Token} {nextId : RefId}
    (silent : (parse tokens nextId).errors = []) :
    ∃ taken rest, tokens = taken ++ rest ∧ (∀ token ∈ taken, token.kind ≠ .eof) ∧
      ahead rest = .eof ∧
        Declarations true ⟨tokens, nextId⟩ (parse tokens nextId).statements
          ⟨rest, (parse tokens nextId).nextId⟩ := by
  have reads := @Reads.programFrom (boundFor tokens) tokens [] nextId (by simp [boundFor]; omega)
  unfold Reads at reads
  unfold parse at silent ⊢
  cases result : programFrom (boundFor tokens) ⟨tokens, [], nextId⟩ with
  | ok statements after =>
      rw [result] at reads silent
      obtain ⟨advances, -, holds⟩ := reads
      obtain ⟨taken, same, real⟩ := advances.taken
      obtain ⟨isEnd, derived⟩ := holds silent
      exact ⟨taken, after.rest, same, real, isEnd, derived⟩
  | error abort after =>
      rw [result] at reads silent
      cases abort with
      | syntaxError => exact absurd silent reads.2
      | bound => exact reads.elim

end Parser

end LoxLang
